/-!
# Metric prefixes

The twenty-four prefixes of the International System, from quetta to quecto.  A prefix stands for a
power of ten (`power`, `factor`); it is found by its symbol (`ofSymbol?`, where micro has two more
spellings) or by its name (`ofName?`).
-/

namespace Metrology

/-- A metric prefix. -/
inductive Prefix where
  | quetta
  | ronna
  | yotta
  | zetta
  | exa
  | peta
  | tera
  | giga
  | mega
  | kilo
  | hecto
  | deca
  | deci
  | centi
  | milli
  | micro
  | nano
  | pico
  | femto
  | atto
  | zepto
  | yocto
  | ronto
  | quecto
deriving DecidableEq

namespace Prefix

/-- All prefixes, the largest first. -/
def all : List Prefix :=
  [quetta, ronna, yotta, zetta, exa, peta, tera, giga, mega, kilo, hecto, deca, deci, centi, milli,
    micro, nano, pico, femto, atto, zepto, yocto, ronto, quecto]

/-- The symbol written before that of the unit; micro is the sign U+00B5. -/
def symbol : Prefix → String
  | quetta => "Q"
  | ronna => "R"
  | yotta => "Y"
  | zetta => "Z"
  | exa => "E"
  | peta => "P"
  | tera => "T"
  | giga => "G"
  | mega => "M"
  | kilo => "k"
  | hecto => "h"
  | deca => "da"
  | deci => "d"
  | centi => "c"
  | milli => "m"
  | micro => "\u00B5"
  | nano => "n"
  | pico => "p"
  | femto => "f"
  | atto => "a"
  | zepto => "z"
  | yocto => "y"
  | ronto => "r"
  | quecto => "q"

/-- The name written before that of the unit. -/
def name : Prefix → String
  | quetta => "quetta"
  | ronna => "ronna"
  | yotta => "yotta"
  | zetta => "zetta"
  | exa => "exa"
  | peta => "peta"
  | tera => "tera"
  | giga => "giga"
  | mega => "mega"
  | kilo => "kilo"
  | hecto => "hecto"
  | deca => "deca"
  | deci => "deci"
  | centi => "centi"
  | milli => "milli"
  | micro => "micro"
  | nano => "nano"
  | pico => "pico"
  | femto => "femto"
  | atto => "atto"
  | zepto => "zepto"
  | yocto => "yocto"
  | ronto => "ronto"
  | quecto => "quecto"

/-- The power of ten that a prefix stands for. -/
def power : Prefix → Int
  | quetta => 30
  | ronna => 27
  | yotta => 24
  | zetta => 21
  | exa => 18
  | peta => 15
  | tera => 12
  | giga => 9
  | mega => 6
  | kilo => 3
  | hecto => 2
  | deca => 1
  | deci => -1
  | centi => -2
  | milli => -3
  | micro => -6
  | nano => -9
  | pico => -12
  | femto => -15
  | atto => -18
  | zepto => -21
  | yocto => -24
  | ronto => -27
  | quecto => -30

/-- The power of ten as a scalar. -/
def factor {α : Type} [OfScientific α] (p : Prefix) : α :=
  OfScientific.ofScientific 1 (p.power < 0) p.power.natAbs

/-- The prefix of a symbol; micro may also be written `u` or with the letter U+03BC. -/
def ofSymbol? (s : String) : Option Prefix :=
  if s == "u" || s == "\u03BC" then some micro else all.find? (·.symbol == s)

/-- The prefix of a name. -/
def ofName? (s : String) : Option Prefix :=
  all.find? (·.name == s)

theorem mem_all (p : Prefix) : p ∈ all := by
  cases p <;> decide

theorem ofSymbol?_symbol (p : Prefix) : ofSymbol? p.symbol = some p := by
  cases p <;> decide

theorem ofName?_name (p : Prefix) : ofName? p.name = some p := by
  cases p <;> decide

end Prefix

end Metrology
