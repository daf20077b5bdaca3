import Metrology.Registry.Registration
import Metrology.UnitOfMeasure.Composition

/-!
# Units of the International System

The base units and the named units derived from them, with their metric families.  The kilogram is
the base unit of mass, but prefixes belong to the gram: the kilogram is declared first, so `kg` and
`kilogram` stay its names.
-/

namespace Metrology.Catalog

open Registration UnitOfMeasure

/-- A square. -/
def squared : Exponent := .ofInt8 2

/-- A cube. -/
def cubed : Exponent := .ofInt8 3

/-- Declares a unit. -/
def unit (u : UnitOfMeasure Float) (name : String) (aliases : List String) :
    Registration Float Unit :=
  declare u (some name) false aliases

/-- Declares a unit and its metric family. -/
def family (u : UnitOfMeasure Float) (name : String) (aliases : List String) :
    Registration Float Unit :=
  declare u (some name) true aliases

/-- The base units and the gram. -/
def baseUnits : Registration Float Unit := do
  family (base "m" (.of .length)) "meter" ["metre"]
  family (base "s" (.of .time)) "second" ["sec"]
  family (base "A" (.of .current)) "ampere" ["amp"]
  family (base "K" (.of .temperature)) "kelvin" []
  family (base "mol" (.of .amount)) "mole" []
  family (base "cd" (.of .luminousIntensity)) "candela" []
  let kilogram := base "kg" (.of .mass)
  unit kilogram "kilogram" []
  family (← scaled "g" kilogram 1e-3) "gram" []

/-- The units with names of their own that are derived from the base units. -/
def derivedUnits : Registration Float Unit := do
  let m ← lookup "m"
  let kg ← lookup "kg"
  let s ← lookup "s"
  let a ← lookup "A"
  let mol ← lookup "mol"
  let cd ← lookup "cd"
  let m2 ← m.power squared
  let hertz := (← s.invert).withSymbol "Hz"
  let newton := (← (← kg.multiply m).divide (← s.power squared)).withSymbol "N"
  let pascal := (← newton.divide m2).withSymbol "Pa"
  let joule := (← newton.multiply m).withSymbol "J"
  let watt := (← joule.divide s).withSymbol "W"
  let coulomb := (← a.multiply s).withSymbol "C"
  let volt := (← watt.divide a).withSymbol "V"
  let farad := (← coulomb.divide volt).withSymbol "F"
  let ohm := (← volt.divide a).withSymbol "Ω"
  let siemens := (← ohm.invert).withSymbol "S"
  let weber := (← volt.multiply s).withSymbol "Wb"
  let tesla := (← weber.divide m2).withSymbol "T"
  let henry := (← weber.divide a).withSymbol "H"
  let gray := (← joule.divide kg).withSymbol "Gy"
  let sievert := (← joule.divide kg).withSymbol "Sv"
  let becquerel := (← s.invert).withSymbol "Bq"
  let katal := (← mol.divide s).withSymbol "kat"
  let radian := (← m.divide m).withSymbol "rad"
  let steradian := (← m2.divide m2).withSymbol "sr"
  let lumen := (← cd.multiply steradian).withSymbol "lm"
  let lux := (← lumen.divide m2).withSymbol "lx"
  family hertz "hertz" []
  family newton "newton" []
  family pascal "pascal" []
  family joule "joule" []
  family watt "watt" []
  family coulomb "coulomb" []
  family volt "volt" []
  family farad "farad" []
  family ohm "ohm" ["Ohm"]
  family siemens "siemens" []
  family weber "weber" []
  family tesla "tesla" []
  family henry "henry" []
  family gray "gray" []
  family sievert "sievert" []
  family becquerel "becquerel" []
  family katal "katal" []
  family lumen "lumen" []
  family lux "lux" []
  family radian "radian" []
  unit steradian "steradian" []

end Metrology.Catalog
