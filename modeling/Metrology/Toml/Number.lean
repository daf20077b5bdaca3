import Metrology.Decimal.Literal
import Metrology.Exponent
import Metrology.Text.CodePoint
import Metrology.Toml.Value

/-!
# TOML numbers

Integers are written in base ten with an optional sign, or without sign in base 16, 8 or 2, and have
to be words.  Floats have a fraction, an exponent or both; they may not lie above the range of
doubles, and one below it is minus infinity.  What is no finite number may also be written `inf` or
`nan`.  Single underscores may stand between digits.
-/

namespace Metrology.Toml

/-- Whether an underscore stands only between two digits of a run of digits and underscores, which
must not be empty.  The flag tells whether a digit has to follow. -/
def isSeparated : Bool → List Char → Bool
  | digitDue, [] => !digitDue
  | digitDue, c :: cs => if c = '_' then !digitDue && isSeparated true cs else isSeparated false cs

/-- Takes digits with single underscores between them off the front of a text. -/
def takeDigits? (isDigit : Char → Bool) (cs : List Char) : Option (List Char × List Char) :=
  let isPart c := isDigit c || c = '_'
  let run := cs.takeWhile isPart
  if isSeparated true run then some (run.filter (· ≠ '_'), cs.dropWhile isPart) else none

/-- An integer that is a word. -/
def word? (n : Int) : Option Toml :=
  if InWord n then some (integer n) else none

/-- Takes an integer of the given base, after the letter of the base, off the front of a text. -/
def radixInteger? (base : Nat) (cs : List Char) : Option (Toml × List Char) := do
  let isDigit c := (Text.hexDigit? c).any (· < base)
  let (digits, cs) ← takeDigits? isDigit cs
  let n := digits.foldl (fun n c => base * n + (Text.hexDigit? c).getD 0) 0
  (word? n).map (·, cs)

/-- Takes a fraction off the front of a text, if there is one. -/
def fraction? : List Char → Option (Option (List Char) × List Char)
  | '.' :: cs => (takeDigits? Char.isDigit cs).map fun (digits, cs) => (some digits, cs)
  | cs => some (none, cs)

/-- Takes an exponent off the front of a text, if there is one. -/
def exponent? : List Char → Option (Option Int × List Char)
  | [] => some (none, [])
  | c :: cs =>
    if c = 'e' ∨ c = 'E' then do
      let (negative, cs) := Decimal.Literal.takeSign cs
      let (digits, cs) ← takeDigits? Char.isDigit cs
      let n : Int := Nat.ofDigitChars 10 digits 0
      return (some (if negative then -n else n), cs)
    else some (none, c :: cs)

/-- Takes a decimal number, after its sign, off the front of a text. -/
def decimal? (negative : Bool) (cs : List Char) : Option (Toml × List Char) := do
  let (whole, cs) ← takeDigits? Char.isDigit cs
  if !Decimal.Literal.isWhole whole then none
  else
    let (fraction, cs) ← fraction? cs
    let (exponent, cs) ← exponent? cs
    match fraction, exponent with
    | none, none =>
      let n : Int := Nat.ofDigitChars 10 whole 0
      (word? (if negative then -n else n)).map (·, cs)
    | fraction, exponent =>
      let literal := Decimal.Literal.ofParts negative whole (fraction.getD []) (exponent.getD 0)
      let x := literal.toFloat
      if x == Binary64.infinity false then none else some (float x, cs)

/-- Takes a number off the front of a text. -/
def number? : List Char → Option (Toml × List Char)
  | '0' :: 'x' :: cs => radixInteger? 16 cs
  | '0' :: 'o' :: cs => radixInteger? 8 cs
  | '0' :: 'b' :: cs => radixInteger? 2 cs
  | cs =>
    match Decimal.Literal.takeSign cs with
    | (negative, 'i' :: 'n' :: 'f' :: cs) => some (float (Binary64.infinity negative), cs)
    | (_, 'n' :: 'a' :: 'n' :: cs) => some (float Binary64.nan, cs)
    | (negative, cs) => decimal? negative cs

end Metrology.Toml
