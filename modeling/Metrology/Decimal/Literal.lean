import Metrology.Binary64.Parts
import Metrology.Numeral

/-!
# Decimal literals

A literal is a signed decimal number as it was written.  Its double is the nearest one (`toFloat`):
an infinity for what lies beyond the largest finite double, a zero for what lies below half the
smallest.
-/

namespace Metrology.Decimal

/-- The number `digits * 10 ^ exponent` under a sign. -/
structure Literal where
  negative : Bool
  digits : Nat
  exponent : Int
deriving DecidableEq

namespace Literal

/-- The literal of the digits before and after a point and an exponent. -/
def ofParts (negative : Bool) (whole fraction : List Char) (exponent : Int) : Literal :=
  ⟨negative, Nat.ofDigitChars 10 (whole ++ fraction) 0, exponent - fraction.length⟩

/-- The nearest double.  Numbers from `10 ^ 400` on and below `10 ^ (-400)` are settled by their
magnitude alone. -/
def toFloat (l : Literal) : Float :=
  let power := (Numeral.ofNat l.digits).length + l.exponent
  if l.digits = 0 ∨ power < -400 then Binary64.zero l.negative
  else if 400 < power then Binary64.infinity l.negative
  else
    Binary64.nearest l.negative (l.digits * Nat.pow 10 l.exponent.toNat)
      (Nat.pow 10 (-l.exponent).toNat)

/-- Takes an optional sign off a text. -/
def takeSign : List Char → Bool × List Char
  | '-' :: cs => (true, cs)
  | '+' :: cs => (false, cs)
  | cs => (false, cs)

/-- Takes the digits off the front of a text. -/
def takeDigits (cs : List Char) : List Char × List Char :=
  (cs.takeWhile Char.isDigit, cs.dropWhile Char.isDigit)

/-- Whether digits are those of a whole number: some, and no zero before others. -/
def isWhole : List Char → Bool
  | [] => false
  | ['0'] => true
  | c :: _ => c != '0'

/-- Takes a point and the digits after it off the front of a text, if there is one. -/
def takeFraction : List Char → List Char × List Char
  | '.' :: cs => takeDigits cs
  | cs => ([], cs)

/-- Reads an exponent that ends a text, or no text at all. -/
def exponentOfChars? : List Char → Option Int
  | [] => some 0
  | c :: cs => if c = 'e' ∨ c = 'E' then Numeral.toInt? cs else none

/-- Reads a literal: a sign, digits with a point among them and an exponent, of which only one
digit is needed. -/
def ofChars? (cs : List Char) : Option Literal :=
  let (negative, cs) := takeSign cs
  let (whole, cs) := takeDigits cs
  let (fraction, cs) := takeFraction cs
  if whole.isEmpty && fraction.isEmpty then none
  else (exponentOfChars? cs).map (ofParts negative whole fraction)

end Literal

/-- Reads a double: a literal, or the text of what is no finite number. -/
def floatOfText? (s : String) : Option Float :=
  if s == "NaN" then some Binary64.nan
  else if s == "inf" then some (Binary64.infinity false)
  else if s == "-inf" then some (Binary64.infinity true)
  else (Literal.ofChars? s.toList).map Literal.toFloat

end Metrology.Decimal
