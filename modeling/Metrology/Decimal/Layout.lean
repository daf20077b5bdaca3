import Metrology.Decimal.Shortest
import Metrology.Numeral

/-!
# Layout of decimal numbers

How a double is written: with the shortest digits that read back (`Style.text`) or with a fixed
number of places (`fixedText`).  A `Style` settles the open questions of the first form: how many
places are written at least, and between which powers of ten a number is written without an
exponent.  What is no finite number is written `NaN`, `inf` or `-inf`, and a zero keeps its sign.
-/

namespace Metrology.Decimal

/-- The digits of a number with the last `places` of them after the point, at least one before. -/
def withPoint (digits : List Char) (places : Nat) : List Char :=
  let padded := List.replicate (places + 1 - digits.length) '0' ++ digits
  let whole := padded.length - places
  padded.take whole ++ (if places = 0 then [] else '.' :: padded.drop whole)

/-- A decimal number without an exponent, with at least `minPlaces` places. -/
def positional (minPlaces : Nat) (d : Decimal) : List Char :=
  let places := (-d.exponent).toNat
  let zeros := d.exponent.toNat + (minPlaces - places)
  withPoint (Numeral.ofNat (d.digits * Nat.pow 10 zeros)) (max places minPlaces)

/-- The power of ten of the leading digit. -/
def leadingPower (d : Decimal) : Int :=
  (Numeral.ofNat d.digits).length + d.exponent - 1

/-- A decimal number as one digit, the others after a point, and the power of ten. -/
def scientific (d : Decimal) : List Char :=
  let digits := Numeral.ofNat d.digits
  withPoint digits (digits.length - 1) ++ 'e' :: Numeral.ofInt d.leadingPower

/-- How a number is written with its shortest digits. -/
structure Style where
  minPlaces : Nat
  /-- The powers of ten of a leading digit between which no exponent is written; always if there
  are none. -/
  positionalPowers : Option (Int × Int)

/-- Numbers are written without exponent, and integers without a point. -/
def Style.plain : Style :=
  ⟨0, none⟩

/-- Numbers have at least one place, and an exponent below 1e-4 and from 1e16 on. -/
def Style.explicit : Style :=
  ⟨1, some (-4, 15)⟩

/-- The characters of a decimal number in a style. -/
def Style.chars (style : Style) (d : Decimal) : List Char :=
  match style.positionalPowers with
  | none => positional style.minPlaces d
  | some (least, greatest) =>
    if d.digits = 0 ∨ (least ≤ d.leadingPower ∧ d.leadingPower ≤ greatest) then
      positional style.minPlaces d
    else scientific d

/-- The characters of a double whose finite magnitudes are written by `magnitude`. -/
def signed (magnitude : Nat → Int → List Char) (x : Float) : List Char :=
  match Binary64.parts x with
  | .nan => ['N', 'a', 'N']
  | .infinite negative => (if negative then ['-'] else []) ++ ['i', 'n', 'f']
  | .finite negative significand exponent =>
    (if negative then ['-'] else []) ++ magnitude significand exponent

/-- The text of a double in a style. -/
def Style.text (style : Style) (x : Float) : String :=
  String.ofList (signed (fun significand exponent => style.chars (shortest significand exponent)) x)

/-- The digits of `significand * 2 ^ exponent` with a fixed number of places, rounded from the exact
value; a half goes to the even digit. -/
def fixedChars (places significand : Nat) (exponent : Int) : List Char :=
  let num := significand * Nat.pow 2 exponent.toNat * Nat.pow 10 places
  withPoint (Numeral.ofNat (Binary64.roundHalfEven num (Nat.pow 2 (-exponent).toNat))) places

/-- The text of a double with a fixed number of places. -/
def fixedText (places : Nat) (x : Float) : String :=
  String.ofList (signed (fixedChars places) x)

end Metrology.Decimal
