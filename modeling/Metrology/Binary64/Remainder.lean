import Metrology.Binary64.Parts

/-!
# Remainders, signs and order of doubles

The remainder of truncated division is exact: with both numbers on one power of two it is the
remainder of two natural numbers, under the sign of the dividend.
-/

namespace Metrology.Binary64

/-- The remainder of `x` on truncated division by `y`. -/
def remainder (x y : Float) : Float :=
  match parts x, parts y with
  | .finite negative a p, .finite _ b q =>
    if b = 0 then nan
    else
      let least := min p q
      let a := a * Nat.pow 2 (p - least).toNat
      let b := b * Nat.pow 2 (q - least).toNat
      ofDyadic negative (a % b) least
  | .finite _ _ _, .infinite _ => x
  | _, _ => nan

/-- Whether the sign of a double is negative; a not-a-number counts as positive. -/
def isNegative (x : Float) : Bool :=
  match parts x with
  | .nan => false
  | .infinite negative => negative
  | .finite negative _ _ => negative

/-- The magnitude of `x` under the sign of `y`. -/
def copySign (x y : Float) : Float :=
  match parts x with
  | .nan => nan
  | .infinite _ => infinity (isNegative y)
  | .finite _ significand exponent => ofDyadic (isNegative y) significand exponent

/-- The magnitude. -/
def abs (x : Float) : Float :=
  copySign x 1

/-- The place of a double in the order from minus infinity over the two zeros to infinity, with
the not-a-number last. -/
def place (x : Float) : Int :=
  match parts x with
  | .nan => signBit
  | _ =>
    let bits := x.toBits.toNat
    if signBit ≤ bits then (signBit : Int) - 1 - bits else bits

/-- The total order of doubles. -/
def totalCompare (x y : Float) : Ordering :=
  compare (place x) (place y)

end Metrology.Binary64
