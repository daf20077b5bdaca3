import Metrology.Binary64.Parts

/-!
# Rounding doubles to integers

`floor`, `ceil` and `round` share one scheme (`toIntegral`): the magnitude is cut to its integer
part, which is raised by one where the rule says so.  The sign stays, so a negative number between
-1 and 0 is rounded up to the negative zero.
-/

namespace Metrology.Binary64

/-- Cuts the magnitude to its integer part and adds one if `up` holds of the sign, the part cut off
and its denominator. -/
def toIntegral (up : Bool → Nat → Nat → Bool) (x : Float) : Float :=
  match parts x with
  | .finite negative significand exponent =>
    if 0 ≤ exponent then x
    else
      let unit := Nat.pow 2 (-exponent).toNat
      let whole := significand / unit
      let rest := significand % unit
      nearest negative (if up negative rest unit then whole + 1 else whole) 1
  | _ => x

/-- The largest integer that is not greater. -/
def floor (x : Float) : Float :=
  toIntegral (fun negative rest _ => negative && rest != 0) x

/-- The smallest integer that is not less. -/
def ceil (x : Float) : Float :=
  toIntegral (fun negative rest _ => !negative && rest != 0) x

/-- The nearest integer; a half goes away from zero. -/
def round (x : Float) : Float :=
  toIntegral (fun _ rest unit => unit ≤ 2 * rest) x

end Metrology.Binary64
