import Metrology.Binary64.Parts

/-!
# Real powers of doubles

`x ^ y` is computed as `exp (y * ln x)` in fixed point with `fractionBits` fractional bits, several
times the precision of a double, and rounded once.  The logarithm is a sum of inverse hyperbolic
tangents, the exponential a Taylor sum after the multiples of `ln 2` are split off.  Zeros,
infinities and negative bases follow the rules of real powers: a negative base has powers with
integer exponents only, and their sign is the parity of the exponent (`signOfPower`).
-/

namespace Metrology.Binary64

/-- The number of fractional bits of the fixed-point numbers. -/
def fractionBits : Nat := 320

/-- The sum of `term / k + term * square / (k + 2) + …`, in fixed point, of the given length. -/
def oddSum (square : Int) : Nat → Int → Nat → Int
  | 0, _, _ => 0
  | length + 1, term, k =>
    term / k + oddSum square length (term * square / Nat.pow 2 fractionBits) (k + 2)

/-- The inverse hyperbolic tangent of a fraction between 0 and 1/3, in fixed point. -/
def atanh (num den : Nat) : Int :=
  let z : Int := num * Nat.pow 2 fractionBits / den
  oddSum (z * z / Nat.pow 2 fractionBits) 110 z 1

/-- The natural logarithm of 2, in fixed point. -/
def ln2 : Int :=
  2 * atanh 1 3

/-- The natural logarithm of `significand * 2 ^ exponent`, in fixed point. -/
def ln (significand : Nat) (exponent : Int) : Int :=
  let top := Nat.pow 2 (Nat.log2 significand)
  2 * atanh (significand - top) (significand + top) + (Nat.log2 significand + exponent) * ln2

/-- The value at `x` of the sum of `x ^ n / n!` for `n` up to the given length, in fixed point. -/
def expSum (x : Int) : Nat → Int → Int
  | 0, sum => sum
  | n + 1, sum => expSum x n (Nat.pow 2 fractionBits + x * sum / (Nat.pow 2 fractionBits * (n + 1)))

/-- The double nearest to the exponential of a fixed-point number. -/
def exp (negative : Bool) (x : Int) : Float :=
  if 1000 * Nat.pow 2 fractionBits < x then infinity negative
  else if x < -1000 * Nat.pow 2 fractionBits then zero negative
  else
    let turns := x / ln2
    let sum := expSum (x - turns * ln2) 90 (Nat.pow 2 fractionBits)
    ofDyadic negative sum.toNat (turns - fractionBits)

/-- Whether a finite double is an odd integer. -/
def isOdd (significand : Nat) (exponent : Int) : Bool :=
  if 0 < exponent then false
  else
    let unit := Nat.pow 2 (-exponent).toNat
    significand % unit == 0 && significand / unit % 2 == 1

/-- Whether a finite double is an integer. -/
def isInteger (significand : Nat) (exponent : Int) : Bool :=
  significand % Nat.pow 2 (-exponent).toNat == 0

/-- A power of a negative number is negative when the exponent is odd. -/
def signOfPower (negative : Bool) (significand : Nat) (exponent : Int) : Bool :=
  negative && isOdd significand exponent

/-- The power `x ^ y` of two doubles. -/
def pow (x y : Float) : Float :=
  if y == 0 || x == 1 then 1
  else
    match parts x, parts y with
    | .nan, _ => nan
    | _, .nan => nan
    | x, .infinite down =>
      match x with
      | .finite _ a p =>
        let one := Nat.pow 2 (-p).toNat
        let magnitude := a * Nat.pow 2 p.toNat
        if magnitude = one then 1
        else if decide (magnitude < one) = down then infinity false
        else zero false
      | _ => if down then zero false else infinity false
    | .infinite negative, .finite down b q =>
      if down then zero (signOfPower negative b q) else infinity (signOfPower negative b q)
    | .finite negative a p, .finite down b q =>
      if a = 0 then
        if down then infinity (signOfPower negative b q) else zero (signOfPower negative b q)
      else if negative && !isInteger b q then nan
      else
        let product := ln a p * b * Nat.pow 2 q.toNat / Nat.pow 2 (-q).toNat
        exp (signOfPower negative b q) (if down then -product else product)

end Metrology.Binary64
