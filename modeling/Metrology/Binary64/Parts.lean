/-!
# Doubles as exact numbers

A `Float` is a not-a-number, an infinity, or a sign with a natural significand times a power of two
(`parts`).  The way back is `nearest`: the double closest to a given fraction, halves going to the
even significand, and an infinity beyond the largest finite double.  All operations on doubles that
are not primitive are defined by these two.

* `two_mul_roundHalfEven_sub_le`, `two_mul_sub_roundHalfEven_le`: the rounded quotient is within
  half a unit of the fraction.
* `even_roundHalfEven`: an exact half goes to the even neighbour.
-/

namespace Metrology.Binary64

/-- The number of significands of one exponent, `2 ^ 52`, and the least significand of a normal
double. -/
def binade : Nat := 0x10000000000000

/-- The bit of the sign, `2 ^ 63`. -/
def signBit : Nat := 0x8000000000000000

/-- A double read exactly; the finite ones are `significand * 2 ^ exponent` under a sign. -/
inductive Parts where
  | nan
  | infinite (negative : Bool)
  | finite (negative : Bool) (significand : Nat) (exponent : Int)
deriving DecidableEq

/-- The parts of a double. -/
def parts (x : Float) : Parts :=
  let bits := x.toBits.toNat
  let negative := decide (signBit ≤ bits)
  let biased : Nat := bits / binade % 0x800
  let fraction : Nat := bits % binade
  if biased = 2047 then
    if fraction = 0 then .infinite negative else .nan
  else if biased = 0 then .finite negative fraction (-1074)
  else .finite negative (binade + fraction) (Int.ofNat biased - 1075)

/-- The double with given magnitude bits. -/
def ofMagnitude (negative : Bool) (bits : Nat) : Float :=
  Float.ofBits (UInt64.ofNat (if negative then signBit + bits else bits))

/-- The infinity of a sign. -/
def infinity (negative : Bool) : Float :=
  ofMagnitude negative (2047 * binade)

/-- The zero of a sign. -/
def zero (negative : Bool) : Float :=
  ofMagnitude negative 0

/-- The double that is no number. -/
def nan : Float :=
  Float.ofBits 0x7FF8000000000000

/-- The natural number nearest to a fraction; a half goes to the even neighbour. -/
def roundHalfEven (num den : Nat) : Nat :=
  let quotient := num / den
  let rest := num % den
  if 2 * rest < den ∨ (2 * rest = den ∧ quotient % 2 = 0) then quotient else quotient + 1

/-- The largest `t` with `2 ^ t ≤ num / den`, for a positive fraction. -/
def log2Ratio (num den : Nat) : Int :=
  let t : Int := Nat.log2 num - Nat.log2 den
  if den * Nat.pow 2 t.toNat ≤ num * Nat.pow 2 (-t).toNat then t else t - 1

/-- The double nearest to a fraction under a sign. -/
def nearest (negative : Bool) (num den : Nat) : Float :=
  if num = 0 then zero negative
  else
    let exponent := max (log2Ratio num den - 52) (-1074)
    let significand :=
      roundHalfEven (num * Nat.pow 2 (-exponent).toNat) (den * Nat.pow 2 exponent.toNat)
    ofMagnitude negative (min ((exponent + 1074).toNat * binade + significand) (2047 * binade))

/-- The double nearest to `significand * 2 ^ exponent`. -/
def ofDyadic (negative : Bool) (significand : Nat) (exponent : Int) : Float :=
  nearest negative (significand * Nat.pow 2 exponent.toNat) (Nat.pow 2 (-exponent).toNat)

/-- The double nearest to an integer. -/
def ofInt (n : Int) : Float :=
  nearest (n < 0) n.natAbs 1

/-! ### Rounding -/

theorem two_mul_sub_roundHalfEven_le {num den : Nat} (h : 0 < den) :
    2 * num ≤ 2 * (roundHalfEven num den * den) + den := by
  have hd := Nat.div_add_mod' num den
  have hm := Nat.mod_lt num h
  unfold roundHalfEven
  simp only
  split
  · omega
  · rw [Nat.add_mul]
    omega

theorem two_mul_roundHalfEven_sub_le {num den : Nat} (h : 0 < den) :
    2 * (roundHalfEven num den * den) ≤ 2 * num + den := by
  have hd := Nat.div_add_mod' num den
  have hm := Nat.mod_lt num h
  unfold roundHalfEven
  simp only
  split
  · omega
  · rw [Nat.add_mul]
    omega

theorem even_roundHalfEven {num den : Nat} (h : 2 * (num % den) = den) :
    roundHalfEven num den % 2 = 0 := by
  unfold roundHalfEven
  simp only
  split <;> omega

end Metrology.Binary64
