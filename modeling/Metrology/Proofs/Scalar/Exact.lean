import Mathlib.Algebra.Order.Floor.Defs
import Mathlib.Algebra.Order.Floor.Ring
import Mathlib.Analysis.SpecialFunctions.Pow.Real
import Mathlib.Data.Rat.Floor
import Metrology.Proofs.Exponent.Integer
import Metrology.UnitOfMeasure.Composition

/-!
# Exact scalars

The numbers of an ordered field measure without rounding: every number is finite, equality and order
are those of the field, and so is the arithmetic.  Roots and real powers are not part of a field;
they are given beside it (`RealPowers`), and all that is asked of them here is that a real power to an
integer is the power of the field.  The real numbers have all of them, the rational numbers those to
integers.  The instance is scoped to the namespace `Exact`: where that is not open, the numerals of a
field are its own.

A power is computed in two ways, by repeated squaring for exponents of 32 bits and as a real power
beyond.  Over exact scalars both are the power of the field (`powInt_eq`), and a rational power with
an integer exponent is that power too (`raise_eq_zpow`).  Of the real numbers the positive ones have
all rational powers, and the rational power is the real power (`raise_eq_rpow`); the negative ones
have those to integers, so that the logarithm of a power is the multiple of the logarithm for either
sign (`log_raise`).
-/

namespace Metrology

/-- Roots and real powers beside the arithmetic of a field.  Where the exponent is an integer, a real
power is the power of the field. -/
class RealPowers (K : Type) [Field K] where
  sqrt : K → K
  cbrt : K → K
  pow : K → K → K
  pow_intCast : ∀ (x : K) (n : ℤ), pow x n = x ^ n

noncomputable instance : RealPowers ℝ where
  sqrt := Real.sqrt
  cbrt x := SignType.sign x * |x| ^ (1 / 3 : ℝ)
  pow x y := x ^ y
  pow_intCast := Real.rpow_intCast

/-- Rational numbers have powers to integers; other exponents are rounded down. -/
instance : RealPowers ℚ where
  sqrt x := x ^ ⌊(1 / 2 : ℚ)⌋
  cbrt x := x ^ ⌊(1 / 3 : ℚ)⌋
  pow x y := x ^ ⌊y⌋
  pow_intCast x n := by rw [Int.floor_intCast]

namespace Exact

/-- The numbers of an ordered field as scalars. -/
scoped instance scalar (K : Type) [Field K] [LinearOrder K] [IsStrictOrderedRing K] [FloorRing K]
    [RealPowers K] : Scalar K where
  beq x y := decide (x = y)
  less x y := decide (x < y)
  isFinite _ := true
  same x y := decide (x = y)
  same_self _ := decide_eq_true rfl
  ofInt n := n
  sqrt := RealPowers.sqrt
  cbrt := RealPowers.cbrt
  pow := RealPowers.pow
  abs x := |x|
  floor x := ⌊x⌋
  ceil x := ⌈x⌉
  round x := if x < 0 then -⌊1 / 2 - x⌋ else ⌊x + 1 / 2⌋
  remainder x y := x - (if x / y < 0 then ⌈x / y⌉ else ⌊x / y⌋) * y
  copySign x y := if y < 0 then -|x| else |x|
  totalCompare x y := compare x y

end Exact

open scoped Exact

namespace Scalar

variable {K : Type} [Field K] [LinearOrder K] [IsStrictOrderedRing K] [FloorRing K] [RealPowers K]

@[simp]
theorem exact_beq_eq_false_iff {x y : K} : (x == y) = false ↔ x ≠ y :=
  decide_eq_false_iff_not

@[simp]
theorem exact_less_iff {x y : K} : less x y = true ↔ x < y :=
  decide_eq_true_iff

@[simp]
theorem exact_same_iff {x y : K} : same x y = true ↔ x = y :=
  decide_eq_true_iff

@[simp]
theorem exact_isFactor_iff {x : K} : isFactor x = true ↔ x ≠ 0 := by
  have h : isFactor x = !(x == 0) := Bool.and_true _
  rw [h, Bool.not_eq_true', exact_beq_eq_false_iff]

/-! ### Powers -/

theorem powBits_eq (bits : ℕ) (result x : K) {n : ℕ} (hn : n < 2 ^ bits) :
    powBits bits result x n = result * x ^ n := by
  induction bits generalizing result x n with
  | zero =>
    have h0 : n = 0 := by simpa using hn
    simp [powBits, h0]
  | succ bits ih =>
    have hhalf : n / 2 < 2 ^ bits := by rw [pow_succ] at hn; omega
    have hn2 : n = n % 2 + 2 * (n / 2) := by omega
    have hsq : (x * x) ^ (n / 2) = x ^ (2 * (n / 2)) := by rw [pow_mul, sq]
    rw [powBits, ih _ _ hhalf, hsq]
    split
    · rename_i hodd
      rw [hodd] at hn2
      rw [mul_assoc, ← pow_succ', add_comm, ← hn2]
    · rename_i heven
      have h0 : n % 2 = 0 := by omega
      rw [h0, zero_add] at hn2
      rw [← hn2]

theorem powNat_eq (x : K) (n : ℕ) : powNat x n = x ^ n := by
  have hn : n < 2 ^ (n.log2 + 1) := by
    by_cases h0 : n = 0
    · simp [h0]
    · exact (Nat.log2_lt h0).mp (Nat.lt_succ_self _)
  rw [powNat, powBits_eq _ _ _ hn, one_mul]

/-- Repeated squaring and the real power agree with the power of the field. -/
theorem powInt_eq (x : K) (n : ℤ) : powInt x n = x ^ n := by
  unfold powInt
  split
  · split
    · rename_i hneg
      have hn : n = -(n.natAbs : ℤ) := by omega
      rw [powNat_eq, one_div, ← zpow_natCast, ← zpow_neg, ← hn]
    · rename_i hpos
      have hn : n = (n.natAbs : ℤ) := by omega
      rw [powNat_eq, ← zpow_natCast, ← hn]
  · exact RealPowers.pow_intCast x n

theorem raise_of_isInteger {x : K} {p : Exponent} (hx : x ≠ 0) (hp : p.isInteger = true) :
    raise x p = .ok (x ^ p.value.num) := by
  rw [raise, exact_beq_eq_false_iff.mpr hx]
  simp [hp, powInt_eq]

/-- A rational power with an integer exponent is a power of the field. -/
theorem raise_eq_zpow {x s : K} {p : Exponent} (hp : p.isInteger = true)
    (h : raise x p = .ok s) : s = x ^ p.value.num := by
  unfold raise at h
  split at h
  · cases h
  · cases h
    exact powInt_eq x _

/-! ### Real powers -/

theorem root_eq_rpow {x : ℝ} (hx : 0 < x) (n : ℕ) : root x n = x ^ (1 / n : ℝ) := by
  unfold root
  split
  · exact Real.sqrt_eq_rpow x
  · change SignType.sign x * |x| ^ (1 / 3 : ℝ) = _
    rw [sign_pos hx, abs_of_pos hx]
    simp
  · change x ^ (1 / ((n : ℤ) : ℝ)) = _
    rw [Int.cast_natCast]

theorem raise_one (p : Exponent) : raise (1 : ℝ) p = .ok 1 := by
  have hroot : root (1 : ℝ) p.value.den = 1 := by rw [root_eq_rpow one_pos, Real.one_rpow]
  have hless : less (1 : ℝ) 0 = false := by
    rw [Bool.eq_false_iff, Ne, exact_less_iff]
    exact not_lt.mpr zero_le_one
  rw [raise, exact_beq_eq_false_iff.mpr one_ne_zero]
  simp [hless, hroot, powInt_eq]

/-- A rational power of a positive number is its real power. -/
theorem raise_eq_rpow {x s : ℝ} {p : Exponent} (hx : 0 < x) (h : raise x p = .ok s) :
    s = x ^ (p.value : ℝ) := by
  by_cases hp : p.isInteger = true
  · rw [raise_eq_zpow hp h, ← Real.rpow_intCast, Exponent.value_eq_num hp]
    simp
  · unfold raise at h
    rw [if_neg hp] at h
    split at h
    · cases h
    · split at h
      · cases h
      · cases h
        have hq : (1 / p.value.den * p.value.num : ℝ) = p.value := by
          rw [Rat.cast_def, one_div_mul_eq_div]
        rw [powInt_eq, root_eq_rpow hx, ← Real.rpow_mul_intCast hx.le, hq]

/-- A negative number has powers to integers only. -/
theorem isInteger_of_raise_neg {x s : ℝ} {p : Exponent} (hx : x < 0) (h : raise x p = .ok s) :
    p.isInteger = true := by
  by_contra hp
  simp [raise, hx.ne, hp, hx] at h

theorem raise_ne_zero {x s : ℝ} {p : Exponent} (hx : x ≠ 0) (h : raise x p = .ok s) : s ≠ 0 := by
  rcases hx.lt_or_gt with hneg | hpos
  · rw [raise_eq_zpow (isInteger_of_raise_neg hneg h) h]
    exact zpow_ne_zero _ hx
  · rw [raise_eq_rpow hpos h]
    exact (Real.rpow_pos_of_pos hpos _).ne'

theorem log_raise {x s : ℝ} {p : Exponent} (hx : x ≠ 0) (h : raise x p = .ok s) :
    Real.log s = p.value * Real.log x := by
  rcases hx.lt_or_gt with hneg | hpos
  · have hp := isInteger_of_raise_neg hneg h
    rw [raise_eq_zpow hp h, Real.log_zpow, Exponent.value_eq_num hp]
    simp
  · rw [raise_eq_rpow hpos h, Real.log_rpow hpos]

end Scalar

end Metrology
