import Metrology.Proofs.Binary64.Rounding

/-!
# Nearest doubles

No double is nearer to the exact number than the rounded one (`Rounds.abs_value_sub_le`).  So rounding
does not lead past a double: a number between two doubles is rounded to a number between them, and does
not overflow (`IsRounded.between`).

The doubles below a given one keep a distance of 2 ^ -53 of it (`abs_toRat_le_of_lt`).  That is what a sum
with a small number has to cross to be told apart from the large one.
-/

namespace Metrology.Binary64

open Float.Model UnpackedFloat

variable {x y z : Float} {q : ℚ} {f : UnpackedFloat}

theorem two_zpow_add_fiftyTwo (t : ℤ) : (2 : ℚ) ^ (t + 52) = 2 ^ 52 * 2 ^ t := by
  rw [zpow_add₀ two_ne_zero, mul_comm]
  norm_cast

theorem abs_value_finite (s : Sign) {m : Nat} (e : Int) (hm : 0 < m) :
    |value (.finite s m e hm)| = m * 2 ^ e := by
  simp [value, abs_mul, abs_zpow]

/-- A point of a grid within half a step is nearest of all its points. -/
theorem abs_mul_sub_le_of_half {k j : ℤ} {step : ℚ} (hpos : 0 < step)
    (h : |k * step - q| ≤ step / 2) : |k * step - q| ≤ |j * step - q| := by
  by_cases hkj : k = j
  · rw [hkj]
  · have hone : (1 : ℚ) ≤ |((k - j : ℤ) : ℚ)| := by
      exact_mod_cast Int.one_le_abs (sub_ne_zero.mpr hkj)
    have hstep : step ≤ |k * step - j * step| := by
      rw [← sub_mul, ← Int.cast_sub, abs_mul, abs_of_pos hpos]
      exact le_mul_of_one_le_left hpos.le hone
    have htriangle := abs_sub_le (k * step) q (j * step)
    rw [abs_sub_comm q] at htriangle
    linarith

/-- A rounded number is nearest of all doubles. -/
theorem Rounds.abs_value_sub_le (h : Rounds q f) (hx : Scalar.isFinite x = true) :
    |value f - q| ≤ |toRat x - q| := by
  obtain ⟨-, t, k, ht, hvalue, herror, hgrid⟩ := h
  have hpos : (0 : ℚ) < 2 ^ t := by positivity
  rw [hvalue] at herror ⊢
  by_cases hxgrid : t = -1074 ∨ 2 ^ (t + 52) ≤ |toRat x|
  · obtain ⟨j, hj⟩ := exists_toRat_eq_mul hx ht hxgrid
    rw [hj]
    exact abs_mul_sub_le_of_half hpos herror
  · -- the grid has a point between the double and the number, the first with 53 bits
    obtain ⟨hleast, hsmall⟩ := not_or.mp hxgrid
    have hq : (2 : ℚ) ^ (t + 52) ≤ |q| := hgrid.resolve_left hleast
    obtain ⟨j, hj⟩ : ∃ j : ℤ, |j * 2 ^ t - q| = |q| - 2 ^ (t + 52) := by
      have hpow := two_zpow_add_fiftyTwo t
      have hlow : (0 : ℚ) < 2 ^ (t + 52) := by positivity
      rcases le_total 0 q with hq0 | hq0
      · rw [abs_of_nonneg hq0] at hq ⊢
        refine ⟨2 ^ 52, ?_⟩
        rw [Int.cast_pow, Int.cast_ofNat, ← hpow, abs_of_nonpos (by linarith), neg_sub]
      · rw [abs_of_nonpos hq0] at hq ⊢
        refine ⟨-2 ^ 52, ?_⟩
        rw [Int.cast_neg, Int.cast_pow, Int.cast_ofNat, neg_mul, ← hpow,
          abs_of_nonneg (by linarith), neg_sub_left, neg_add']
    calc |k * 2 ^ t - q| ≤ |j * 2 ^ t - q| := abs_mul_sub_le_of_half hpos herror
      _ = |q| - 2 ^ (t + 52) := hj
      _ ≤ |q| - |toRat x| := by linarith
      _ ≤ |toRat x - q| := by
        rw [abs_sub_comm]
        exact abs_sub_abs_le_abs_sub q (toRat x)

theorem Rounds.value_le (h : Rounds q f) (hx : Scalar.isFinite x = true) (hq : q ≤ toRat x) :
    value f ≤ toRat x := by
  by_contra hlt
  have hnearest := h.abs_value_sub_le hx
  rw [abs_of_nonneg (by linarith), abs_of_nonneg (by linarith)] at hnearest
  linarith

theorem Rounds.le_value (h : Rounds q f) (hx : Scalar.isFinite x = true) (hq : toRat x ≤ q) :
    toRat x ≤ value f := by
  by_contra hlt
  have hnearest := h.abs_value_sub_le hx
  rw [abs_of_nonpos (by linarith), abs_of_nonpos (by linarith)] at hnearest
  linarith

/-- A number of the format that is no greater than a double does not overflow. -/
theorem exponent_le_of_abs_value_le {s : Sign} {m : Nat} {e : Int} {hm : 0 < m}
    (hf : IsCanonical (.finite s m e hm)) (hx : Scalar.isFinite x = true)
    (hle : |value (.finite s m e hm)| ≤ |toRat x|) : e ≤ 971 := by
  rw [abs_value_finite, toRat] at hle
  rcases unpacked_cases hx with ⟨t, h⟩ | ⟨t, n, k, hn, h⟩
  · rw [h, value_zero, abs_zero] at hle
    have hpos : (0 : ℚ) < m * 2 ^ e := by positivity
    exact absurd hle hpos.not_ge
  · obtain ⟨hlt, hk, -, hk'⟩ := exponent_le_of_unpacked h
    rw [h, abs_value_finite] at hle
    by_contra hgt
    exact absurd hle (mul_two_pow_lt_of_exponent_lt hlt hk hf.2.2 (by omega)).not_ge

theorem isFinite_of_isCanonical (hf : IsCanonical f) : f.isFinite = true := by
  rcases hf.cases with ⟨s, rfl⟩ | ⟨s, m, e, hm, rfl⟩ <;> rfl

/-- A number between two doubles is rounded to a number between them. -/
theorem IsRounded.between (h : IsRounded q z) (hx : Scalar.isFinite x = true)
    (hy : Scalar.isFinite y = true) (hxq : toRat x ≤ q) (hqy : q ≤ toRat y) :
    Scalar.isFinite z = true ∧ toRat x ≤ toRat z ∧ toRat z ≤ toRat y := by
  obtain ⟨f, hf, hz⟩ := h
  have hlow := hf.le_value hx hxq
  have hhigh := hf.value_le hy hqy
  have hback : repacked f = f := by
    refine repacked_of_isCanonical hf.isCanonical fun s m e hm hfe => ?_
    subst hfe
    rcases le_max_iff.mp (abs_le_max_abs_abs hlow hhigh) with hle | hle
    · exact exponent_le_of_abs_value_le hf.isCanonical hx hle
    · exact exponent_le_of_abs_value_le hf.isCanonical hy hle
  rw [hback] at hz
  have hvalue : toRat z = value f := by rw [toRat, hz]
  rw [isFinite_eq, hvalue, hz]
  exact ⟨isFinite_of_isCanonical hf.isCanonical, hlow, hhigh⟩

/-- A double is itself, rounded. -/
theorem isRounded_toRat (hx : Scalar.isFinite x = true) : IsRounded (toRat x) x :=
  ⟨unpacked x, rounds_value (isCanonical_unpacked hx), (repacked_unpacked hx).symm⟩

/-! ### The distance of doubles -/

/-- A double on a grid that is less than a point of it is less by a step at least. -/
theorem abs_toRat_le_sub_step (hx : Scalar.isFinite x = true) {t : ℤ} (ht : -1074 ≤ t)
    (hgrid : t = -1074 ∨ 2 ^ (t + 52) ≤ |toRat x|) {n : ℕ} (h : |toRat x| < n * 2 ^ t) :
    |toRat x| ≤ n * 2 ^ t - 2 ^ t := by
  have hpos : (0 : ℚ) < 2 ^ t := by positivity
  obtain ⟨j, hj⟩ := exists_toRat_eq_mul hx ht hgrid
  rw [hj, abs_mul, abs_of_pos hpos] at h ⊢
  have hlt : |j| < n := by exact_mod_cast lt_of_mul_lt_mul_right h hpos.le
  have hle : ((|j| : ℤ) : ℚ) ≤ n - 1 := by exact_mod_cast Int.le_sub_one_of_lt hlt
  calc |(j : ℚ)| * 2 ^ t ≤ (n - 1) * 2 ^ t := by
        rw [← Int.cast_abs]
        gcongr
    _ = n * 2 ^ t - 2 ^ t := by ring

/-- A double below a power of two is less by half a step of the grid that starts there. -/
theorem abs_toRat_le_of_lt_two_zpow (hx : Scalar.isFinite x = true) {t : ℤ} (ht : -1074 < t)
    (h : |toRat x| < 2 ^ (t + 52)) : |toRat x| ≤ 2 ^ (t + 52) - 2 ^ (t - 1) := by
  have hhalf : (2 : ℚ) ^ (t - 1 + 52) * 2 = 2 ^ (t + 52) := by
    rw [← zpow_add_one₀ two_ne_zero]
    congr 1
    ring
  have hfine := two_zpow_add_fiftyTwo (t - 1)
  by_cases hgrid : t - 1 = -1074 ∨ 2 ^ (t - 1 + 52) ≤ |toRat x|
  · have hlt : |toRat x| < (2 ^ 53 : ℕ) * 2 ^ (t - 1) := by
      push_cast
      linarith
    have hstep := abs_toRat_le_sub_step hx (by omega) hgrid hlt
    push_cast at hstep
    linarith
  · have hpos : (0 : ℚ) < 2 ^ (t - 1) := by positivity
    have hsmall := (not_or.mp hgrid).2
    linarith

/-- Of two doubles of different magnitude the smaller one is less by 2 ^ -53 of the other at least. -/
theorem abs_toRat_le_of_lt (hx : Scalar.isFinite x = true) (hy : Scalar.isFinite y = true)
    (h : |toRat x| < |toRat y|) : |toRat x| ≤ |toRat y| - 2 ^ (-53 : ℤ) * |toRat y| := by
  obtain ⟨t, n, k, hn, hunpacked⟩ : ∃ t n k hn, unpacked y = .finite t n k hn := by
    refine (unpacked_cases hy).resolve_left ?_
    rintro ⟨t, ht⟩
    have hzero : toRat y = 0 := by rw [toRat, ht, value_zero]
    rw [hzero, abs_zero] at h
    exact absurd h (abs_nonneg _).not_gt
  obtain ⟨hlt, hk, hlow, -⟩ := exponent_le_of_unpacked hunpacked
  have hyk : |toRat y| = n * 2 ^ k := by rw [toRat, hunpacked, abs_value_finite]
  have hpos : (0 : ℚ) < 2 ^ k := by positivity
  have h53 : (2 : ℚ) ^ (-53 : ℤ) = 1 / 2 ^ 53 := by norm_num
  rw [hyk] at h ⊢
  rw [h53]
  by_cases hgrid : k = -1074 ∨ 2 ^ (k + 52) ≤ |toRat x|
  · have hstep := abs_toRat_le_sub_step hx hk hgrid h
    have hn53 : (n : ℚ) ≤ 2 ^ 53 := by exact_mod_cast hlt.le
    have hle : 1 / 2 ^ 53 * (n * 2 ^ k) ≤ (2 : ℚ) ^ k := by
      rw [← mul_assoc]
      exact mul_le_of_le_one_left hpos.le (by linarith)
    linarith
  · -- The smaller double is below all that have the exponent of the other.
    obtain ⟨hleast, hsmall⟩ := not_or.mp hgrid
    have hstep := abs_toRat_le_of_lt_two_zpow hx (by omega) (not_le.mp hsmall)
    have hfine : (2 : ℚ) ^ (k - 1) * 2 = 2 ^ k := by
      rw [← zpow_add_one₀ two_ne_zero, sub_add_cancel]
    have hbinade := two_zpow_add_fiftyTwo k
    have hn52 : (2 : ℚ) ^ 52 ≤ n := by exact_mod_cast hlow.resolve_right hleast
    have hle : (2 : ℚ) ^ 52 * 2 ^ k ≤ n * 2 ^ k := by gcongr
    linarith

end Metrology.Binary64
