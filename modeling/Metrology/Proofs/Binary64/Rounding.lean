import Metrology.Proofs.Binary64.Value

/-!
# Rounding

A sum, a difference, a product or a quotient of finite doubles is the exact result, rounded to the
format.  A result on the way is a mantissa with two bits on what lies below it; these say whether the
exact number is the mantissa, or lies below, at or above the middle to the next one (`Describes`).
Shifting keeps the description (`describes_shiftRight`), and the rounded mantissa is within one half
of what is described (`abs_roundToNearestEven_sub_le`).  So the rounded number is nearest on a grid of
powers of two, which is the least one of the format or fine enough to have 53 bits for the exact
number (`Rounds`).

* `IsRounded.abs_toRat_sub_le`: a finite result is off by 2 ^ -53 of the exact one at most, and by half
  the least double.
* `IsRounded.toRat_eq`: a result that is a double exactly is not changed.
* `isRounded_add` and its like: the four operations are rounded.
-/

namespace Metrology.Binary64

open Float.Model UnpackedFloat

/-! ### Extended mantissas -/

/-- A number is a mantissa, and what is known of the rest. -/
def Describes (m : Nat) : Accuracy → ℚ → Prop
  | .exact, y => y = m
  | .inexact .lt, y => m < y ∧ y < m + 1 / 2
  | .inexact .eq, y => y = m + 1 / 2
  | .inexact .gt, y => m + 1 / 2 < y ∧ y < m + 1

theorem le_of_describes {m : Nat} {a : Accuracy} {y : ℚ} (h : Describes m a y) : (m : ℚ) ≤ y := by
  rcases a with _ | (_ | _ | _) <;> simp only [Describes] at h <;> linarith [h]

theorem describes_shiftRightOne {em : ExtendedMantissa} {y : ℚ}
    (h : Describes em.mantissa em.accuracy y) :
    Describes em.shiftRightOne.mantissa em.shiftRightOne.accuracy (y / 2) := by
  obtain ⟨m, round, sticky⟩ := em
  obtain ⟨half, rfl | rfl⟩ := Nat.even_or_odd' m
  -- The bit that leaves the mantissa is the next round bit; the two bits below it merge into one.
  · have hhalf : 2 * half / 2 = half := by omega
    cases round <;> cases sticky <;>
      simp [ExtendedMantissa.shiftRightOne, ExtendedMantissa.accuracy, Describes, hhalf] at h ⊢
    all_goals first | linarith | constructor <;> linarith
  · have hhalf : (2 * half + 1) / 2 = half := by omega
    cases round <;> cases sticky <;>
      simp [ExtendedMantissa.shiftRightOne, ExtendedMantissa.accuracy, Describes, hhalf] at h ⊢
    all_goals first | linarith | constructor <;> linarith

theorem describes_shiftRight {em : ExtendedMantissa} {y : ℚ} (n : Nat)
    (h : Describes em.mantissa em.accuracy y) :
    Describes (em >>> n).mantissa (em >>> n).accuracy (y / 2 ^ n) := by
  induction n with
  | zero => simpa [HShiftRight.hShiftRight, Nat.repeat] using h
  | succ n ih =>
    have hstep : em >>> (n + 1) = (em >>> n).shiftRightOne := rfl
    rw [hstep, pow_succ, ← div_div]
    exact describes_shiftRightOne ih

theorem accuracy_ofMantissaAndAccuracy (m : Nat) (a : Accuracy) :
    (ExtendedMantissa.ofMantissaAndAccuracy m a).accuracy = a := by
  rcases a with _ | (_ | _ | _) <;> rfl

/-- The rounded mantissa is nearest to what is described. -/
theorem abs_roundToNearestEven_sub_le {m : Nat} {a : Accuracy} {y : ℚ} (h : Describes m a y) :
    |(a.roundToNearestEven m : ℚ) - y| ≤ 1 / 2 := by
  rw [abs_le]
  rcases a with _ | (_ | _ | _) <;> simp only [Describes, Accuracy.roundToNearestEven] at h ⊢
  · constructor <;> linarith
  · constructor <;> linarith
  · rcases Nat.mod_two_eq_zero_or_one m with hbit | hbit <;> rw [hbit] <;> push_cast <;>
      constructor <;> linarith
  · push_cast
    constructor <;> linarith

theorem roundedMantissa_le (em : ExtendedMantissa) :
    em.roundedMantissa ≤ em.mantissa + 1 := by
  unfold ExtendedMantissa.roundedMantissa
  rcases em.accuracy with _ | (_ | _ | _) <;> simp only [Accuracy.roundToNearestEven] <;> omega

/-! ### Rounding to the format -/

/-- A mantissa is shifted to the exponent of the format and rounded there. -/
theorem shiftToTargetExponent_spec {m : Nat} {e : Int} {a : Accuracy} {y : ℚ}
    (h : Describes m a y) (hsize : 52 ≤ m.log2 ∨ e ≤ -1074) :
    let shifted := shiftToTargetExponent Format.binary64 m e a
    let r := shifted.1.roundedMantissa
    let t := shifted.2
    r ≤ 2 ^ 53 ∧ -1074 ≤ t ∧ |r * 2 ^ t - y * 2 ^ e| ≤ (2 ^ t / 2 : ℚ) ∧
      (t = -1074 ∨ 2 ^ 52 ≤ r ∧ (2 ^ (t + 52) : ℚ) ≤ y * 2 ^ e) := by
  intro shifted r t
  set n := (Format.binary64.targetExponent (totalExponent m e) - e).toNat with hn
  set em := ExtendedMantissa.ofMantissaAndAccuracy m a >>> n with hem
  have ht : t = max (m.log2 + e - 52) (-1074) ∧ t = e + n := by
    have htarget := targetExponent_eq (totalExponent m e)
    rw [totalExponent] at htarget
    have htn : t = e + n := rfl
    rw [htn, hn, totalExponent, htarget]
    omega
  have hr : r = em.roundedMantissa := rfl
  have hmant : em.mantissa = m / 2 ^ n := by
    rw [hem, mantissa_shiftRight, mantissa_ofMantissaAndAccuracy]
  have hdescribes : Describes em.mantissa em.accuracy (y / 2 ^ n) := by
    refine describes_shiftRight n ?_
    rw [mantissa_ofMantissaAndAccuracy, accuracy_ofMantissaAndAccuracy]
    exact h
  have hy : y * 2 ^ e = y / 2 ^ n * 2 ^ t := by
    rw [ht.2, zpow_add₀ two_ne_zero, zpow_natCast]
    field_simp
  have hlt : em.mantissa < 2 ^ 53 := by
    rw [hmant, Nat.div_lt_iff_lt_mul (Nat.two_pow_pos n), ← Nat.pow_add]
    exact Nat.lt_of_lt_of_le Nat.lt_log2_self (Nat.pow_le_pow_right (by omega) (by omega))
  refine ⟨?_, by omega, ?_, ?_⟩
  · have := roundedMantissa_le em
    omega
  · have hround := abs_roundToNearestEven_sub_le hdescribes
    have hpos : (0 : ℚ) < 2 ^ t := by positivity
    calc |(r : ℚ) * 2 ^ t - y * 2 ^ e| = |(r : ℚ) - y / 2 ^ n| * 2 ^ t := by
          rw [hy, ← sub_mul, abs_mul, abs_of_pos hpos]
      _ ≤ 1 / 2 * 2 ^ t := by gcongr; exact hround
      _ = 2 ^ t / 2 := by ring
  · by_cases hleast : t = -1074
    · exact .inl hleast
    right
    have hlog : m.log2 = 52 + n := by omega
    have hm : m ≠ 0 := by
      rintro rfl
      rw [Nat.log2_zero] at hlog
      omega
    have hself : 2 ^ (52 + n) ≤ m := hlog ▸ Nat.log2_self_le hm
    constructor
    · have hle := mantissa_le_roundedMantissa em
      have hdiv : 2 ^ 52 ≤ m / 2 ^ n := by
        rw [Nat.le_div_iff_mul_le (Nat.two_pow_pos n), ← Nat.pow_add]
        exact hself
      omega
    · have hself' : (2 : ℚ) ^ (52 + n) ≤ m := by exact_mod_cast hself
      have hmy := le_of_describes h
      calc (2 : ℚ) ^ (t + 52) = 2 ^ (52 + n) * 2 ^ e := by
            rw [← zpow_natCast, ← zpow_add₀ two_ne_zero, ht.2]
            congr 1
            push_cast
            ring
        _ ≤ y * 2 ^ e := by gcongr; exact hself'.trans hmy

/-- A mantissa that was rounded up to 54 bits loses the last of them, which is zero. -/
theorem shiftToTargetExponent_carry {r : Nat} {t : Int} (hr : r ≤ 2 ^ 53) (ht : -1074 ≤ t)
    (hlow : t = -1074 ∨ 2 ^ 52 ≤ r) :
    let shifted := shiftToTargetExponent Format.binary64 r t .exact
    (shifted.1.mantissa : ℚ) * 2 ^ shifted.2 = r * 2 ^ t ∧ shifted.1.mantissa < 2 ^ 53 ∧
      -1074 ≤ shifted.2 ∧ (2 ^ 52 ≤ shifted.1.mantissa ∨ shifted.2 = -1074) := by
  intro shifted
  set n := (Format.binary64.targetExponent (totalExponent r t) - t).toNat with hn
  have hshifted : shifted.1.mantissa = r / 2 ^ n ∧ shifted.2 = t + n := by
    refine ⟨?_, rfl⟩
    change (ExtendedMantissa.ofMantissaAndAccuracy r .exact >>> n).mantissa = _
    rw [mantissa_shiftRight, mantissa_ofMantissaAndAccuracy]
  rw [hshifted.1, hshifted.2]
  have htarget := targetExponent_eq (totalExponent r t)
  rw [totalExponent] at htarget
  rcases Nat.lt_or_eq_of_le hr with hlt | rfl
  · have hn0 : n = 0 := by
      have hlog : r.log2 ≤ 52 := by
        by_cases h0 : r = 0
        · simp [h0]
        · have := (Nat.log2_lt h0).mpr hlt
          omega
      rw [hn, totalExponent, htarget]
      omega
    simp only [hn0, Nat.cast_zero, pow_zero, Nat.div_one, add_zero]
    exact ⟨trivial, hlt, ht, hlow.symm⟩
  · have hn1 : n = 1 := by
      rw [hn, totalExponent, htarget, Nat.log2_two_pow]
      omega
    rw [hn1]
    refine ⟨?_, by norm_num, by omega, .inl (by norm_num)⟩
    rw [Nat.cast_one, zpow_add_one₀ two_ne_zero]
    norm_num
    ring

/-- A number of the format is nearest to a given one on a grid that has 53 bits for it, or on the
least grid. -/
structure Rounds (x : ℚ) (f : UnpackedFloat) : Prop where
  isCanonical : IsCanonical f
  exists_grid : ∃ t k : ℤ, -1074 ≤ t ∧ value f = k * 2 ^ t ∧ |value f - x| ≤ 2 ^ t / 2 ∧
    (t = -1074 ∨ 2 ^ (t + 52) ≤ |x|)

theorem rounds_roundWithAccuracy (s : Sign) {m : Nat} {e : Int} {a : Accuracy} {y : ℚ}
    (h : Describes m a y) (hsize : 52 ≤ m.log2 ∨ e ≤ -1074) :
    Rounds (signum s * (y * 2 ^ e)) (roundWithAccuracy Format.binary64 s m e a) := by
  obtain ⟨hr, ht, herror, hgrid⟩ := shiftToTargetExponent_spec h hsize
  unfold roundWithAccuracy
  simp only at ht hr herror hgrid ⊢
  set r := (shiftToTargetExponent Format.binary64 m e a).1.roundedMantissa
  set t := (shiftToTargetExponent Format.binary64 m e a).2
  obtain ⟨hvalue, hlt, hexp, hlow⟩ :=
    shiftToTargetExponent_carry hr ht (hgrid.imp_right And.left)
  set m' := (shiftToTargetExponent Format.binary64 r t .exact).1.mantissa
  set e' := (shiftToTargetExponent Format.binary64 r t .exact).2
  have hy0 : 0 ≤ y * 2 ^ e := by
    have hmy := le_of_describes h
    have hm0 : (0 : ℚ) ≤ m := Nat.cast_nonneg m
    have hy : 0 ≤ y := hm0.trans hmy
    positivity
  have hround : ∀ f, IsCanonical f → value f = signum s * (r * 2 ^ t) →
      Rounds (signum s * (y * 2 ^ e)) f := by
    intro f hf hv
    refine ⟨hf, t, s.apply r, ht, ?_, ?_, ?_⟩
    · rw [hv]
      cases s <;> simp [signum, Sign.apply]
    · rw [hv, ← mul_sub, abs_mul, abs_signum, one_mul]
      exact herror
    · rw [abs_mul, abs_signum, one_mul, abs_of_nonneg hy0]
      exact hgrid.imp_right And.right
  split
  · rename_i h0
    refine hround _ trivial ?_
    rw [← hvalue, h0]
    simp [value]
  · exact hround _ ⟨hlt, hexp, hlow⟩ (by rw [← hvalue]; rfl)

/-- A number of the format is rounded to itself. -/
theorem rounds_value {f : UnpackedFloat} (hf : IsCanonical f) : Rounds (value f) f := by
  refine ⟨hf, ?_⟩
  rcases hf.cases with ⟨s, rfl⟩ | ⟨s, m, e, hm, rfl⟩
  · refine ⟨-1074, 0, le_rfl, by simp [value], ?_, .inl rfl⟩
    rw [sub_self, abs_zero]
    positivity
  · obtain ⟨-, he, hlow⟩ := hf
    refine ⟨e, s.apply m, he, ?_, ?_, ?_⟩
    · cases s <;> simp [value, signum, Sign.apply]
    · rw [sub_self, abs_zero]
      positivity
    · refine hlow.symm.imp_right fun h52 => ?_
      have hm52 : (2 : ℚ) ^ 52 ≤ m := by exact_mod_cast h52
      calc (2 : ℚ) ^ (e + 52) = 2 ^ 52 * 2 ^ e := by
            rw [zpow_add₀ two_ne_zero, mul_comm]
            norm_cast
        _ ≤ m * 2 ^ e := by gcongr
        _ = |value (.finite s m e hm)| := by
            simp [value, abs_mul, abs_zpow]

theorem rounds_zero (s : Sign) : Rounds 0 (.zero s) :=
  rounds_value (f := .zero s) trivial

theorem log2_shiftLeft {m : Nat} (hm : 0 < m) (n : Nat) : (m <<< n).log2 = m.log2 + n := by
  have hpos : m * 2 ^ n ≠ 0 := Nat.ne_of_gt (Nat.mul_pos hm (Nat.two_pow_pos n))
  rw [Nat.shiftLeft_eq, Nat.log2_eq_iff hpos, Nat.pow_add, Nat.add_right_comm, Nat.pow_add]
  exact ⟨Nat.mul_le_mul_right _ (Nat.log2_self_le (Nat.ne_of_gt hm)),
    Nat.mul_lt_mul_of_pos_right Nat.lt_log2_self (Nat.two_pow_pos n)⟩

/-- A number is brought to the exponent of the format from above or below. -/
theorem rounds_round (s : Sign) {m : Nat} (hm : 0 < m) (e : Int) :
    Rounds (signum s * (m * 2 ^ e)) (UnpackedFloat.round Format.binary64 s m e) := by
  have htarget := targetExponent_eq (totalExponent m e)
  set t := Format.binary64.targetExponent (totalExponent m e) with ht
  rw [totalExponent] at htarget
  set n := (e - t).toNat with hn
  have hround : UnpackedFloat.round Format.binary64 s m e =
      roundWithAccuracy Format.binary64 s (m <<< n) (e - n) .exact := rfl
  have hlog : (m <<< n).log2 = m.log2 + n := log2_shiftLeft hm n
  have hvalue : (m : ℚ) * 2 ^ e = ((m <<< n : Nat) : ℚ) * 2 ^ (e - n) := by
    rw [Nat.shiftLeft_eq, zpow_sub₀ two_ne_zero, zpow_natCast]
    push_cast
    field_simp
  rw [hround, hvalue]
  exact rounds_roundWithAccuracy s rfl (by omega)

theorem rounds_normalize (m e : Int) (s : Sign) :
    Rounds (m * 2 ^ e) (UnpackedFloat.normalize Format.binary64 m e s) := by
  unfold UnpackedFloat.normalize
  rcases lt_trichotomy m 0 with hlt | rfl | hgt
  · have hcast : (m : ℚ) = signum .negative * ((-m).toNat : ℚ) := by
      have : ((-m).toNat : ℤ) = -m := Int.toNat_of_nonneg (by omega)
      have hrat : ((-m).toNat : ℚ) = -m := by exact_mod_cast this
      rw [hrat, signum]
      ring
    rw [compare_lt_iff_lt.mpr hlt, hcast, mul_assoc]
    exact rounds_round _ (by omega) e
  · simpa using rounds_zero s
  · have hcast : (m : ℚ) = signum .positive * (m.toNat : ℚ) := by
      have : (m.toNat : ℤ) = m := Int.toNat_of_nonneg (by omega)
      have hrat : (m.toNat : ℚ) = m := by exact_mod_cast this
      rw [hrat, signum]
      ring
    rw [compare_gt_iff_gt.mpr hgt, hcast, mul_assoc]
    exact rounds_round _ (by omega) e

/-! ### The operations -/

theorem signum_mul (s t : Sign) : signum (s * t) = signum s * signum t := by
  rcases s <;> rcases t
  · exact (neg_mul_neg 1 1 |>.trans (one_mul 1)).symm
  · exact (mul_one (-1)).symm
  · exact (one_mul (-1)).symm
  · exact (one_mul 1).symm

theorem signum_div (s t : Sign) : signum (s / t) = signum s * signum t :=
  signum_mul s t

theorem signum_neg (s : Sign) : signum (-s) = -signum s := by
  cases s
  · exact (neg_neg 1).symm
  · rfl

theorem rounds_mul {f g : UnpackedFloat} (hf : IsCanonical f) (hg : IsCanonical g) :
    Rounds (value f * value g) (UnpackedFloat.mul Format.binary64 f g) := by
  rcases hf.cases with ⟨s, rfl⟩ | ⟨s, m, e, hm, rfl⟩ <;>
    rcases hg.cases with ⟨t, rfl⟩ | ⟨t, n, k, hn, rfl⟩
  · rw [value_zero, zero_mul]
    exact rounds_zero (s * t)
  · rw [value_zero, zero_mul]
    exact rounds_zero (s * t)
  · rw [value_zero, mul_zero]
    exact rounds_zero (s * t)
  · have hvalue : value (.finite s m e hm) * value (.finite t n k hn) =
        signum (s * t) * (((m * n : Nat) : ℚ) * 2 ^ (e + k)) := by
      rw [value, value, signum_mul, zpow_add₀ two_ne_zero]
      push_cast
      ring
    rw [hvalue]
    refine rounds_roundWithAccuracy _ rfl ?_
    -- One mantissa has 53 bits, or both exponents are the least ones.
    rw [Nat.le_log2 (Nat.ne_of_gt (Nat.mul_pos hm hn))]
    rcases hf.2.2 with hm52 | rfl
    · exact .inl (hm52.trans (Nat.le_mul_of_pos_right m hn))
    rcases hg.2.2 with hn52 | rfl
    · exact .inl (hn52.trans (Nat.le_mul_of_pos_left n hm))
    · exact .inr (by omega)

theorem describes_div (a : Nat) {b : Nat} (hb : 0 < b) :
    Describes (a / b) (accuracyOfFraction (a % b) b) ((a : ℚ) / b) := by
  have hb0 : (0 : ℚ) < b := by exact_mod_cast hb
  have hsplit : (a : ℚ) / b = (a / b : Nat) + ((a % b : Nat) : ℚ) / b := by
    have hdiv : (a : ℚ) = b * (a / b : Nat) + (a % b : Nat) := by
      exact_mod_cast (Nat.div_add_mod a b).symm
    field_simp
    linarith
  have hlt : ((a % b : Nat) : ℚ) / b < 1 := by
    rw [div_lt_one hb0]
    exact_mod_cast Nat.mod_lt a hb
  unfold accuracyOfFraction
  rw [hsplit]
  split
  · rename_i h0
    simp [Describes, h0]
  · rename_i h0
    have hpos : 0 < ((a % b : Nat) : ℚ) / b := by
      have : (0 : ℚ) < (a % b : Nat) := by exact_mod_cast Nat.pos_of_ne_zero h0
      positivity
    have hhalf : ((a % b : Nat) : ℚ) / b = (2 * (a % b) : Nat) / (b : ℚ) / 2 := by
      push_cast
      ring
    rcases lt_trichotomy (2 * (a % b)) b with hc | hc | hc
    · have hcast : ((2 * (a % b) : Nat) : ℚ) / b < 1 := by
        rw [div_lt_one hb0]
        exact_mod_cast hc
      rw [compare_lt_iff_lt.mpr hc]
      constructor <;> linarith
    · rw [compare_eq_iff_eq.mpr hc, Describes, hhalf, hc, div_self (ne_of_gt hb0)]
    · have hcast : 1 < ((2 * (a % b) : Nat) : ℚ) / b := by
        rw [one_lt_div hb0]
        exact_mod_cast hc
      rw [compare_gt_iff_gt.mpr hc]
      constructor <;> linarith

/-- The quotient of two mantissas has 53 bits, or the least exponent. -/
theorem divCore_spec {m n : Nat} (hm : 0 < m) (hn : 0 < n) (e k : Int) :
    let core := divCore Format.binary64 m e n k
    (∃ y, Describes core.1 core.2.2 y ∧ y * 2 ^ core.2.1 = m * 2 ^ e / (n * 2 ^ k)) ∧
      (52 ≤ core.1.log2 ∨ core.2.1 ≤ -1074) := by
  intro core
  have htarget := targetExponent_eq (totalExponent m e - totalExponent n k)
  rw [totalExponent, totalExponent] at htarget
  set t := min (e - k) (Format.binary64.targetExponent (totalExponent m e - totalExponent n k))
    with ht
  rw [totalExponent, totalExponent, htarget] at ht
  set shift := (e - k - t).toNat with hshift
  have hcore : core = (m <<< shift / n, t, accuracyOfFraction (m <<< shift % n) n) := rfl
  have hn0 : (n : ℚ) ≠ 0 := by exact_mod_cast Nat.ne_of_gt hn
  rw [hcore]
  refine ⟨⟨_, describes_div _ hn, ?_⟩, ?_⟩
  · have hexp : e = k + t + shift := by omega
    rw [Nat.shiftLeft_eq, hexp, zpow_add₀ two_ne_zero, zpow_add₀ two_ne_zero, zpow_natCast]
    push_cast
    field_simp
  · by_cases hleast : t ≤ -1074
    · exact .inr hleast
    left
    have hbits : n.log2 + 53 ≤ m.log2 + shift := by omega
    have hlarge : 2 ^ 52 * n ≤ m <<< shift := by
      have hlow : 2 ^ (m.log2 + shift) ≤ m <<< shift := by
        rw [Nat.shiftLeft_eq, Nat.pow_add]
        exact Nat.mul_le_mul_right _ (Nat.log2_self_le (Nat.ne_of_gt hm))
      calc 2 ^ 52 * n ≤ 2 ^ 52 * 2 ^ (n.log2 + 1) := Nat.mul_le_mul_left _ Nat.lt_log2_self.le
        _ = 2 ^ (n.log2 + 53) := by rw [← Nat.pow_add]; congr 1; omega
        _ ≤ 2 ^ (m.log2 + shift) := Nat.pow_le_pow_right (by omega) hbits
        _ ≤ m <<< shift := hlow
    have hquotient : 2 ^ 52 ≤ m <<< shift / n := (Nat.le_div_iff_mul_le hn).mpr hlarge
    exact (Nat.le_log2 (by omega)).mpr hquotient

theorem rounds_div {f g : UnpackedFloat} (hf : IsCanonical f) (hg : IsCanonical g)
    (h0 : isRegular g = true) :
    Rounds (value f / value g) (UnpackedFloat.div Format.binary64 f g) := by
  rcases hg.cases with ⟨t, rfl⟩ | ⟨t, n, k, hn, rfl⟩
  · cases h0
  rcases hf.cases with ⟨s, rfl⟩ | ⟨s, m, e, hm, rfl⟩
  · rw [value_zero, zero_div]
    exact rounds_zero (s / t)
  · obtain ⟨⟨y, hy, hvalue⟩, hsize⟩ := divCore_spec hm hn e k
    have hquotient : value (.finite s m e hm) / value (.finite t n k hn) =
        signum (s / t) * (y * 2 ^ (divCore Format.binary64 m e n k).2.1) := by
      rw [hvalue, value, value, signum_div]
      cases t <;> simp only [signum] <;> ring
    rw [hquotient]
    exact rounds_roundWithAccuracy _ hy hsize

/-- Mantissas brought to one exponent. -/
theorem decreaseExponent_value (s : Sign) (m : Nat) {e least : Int} (h : least ≤ e) :
    ((s.apply (decreaseExponent m e least).1 : ℤ) : ℚ) * 2 ^ least = signum s * (m * 2 ^ e) := by
  have hexp : e = least + (e - least).toNat := by omega
  have hshift : ((decreaseExponent m e least).1 : ℚ) * 2 ^ least = m * 2 ^ e := by
    have hfst : (decreaseExponent m e least).1 = m <<< (e - least).toNat := rfl
    have hpow : (2 : ℚ) ^ e = 2 ^ least * 2 ^ (e - least).toNat := by
      rw [← zpow_natCast, ← zpow_add₀ two_ne_zero, ← hexp]
    rw [hfst, Nat.shiftLeft_eq, hpow]
    push_cast
    ring
  rw [← hshift]
  cases s <;> simp [Sign.apply, signum]

theorem rounds_add {f g : UnpackedFloat} (hf : IsCanonical f) (hg : IsCanonical g) :
    Rounds (value f + value g) (UnpackedFloat.add Format.binary64 f g) := by
  rcases hf.cases with ⟨s, rfl⟩ | ⟨s, m, e, hm, rfl⟩ <;>
    rcases hg.cases with ⟨t, rfl⟩ | ⟨t, n, k, hn, rfl⟩
  · rw [value_zero, value_zero, add_zero]
    unfold UnpackedFloat.add
    simp only
    split <;> exact rounds_zero _
  · rw [value_zero, zero_add]
    exact rounds_value hg
  · rw [value_zero, add_zero]
    exact rounds_value hf
  · rw [value, value, ← decreaseExponent_value s m (min_le_left e k),
      ← decreaseExponent_value t n (min_le_right e k), ← add_mul, ← Int.cast_add]
    exact rounds_normalize _ _ _

theorem rounds_sub {f g : UnpackedFloat} (hf : IsCanonical f) (hg : IsCanonical g) :
    Rounds (value f - value g) (UnpackedFloat.sub Format.binary64 f g) := by
  rcases hf.cases with ⟨s, rfl⟩ | ⟨s, m, e, hm, rfl⟩ <;>
    rcases hg.cases with ⟨t, rfl⟩ | ⟨t, n, k, hn, rfl⟩
  · rw [value_zero, value_zero, sub_zero]
    unfold UnpackedFloat.sub
    simp only
    split <;> exact rounds_zero _
  · have hneg : value (.zero s) - value (.finite t n k hn) = value (.finite (-t) n k hn) := by
      rw [value_zero, value, value, signum_neg, zero_sub, neg_mul]
    rw [hneg]
    exact rounds_value (f := .finite (-t) n k hn) hg
  · rw [value_zero, sub_zero]
    exact rounds_value hf
  · rw [value, value, ← decreaseExponent_value s m (min_le_left e k),
      ← decreaseExponent_value t n (min_le_right e k), ← sub_mul, ← Int.cast_sub]
    exact rounds_normalize _ _ _

/-! ### Rounded doubles -/

/-- A double is an exact number, rounded; it may have overflowed. -/
def IsRounded (q : ℚ) (z : Float) : Prop :=
  ∃ f, Rounds q f ∧ unpacked z = repacked f

variable {x y z : Float} {q : ℚ}

theorem isRounded_add (hx : Scalar.isFinite x = true) (hy : Scalar.isFinite y = true) :
    IsRounded (toRat x + toRat y) (x + y) :=
  ⟨_, rounds_add (isCanonical_unpacked hx) (isCanonical_unpacked hy), unpacked_add x y⟩

theorem isRounded_sub (hx : Scalar.isFinite x = true) (hy : Scalar.isFinite y = true) :
    IsRounded (toRat x - toRat y) (x - y) :=
  ⟨_, rounds_sub (isCanonical_unpacked hx) (isCanonical_unpacked hy), unpacked_sub x y⟩

theorem isRounded_mul (hx : Scalar.isFinite x = true) (hy : Scalar.isFinite y = true) :
    IsRounded (toRat x * toRat y) (x * y) :=
  ⟨_, rounds_mul (isCanonical_unpacked hx) (isCanonical_unpacked hy), unpacked_mul x y⟩

theorem isRounded_div (hx : Scalar.isFinite x = true) (hy : Scalar.isFactor y = true) :
    IsRounded (toRat x / toRat y) (x / y) := by
  have hfinite : Scalar.isFinite y = true := (Bool.and_eq_true_iff.mp hy).2
  rw [isFactor_eq] at hy
  exact ⟨_, rounds_div (isCanonical_unpacked hx) (isCanonical_unpacked hfinite) hy,
    unpacked_div x y⟩

theorem repacked_of_isCanonical {f : UnpackedFloat} (hf : IsCanonical f)
    (hle : ∀ s m e hm, f = .finite s m e hm → e ≤ 971) : repacked f = f := by
  rcases hf.cases with ⟨s, rfl⟩ | ⟨s, m, e, hm, rfl⟩
  · exact repacked_zero s
  · obtain ⟨hlt, he, hlow⟩ := hf
    by_cases h52 : 2 ^ 52 ≤ m
    · exact repacked_normal s hm h52 hlt he (hle s m e hm rfl)
    · obtain rfl := hlow.resolve_left h52
      exact repacked_subnormal s hm (Nat.lt_of_not_le h52)

theorem repacked_unpacked (hx : Scalar.isFinite x = true) : repacked (unpacked x) = unpacked x :=
  repacked_of_isCanonical (isCanonical_unpacked hx) fun _ _ _ _ h =>
    (exponent_le_of_unpacked h).2.2.2

/-- What does not overflow is the rounded number. -/
theorem IsRounded.rounds (h : IsRounded q z) (hz : Scalar.isFinite z = true) :
    Rounds q (unpacked z) := by
  obtain ⟨f, hf, hz'⟩ := h
  rw [isFinite_eq, hz'] at hz
  rw [hz', repacked_of_isCanonical hf.isCanonical]
  · exact hf
  · rintro s m e hm rfl
    by_contra hgt
    rw [repacked_overflow s hm (by omega)] at hz
    cases hz

/-- A finite result is off by half a unit in the last place at most. -/
theorem IsRounded.abs_toRat_sub_le (h : IsRounded q z) (hz : Scalar.isFinite z = true) :
    |toRat z - q| ≤ 2 ^ (-53 : ℤ) * |q| + 2 ^ (-1075 : ℤ) := by
  obtain ⟨-, t, k, -, -, herror, hgrid⟩ := h.rounds hz
  have hhalf (n : ℤ) : (2 : ℚ) ^ n / 2 = 2 ^ (n - 1) := by
    rw [zpow_sub_one₀ two_ne_zero, div_eq_mul_inv]
  refine herror.trans ?_
  rw [hhalf]
  rcases hgrid with rfl | hgrid
  · exact le_add_of_nonneg_left (mul_nonneg (zpow_nonneg zero_le_two _) (abs_nonneg q))
  · refine le_add_of_le_of_nonneg ?_ (zpow_nonneg zero_le_two _)
    calc (2 : ℚ) ^ (t - 1) = 2 ^ (-53 : ℤ) * 2 ^ (t + 52) := by
          rw [← zpow_add₀ two_ne_zero]
          congr 1
          ring
      _ ≤ 2 ^ (-53 : ℤ) * |q| := by gcongr

/-- Rounding keeps the sign, though a number may vanish. -/
theorem IsRounded.toRat_nonneg (h : IsRounded q z) (hz : Scalar.isFinite z = true) (hq : 0 ≤ q) :
    0 ≤ toRat z := by
  obtain ⟨-, t, k, -, hvalue, herror, -⟩ := h.rounds hz
  have hpos : (0 : ℚ) < 2 ^ t := by positivity
  have hk : (0 : ℤ) ≤ k := by
    by_contra hneg
    have hk1 : (k : ℚ) ≤ -1 := by exact_mod_cast (by omega : k ≤ -1)
    have hle : (k : ℚ) * 2 ^ t ≤ -1 * 2 ^ t := by gcongr
    have hlow := (abs_le.mp herror).1
    rw [hvalue] at hlow
    linarith
  rw [toRat, hvalue]
  have hk0 : (0 : ℚ) ≤ k := by exact_mod_cast hk
  positivity

theorem IsRounded.toRat_pos (h : IsRounded q z) (hz : Scalar.isFactor z = true) (hq : 0 ≤ q) :
    0 < toRat z := by
  have hfinite : Scalar.isFinite z = true := (Bool.and_eq_true_iff.mp hz).2
  exact lt_of_le_of_ne (h.toRat_nonneg hfinite hq) (toRat_ne_zero hz).symm

/-- A double lies on every grid that has no more than 53 bits for it. -/
theorem exists_toRat_eq_mul (hx : Scalar.isFinite x = true) {t : ℤ} (ht : -1074 ≤ t)
    (hgrid : t = -1074 ∨ 2 ^ (t + 52) ≤ |toRat x|) : ∃ j : ℤ, toRat x = j * 2 ^ t := by
  rcases unpacked_cases hx with ⟨s, h⟩ | ⟨s, m, e, hm, h⟩
  · exact ⟨0, by rw [toRat, h, value_zero, Int.cast_zero, zero_mul]⟩
  · obtain ⟨hlt, he, -, -⟩ := exponent_le_of_unpacked h
    rw [toRat, h, value] at hgrid ⊢
    have hte : t ≤ e := by
      rcases hgrid with rfl | hgrid
      · exact he
      have hlt' : (2 : ℚ) ^ (t + 52) < 2 ^ (e + 53) := by
        calc (2 : ℚ) ^ (t + 52) ≤ m * 2 ^ e := by
              simpa [abs_mul, abs_zpow] using hgrid
          _ < 2 ^ 53 * 2 ^ e := by
              have : (m : ℚ) < 2 ^ 53 := by exact_mod_cast hlt
              gcongr
          _ = 2 ^ (e + 53) := by
              rw [zpow_add₀ two_ne_zero, mul_comm]
              norm_cast
      have := (zpow_lt_zpow_iff_right₀ (by norm_num : (1 : ℚ) < 2)).mp hlt'
      omega
    refine ⟨s.apply m * 2 ^ (e - t).toNat, ?_⟩
    have hpow : (2 : ℚ) ^ e = 2 ^ (e - t).toNat * 2 ^ t := by
      rw [← zpow_natCast, ← zpow_add₀ two_ne_zero]
      congr 1
      omega
    rw [hpow]
    cases s <;> simp only [signum, Sign.apply] <;> push_cast <;> ring

/-- Points of a grid that are within half a step are one. -/
theorem eq_of_abs_mul_sub_le {k j : ℤ} {step : ℚ} (hpos : 0 < step)
    (h : |k * step - j * step| ≤ step / 2) : k = j := by
  rw [← sub_mul, abs_mul, abs_of_pos hpos] at h
  have hhalf : |((k - j : ℤ) : ℚ)| ≤ 1 / 2 := by
    rw [Int.cast_sub]
    refine le_of_mul_le_mul_right ?_ hpos
    linarith
  have hlt : |k - j| < 1 := by
    have : |((k - j : ℤ) : ℚ)| < 1 := by linarith
    exact_mod_cast this
  have := Int.abs_lt_one_iff.mp hlt
  omega

/-- A result that is a double exactly is not changed. -/
theorem IsRounded.toRat_eq (h : IsRounded q z) (hx : Scalar.isFinite x = true) (hq : toRat x = q) :
    Scalar.isFinite z = true ∧ toRat z = q := by
  obtain ⟨f, ⟨hf, t, k, ht, hvalue, herror, hgrid⟩, hz⟩ := h
  obtain ⟨j, hj⟩ := exists_toRat_eq_mul hx ht (hq ▸ hgrid)
  have hkj : k = j := by
    rw [hvalue, ← hq, hj] at herror
    exact eq_of_abs_mul_sub_le (by positivity) herror
  have hfq : value f = q := by rw [hvalue, hkj, ← hj, hq]
  have hback : repacked f = f := by
    refine repacked_of_isCanonical hf fun s m e hm hfe => ?_
    have hunsigned := eq_of_value_eq hf (isCanonical_unpacked hx) (hfq.trans hq.symm)
    rw [hfe] at hunsigned
    have hxe : unpacked x = .finite s m e hm := by
      rcases unpacked_cases hx with ⟨s', h'⟩ | ⟨s', m', e', hm', h'⟩ <;> rw [h'] at hunsigned ⊢
      · cases hunsigned
      · exact hunsigned.symm
    exact (exponent_le_of_unpacked hxe).2.2.2
  rw [hback] at hz
  refine ⟨?_, by rw [toRat, hz, hfq]⟩
  rw [isFinite_eq, hz]
  rcases hf.cases with ⟨s, rfl⟩ | ⟨s, m, e, hm, rfl⟩ <;> rfl

/-! ### Overflow -/

/-- What has overflowed stays so in sums. -/
theorem isFinite_of_add (h : Scalar.isFinite (x + y) = true) :
    Scalar.isFinite x = true ∧ Scalar.isFinite y = true := by
  rw [isFinite_eq, unpacked_add] at h
  rw [isFinite_eq, isFinite_eq]
  cases hf : unpacked x with
  | infinity s =>
    cases hg : unpacked y with
    | infinity t => cases s <;> cases t <;> simp_all [UnpackedFloat.add, UnpackedFloat.isFinite]
    | _ => simp_all [UnpackedFloat.add, UnpackedFloat.isFinite]
  | _ => cases hg : unpacked y <;> simp_all [UnpackedFloat.add, UnpackedFloat.isFinite]

theorem isFinite_of_sub (hy : Scalar.isFinite y = true) (h : Scalar.isFinite (x - y) = true) :
    Scalar.isFinite x = true := by
  rw [isFinite_eq, unpacked_sub] at h
  rw [isFinite_eq]
  rcases unpacked_cases hy with ⟨t, hg⟩ | ⟨t, n, k, hn, hg⟩ <;> rw [hg] at h <;>
    cases hf : unpacked x <;> simp_all [UnpackedFloat.sub, UnpackedFloat.isFinite]

theorem isFinite_of_div (hy : Scalar.isFactor y = true) (h : Scalar.isFinite (x / y) = true) :
    Scalar.isFinite x = true := by
  rw [isFactor_eq] at hy
  rw [isFinite_eq, unpacked_div] at h
  rw [isFinite_eq]
  cases hf : unpacked x <;> cases hg : unpacked y <;>
    simp_all [UnpackedFloat.div, UnpackedFloat.isFinite, isRegular]

/-! ### Differences and quotients of equal numbers -/

/-- No point of the least grid is rounded to zero but zero. -/
theorem IsRounded.eq_zero {j : ℤ} (h : IsRounded (j * 2 ^ (-1074 : ℤ)) z) (hz : (z == 0) = true) :
    j = 0 := by
  have hzero := toRat_of_beq_zero hz
  obtain ⟨-, t, k, -, -, herror, hgrid⟩ := h.rounds (isFinite_of_beq_zero hz)
  rw [toRat] at hzero
  rw [hzero] at herror
  have hleast : t = -1074 := by
    refine hgrid.resolve_right fun hgrid => ?_
    have hlt : (2 : ℚ) ^ t < 2 ^ (t + 52) :=
      zpow_lt_zpow_right₀ one_lt_two (by omega)
    have hpos : (0 : ℚ) < 2 ^ t := by positivity
    rw [zero_sub, abs_neg] at herror
    linarith
  rw [hleast, ← zero_mul (2 ^ (-1074 : ℤ)), ← Int.cast_zero] at herror
  exact (eq_of_abs_mul_sub_le (zpow_pos two_pos _) herror).symm

/-- A difference of doubles vanishes only if they are equal: the least grid tells them apart. -/
theorem sub_beq_zero_iff (hx : Scalar.isFinite x = true) :
    (x - y == 0) = true ↔ (x == y) = true := by
  cases hy : Scalar.isFinite y with
  | false =>
    -- Neither holds: the difference is infinite or undefined, and so is the second operand.
    have hne : (x == y) = false := by
      rw [← Bool.not_eq_true]
      intro h
      rw [isFinite_eq_of_beq h, hy] at hx
      cases hx
    have hsub : (x - y == 0) = false := by
      rw [beq_zero_eq, unpacked_sub]
      rw [isFinite_eq] at hx hy
      cases hf : unpacked x <;> cases hg : unpacked y <;>
        simp_all [UnpackedFloat.isFinite, UnpackedFloat.sub, isZero]
    simp [hne, hsub]
  | true =>
    have hrounded := isRounded_sub hx hy
    rw [beq_iff_toRat_eq hx hy]
    constructor
    · intro h
      obtain ⟨i, hi⟩ := exists_toRat_eq_mul hx le_rfl (.inl rfl)
      obtain ⟨j, hj⟩ := exists_toRat_eq_mul hy le_rfl (.inl rfl)
      rw [hi, hj, ← sub_mul, ← Int.cast_sub] at hrounded
      rw [hi, hj, sub_eq_zero.mp (hrounded.eq_zero h)]
    · intro h
      rw [h, sub_self] at hrounded
      obtain ⟨hfinite, hzero⟩ := hrounded.toRat_eq (x := 0) rfl rfl
      rw [beq_iff_toRat_eq hfinite rfl, hzero]
      rfl

theorem eq_neg_of_add_beq_zero (hx : Scalar.isFinite x = true) (hy : Scalar.isFinite y = true)
    (h : (x + y == 0) = true) : toRat x = -toRat y := by
  have hrounded := isRounded_add hx hy
  obtain ⟨i, hi⟩ := exists_toRat_eq_mul hx le_rfl (.inl rfl)
  obtain ⟨j, hj⟩ := exists_toRat_eq_mul hy le_rfl (.inl rfl)
  rw [hi, hj, ← add_mul, ← Int.cast_add] at hrounded
  rw [hi, hj, eq_neg_of_add_eq_zero_left (hrounded.eq_zero h), Int.cast_neg, neg_mul]

theorem sub_eq_self (hx : Scalar.isFactor x = true) (hy : (y == 0) = true) : x - y = x := by
  have hfinite : Scalar.isFinite x = true := (Bool.and_eq_true_iff.mp hx).2
  have hyfinite : Scalar.isFinite y = true := isFinite_of_beq_zero hy
  have hrounded := isRounded_sub hfinite hyfinite
  rw [toRat_of_beq_zero hy, sub_zero] at hrounded
  obtain ⟨hd, hdx⟩ := hrounded.toRat_eq hfinite rfl
  exact eq_of_beq_of_isFactor ((beq_iff_toRat_eq hd hfinite).mpr hdx) hx

theorem div_eq_one (hx : Scalar.isFactor x = true) : x / x = 1 := by
  have hrounded := isRounded_div (Bool.and_eq_true_iff.mp hx).2 hx
  rw [div_self (toRat_ne_zero hx)] at hrounded
  obtain ⟨hq, hq1⟩ := hrounded.toRat_eq (x := 1) rfl toRat_one
  exact eq_of_beq_of_isFactor ((beq_iff_toRat_eq hq rfl).mpr (hq1.trans toRat_one.symm)) isFactor_one

end Metrology.Binary64
