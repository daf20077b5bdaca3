import Metrology.Proofs.Binary64.Rounding
import Metrology.Quantity.FlooredDivision

/-!
# Exact dyadic numbers and remainders

A number with a mantissa of 53 bits and an exponent of the format is a double, and the double nearest
to it is that number (`toRat_ofDyadic`).  The remainder of truncated division is such a number, since
it is less than one of two mantissas over the smaller exponent; so it is not rounded
(`remainder_spec`).

The count of a floored division is a rounded quotient made whole.  A whole quotient stays whole when
it is rounded (`exists_int_of_isRounded`) and is then left alone (`toRat_toWhole_of_int`), so a number
goes once into another one with nothing left over exactly when it is that number
(`flooredDivMod_self`, `eq_of_flooredDivMod`).
-/

namespace Metrology.Binary64

open Float.Model UnpackedFloat

variable {x y : Float} {negative : Bool} {m : Nat} {e : Int}

/-- The unit of a sign bit. -/
def sgn (negative : Bool) : ℚ :=
  if negative then -1 else 1

@[simp]
theorem abs_sgn (negative : Bool) : |sgn negative| = 1 := by
  cases negative <;> simp [sgn]

/-! ### Exact dyadic numbers -/

theorem toRat_of_parts (h : parts x = .finite negative m e) :
    Scalar.isFinite x = true ∧ toRat x = sgn negative * (m * 2 ^ e) := by
  rw [parts_eq] at h
  rw [isFinite_eq, toRat]
  cases hx : unpacked x with
  | infinity s => simp [hx, Parts.ofUnpacked] at h
  | notANumber => simp [hx, Parts.ofUnpacked] at h
  | zero s =>
    rw [hx, Parts.ofUnpacked] at h
    obtain ⟨-, rfl, -⟩ := Parts.finite.inj h
    simp [UnpackedFloat.isFinite]
  | finite s m' e' hm =>
    rw [hx, Parts.ofUnpacked] at h
    obtain ⟨rfl, rfl, rfl⟩ := Parts.finite.inj h
    cases s <;> exact ⟨rfl, rfl⟩

/-- The bits of a canonical number. -/
theorem parts_ofMagnitude (negative : Bool) (hlt : m < 2 ^ 53) (he : -1074 ≤ e)
    (hlow : 2 ^ 52 ≤ m ∨ e = -1074) (hhigh : e ≤ 971) :
    parts (ofMagnitude negative ((e + 1074).toNat * binade + m)) = .finite negative m e := by
  set bits := (e + 1074).toNat * binade + m with hbits
  have hbound : bits < 2047 * binade := by
    unfold binade at *
    omega
  set b : BitVec Format.binary64.numBits :=
    (UInt64.ofNat (if negative then signBit + bits else bits)).toBitVec with hb
  have hnat : b.toNat = if negative then signBit + bits else bits := by
    have hlt : (if negative then signBit + bits else bits) < 2 ^ 64 := by
      unfold binade at *
      cases negative <;> simp [signBit] <;> omega
    exact Nat.mod_eq_of_lt hlt
  have hparts : Parts.ofUnpacked (UnpackedFloat.unpack Format.binary64 b) =
      .finite negative m e := by
    have hsign : decide (signBit ≤ b.toNat) = negative := by
      rw [hnat]
      unfold binade at *
      cases negative <;> simp [signBit]
      omega
    have hbiased : b.toNat / binade % 0x800 = bits / binade := by
      rw [hnat]
      unfold binade at *
      cases negative <;> simp [signBit] <;> omega
    have hfraction : b.toNat % binade = bits % binade := by
      rw [hnat]
      unfold binade at *
      cases negative <;> simp [signBit]
      omega
    rw [ofUnpacked_unpack]
    unfold Parts.ofBits
    simp only [hsign, hbiased, hfraction, Int.ofNat_eq_natCast]
    unfold binade at *
    split_ifs
    · omega
    · omega
    · congr 1 <;> omega
    · congr 1 <;> omega
  have hunpacked : unpacked (ofMagnitude negative bits) =
      repacked (UnpackedFloat.unpack Format.binary64 b) := rfl
  rw [parts_eq, hunpacked]
  cases hf : UnpackedFloat.unpack Format.binary64 b with
  | infinity s => simp [hf, Parts.ofUnpacked] at hparts
  | notANumber => simp [hf, Parts.ofUnpacked] at hparts
  | zero s =>
    rw [repacked_zero, ← hf]
    exact hparts
  | finite s m' e' hm =>
    rw [hf, Parts.ofUnpacked] at hparts
    obtain ⟨rfl, rfl, rfl⟩ := Parts.finite.inj hparts
    rw [repacked_of_isCanonical (f := .finite s m' e' hm) ⟨hlt, he, hlow⟩]
    · rfl
    · rintro _ _ _ _ ⟨⟩
      exact hhigh

theorem roundHalfEven_mul {n d : Nat} (hd : 0 < d) : roundHalfEven (n * d) d = n := by
  unfold roundHalfEven
  rw [Nat.mul_div_cancel _ hd, Nat.mul_mod_left]
  exact if_pos (.inl (by omega))

theorem log2Ratio_dyadic (hm : 0 < m) (e : Int) :
    log2Ratio (m * Nat.pow 2 e.toNat) (Nat.pow 2 (-e).toNat) = m.log2 + e := by
  have hnum : (m * Nat.pow 2 e.toNat).log2 = m.log2 + e.toNat := by
    rw [Nat.pow_eq, ← Nat.shiftLeft_eq, log2_shiftLeft hm]
  have ht : ((m * Nat.pow 2 e.toNat).log2 : Int) - (Nat.pow 2 (-e).toNat).log2 = m.log2 + e := by
    rw [hnum, Nat.pow_eq, Nat.log2_two_pow]
    omega
  unfold log2Ratio
  simp only [ht]
  refine if_pos ?_
  have hexp : (-e).toNat + (m.log2 + e : Int).toNat =
      m.log2 + (e.toNat + (-(m.log2 + e : Int)).toNat) := by omega
  calc 2 ^ (-e).toNat * 2 ^ (m.log2 + e : Int).toNat
      = 2 ^ m.log2 * 2 ^ (e.toNat + (-(m.log2 + e : Int)).toNat) := by
        rw [← Nat.pow_add, hexp, Nat.pow_add]
    _ ≤ m * 2 ^ (e.toNat + (-(m.log2 + e : Int)).toNat) :=
        Nat.mul_le_mul_right _ (Nat.log2_self_le (Nat.ne_of_gt hm))
    _ = m * 2 ^ e.toNat * 2 ^ (-(m.log2 + e : Int)).toNat := by
        rw [Nat.pow_add, Nat.mul_assoc]

/-- The double nearest to a number of the format is that number. -/
theorem toRat_ofDyadic (negative : Bool) (hlt : m < 2 ^ 53) (he : -1074 ≤ e) (hhigh : e ≤ 971) :
    Scalar.isFinite (ofDyadic negative m e) = true ∧
      toRat (ofDyadic negative m e) = sgn negative * (m * 2 ^ e) := by
  rcases Nat.eq_zero_or_pos m with rfl | hm
  · have hzero : parts (ofDyadic negative 0 e) = .finite negative 0 (-1074) := by
      have hbits := parts_ofMagnitude (m := 0) (e := -1074) negative (by decide) le_rfl (.inr rfl)
        (by decide)
      have hof : ofDyadic negative 0 e = ofMagnitude negative 0 := by
        simp [ofDyadic, nearest, zero]
      rw [hof]
      simpa using hbits
    simpa using toRat_of_parts hzero
  · have hlog : m.log2 < 53 := (Nat.log2_lt (Nat.ne_of_gt hm)).mpr hlt
    set t : Int := max (m.log2 + e - 52) (-1074) with ht
    set n := (e - t).toNat with hn
    have hround : roundHalfEven (m * Nat.pow 2 e.toNat * Nat.pow 2 (-t).toNat)
        (Nat.pow 2 (-e).toNat * Nat.pow 2 t.toNat) = m * 2 ^ n := by
      have hexp : e.toNat + (-t).toNat = n + ((-e).toNat + t.toNat) := by omega
      simp only [Nat.pow_eq]
      rw [Nat.mul_assoc, ← Nat.pow_add, ← Nat.pow_add, hexp, Nat.pow_add, ← Nat.mul_assoc]
      exact roundHalfEven_mul (Nat.two_pow_pos _)
    have hshift : (m * 2 ^ n).log2 = m.log2 + n := by
      rw [← Nat.shiftLeft_eq, log2_shiftLeft hm]
    have hne : m * 2 ^ n ≠ 0 := Nat.ne_of_gt (Nat.mul_pos hm (Nat.two_pow_pos n))
    have hlt' : m * 2 ^ n < 2 ^ 53 := (Nat.log2_lt hne).mp (by omega)
    have hlow : 2 ^ 52 ≤ m * 2 ^ n ∨ t = -1074 := by
      by_cases hleast : t = -1074
      · exact .inr hleast
      · exact .inl ((Nat.le_log2 hne).mp (by omega))
    have hparts : parts (ofDyadic negative m e) = .finite negative (m * 2 ^ n) t := by
      have hnum : m * Nat.pow 2 e.toNat ≠ 0 :=
        Nat.ne_of_gt (Nat.mul_pos hm (Nat.two_pow_pos _))
      have hmin : min ((t + 1074).toNat * binade + m * 2 ^ n) (2047 * binade) =
          (t + 1074).toNat * binade + m * 2 ^ n := by
        unfold binade
        omega
      unfold ofDyadic nearest
      rw [if_neg hnum, log2Ratio_dyadic hm]
      simp only [← ht, hround, hmin]
      exact parts_ofMagnitude negative hlt' (by omega) hlow (by omega)
    have hvalue : ((m * 2 ^ n : Nat) : ℚ) * 2 ^ t = m * 2 ^ e := by
      have hpow : (2 : ℚ) ^ e = 2 ^ n * 2 ^ t := by
        rw [← zpow_natCast, ← zpow_add₀ two_ne_zero]
        congr 1
        omega
      rw [hpow]
      push_cast
      ring
    rw [← hvalue]
    exact toRat_of_parts hparts

/-! ### Remainders -/

/-- The remainder of truncated division is exact: the magnitude of the divisor goes into that of the
first number a whole number of times, less than one divisor is left over, and that has the sign of
the first number. -/
theorem remainder_spec (hx : Scalar.isFinite x = true) (hy : Scalar.isFactor y = true) :
    Scalar.isFinite (remainder x y) = true ∧ |toRat (remainder x y)| < |toRat y| ∧
      (∃ k : ℕ, |toRat x| = k * |toRat y| + |toRat (remainder x y)|) ∧
      0 ≤ toRat x * toRat (remainder x y) := by
  obtain ⟨s, a, p, hpx⟩ := parts_of_isFinite hx
  obtain ⟨t, b, q, hpy⟩ := parts_of_isFinite (Bool.and_eq_true_iff.mp hy).2
  obtain ⟨-, hxr⟩ := toRat_of_parts hpx
  obtain ⟨-, hyr⟩ := toRat_of_parts hpy
  obtain ⟨ha, hp, -, hp'⟩ := bounds_of_parts hpx
  obtain ⟨hb, hq, -, hq'⟩ := bounds_of_parts hpy
  have hb0 : b ≠ 0 := by
    rintro rfl
    exact toRat_ne_zero hy (by simp [hyr])
  set least := min p q with hleast
  set a' := a * 2 ^ (p - least).toNat with ha'
  set b' := b * 2 ^ (q - least).toNat with hb'
  have hb'pos : 0 < b' := Nat.mul_pos (Nat.pos_of_ne_zero hb0) (Nat.two_pow_pos _)
  have hrest : remainder x y = ofDyadic s (a' % b') least := by
    unfold remainder
    simp only [hpx, hpy, if_neg hb0]
    rfl
  have hlt : a' % b' < 2 ^ 53 := by
    rcases min_cases p q with ⟨hmin, -⟩ | ⟨hmin, -⟩
    · have haa : a' = a := by simp [ha', hleast, hmin]
      have hle := Nat.mod_le a' b'
      omega
    · have hbb : b' = b := by simp [hb', hleast, hmin]
      have := Nat.mod_lt a' hb'pos
      omega
  obtain ⟨hfinite, hvalue⟩ := toRat_ofDyadic s hlt (e := least) (by omega) (by omega)
  have hscale (c : ℕ) {k : ℤ} (hk : least ≤ k) :
      (c : ℚ) * 2 ^ k = (c * 2 ^ (k - least).toNat : ℕ) * 2 ^ least := by
    have hpow : (2 : ℚ) ^ k = 2 ^ (k - least).toNat * 2 ^ least := by
      rw [← zpow_natCast, ← zpow_add₀ two_ne_zero]
      congr 1
      omega
    rw [hpow]
    push_cast
    ring
  have hpos : (0 : ℚ) < 2 ^ least := by positivity
  have hxa : toRat x = sgn s * (a' * 2 ^ least) := by rw [hxr, hscale a (min_le_left p q)]
  have hyb : |toRat y| = b' * 2 ^ least := by
    rw [hyr, hscale b (min_le_right p q), abs_mul, abs_sgn, one_mul, abs_of_nonneg (by positivity)]
  have hra : |toRat (remainder x y)| = (a' % b' : ℕ) * 2 ^ least := by
    rw [hrest, hvalue, abs_mul, abs_sgn, one_mul, abs_of_nonneg (by positivity)]
  refine ⟨hrest ▸ hfinite, ?_, ⟨a' / b', ?_⟩, ?_⟩
  · rw [hra, hyb]
    have hmod : ((a' % b' : ℕ) : ℚ) < b' := by exact_mod_cast Nat.mod_lt a' hb'pos
    gcongr
  · have hdiv : (a' : ℚ) = (a' / b' : ℕ) * b' + (a' % b' : ℕ) := by
      exact_mod_cast (Nat.div_add_mod' a' b').symm
    rw [hxa, hyb, hra, abs_mul, abs_sgn, one_mul, abs_of_nonneg (by positivity), hdiv]
    ring
  · rw [hrest, hvalue, hxa]
    have hsquare : sgn s * sgn s = 1 := by cases s <;> norm_num [sgn]
    calc (0 : ℚ) ≤ (a' * 2 ^ least) * ((a' % b' : ℕ) * 2 ^ least) := by positivity
      _ = sgn s * sgn s * ((a' * 2 ^ least) * ((a' % b' : ℕ) * 2 ^ least)) := by
          rw [hsquare, one_mul]
      _ = sgn s * (a' * 2 ^ least) * (sgn s * ((a' % b' : ℕ) * 2 ^ least)) := by ring

/-- The remainder of truncated division leaves a multiple of the divisor. -/
theorem exists_int_of_remainder (hx : Scalar.isFinite x = true) (hy : Scalar.isFactor y = true) :
    ∃ n : ℤ, toRat x = n * toRat y + toRat (remainder x y) := by
  obtain ⟨-, -, ⟨k, hk⟩, hsign⟩ := remainder_spec hx hy
  obtain ⟨n, hn⟩ : ∃ n : ℤ, (k : ℚ) * |toRat y| = n * toRat y := by
    rcases abs_choice (toRat y) with h | h
    · exact ⟨k, by rw [h, Int.cast_natCast]⟩
    · exact ⟨-k, by rw [h, Int.cast_neg, Int.cast_natCast, mul_neg, neg_mul]⟩
  rw [hn] at hk
  rcases mul_nonneg_iff.mp hsign with ⟨hx0, hr0⟩ | ⟨hx0, hr0⟩
  · exact ⟨n, by rwa [abs_of_nonneg hx0, abs_of_nonneg hr0] at hk⟩
  · rw [abs_of_nonpos hx0, abs_of_nonpos hr0] at hk
    exact ⟨-n, by push_cast; linarith⟩

/-- Only a finite divisor leaves nothing of a number other than zero. -/
theorem isFinite_of_remainder (hx : Scalar.isFactor x = true) (h : (remainder x y == 0) = true) :
    Scalar.isFinite y = true := by
  obtain ⟨s, a, p, hpx⟩ := parts_of_isFinite (Bool.and_eq_true_iff.mp hx).2
  unfold remainder at h
  cases hpy : parts y with
  | nan =>
    simp only [hpx, hpy] at h
    exact absurd h (by decide +kernel)
  | infinite t =>
    simp only [hpx, hpy] at h
    simp [Scalar.isFactor, h] at hx
  | finite t b q => exact (toRat_of_parts hpy).1

/-! ### Whole quotients -/

variable {z : Float} {n j : ℤ}

/-- A whole number is rounded to a whole number: the grid is finer than one, and then it is not
rounded at all, or all of the grid is whole. -/
theorem exists_int_of_isRounded (h : IsRounded n z) (hz : Scalar.isFinite z = true) :
    ∃ j : ℤ, toRat z = j := by
  obtain ⟨-, t, k, -, hvalue, herror, -⟩ := h.rounds hz
  rw [toRat, hvalue]
  rw [hvalue] at herror
  have hpos : (0 : ℚ) < 2 ^ t := by positivity
  rcases le_total 0 t with ht | ht
  · lift t to ℕ using ht
    exact ⟨k * 2 ^ t, by push_cast; rw [zpow_natCast]⟩
  · have hn : (n : ℚ) = (n * 2 ^ (-t).toNat : ℤ) * 2 ^ t := by
      have hone : (2 : ℚ) ^ (-t).toNat * 2 ^ t = 1 := by
        rw [← zpow_natCast, ← zpow_add₀ two_ne_zero, show ((-t).toNat : ℤ) + t = 0 by omega,
          zpow_zero]
      push_cast
      rw [mul_assoc, hone, mul_one]
    rw [hn] at herror
    exact ⟨n, by rw [eq_of_abs_mul_sub_le hpos herror, ← hn]⟩

theorem eq_one_of_isRounded (h : IsRounded n 1) : n = 1 := by
  obtain ⟨-, t, k, -, hvalue, herror, -⟩ := h.rounds (z := 1) rfl
  have hone : (1 : ℚ) = k * 2 ^ t := toRat_one.symm.trans hvalue
  rw [hvalue, ← hone] at herror
  rcases le_or_gt t 0 with ht | ht
  · have hstep : (2 : ℚ) ^ t ≤ 1 := zpow_le_one_of_nonpos₀ one_le_two ht
    have hle : |((1 : ℤ) : ℚ) * 1 - n * 1| ≤ 1 / 2 := by
      rw [Int.cast_one, mul_one, mul_one]
      linarith
    exact (eq_of_abs_mul_sub_le one_pos hle).symm
  · lift t to ℕ using ht.le
    rw [zpow_natCast] at hone
    have hint : (1 : ℤ) = k * 2 ^ t := by exact_mod_cast hone
    have hdvd : (2 : ℤ) ∣ 1 := hint ▸ Dvd.dvd.mul_left (dvd_pow_self 2 (by omega)) k
    norm_num at hdvd

theorem floor_of_int (hz : Scalar.isFinite z = true) (hj : toRat z = j) :
    Scalar.isFinite (floor z) = true ∧ toRat (floor z) = toRat z := by
  obtain ⟨s, m, e, hp⟩ := parts_of_isFinite hz
  obtain ⟨-, hm⟩ := toRat_of_parts hp
  obtain ⟨hlt, -, -, -⟩ := bounds_of_parts hp
  unfold floor toIntegral
  simp only [hp]
  split
  · exact ⟨hz, rfl⟩
  · rename_i he
    have hpow : (2 : ℚ) ^ (-e).toNat * 2 ^ e = 1 := by
      rw [← zpow_natCast, ← zpow_add₀ two_ne_zero, show ((-e).toNat : ℤ) + e = 0 by omega,
        zpow_zero]
    have hmj : m = j.natAbs * 2 ^ (-e).toNat := by
      have habs : (m : ℚ) * 2 ^ e = |(j : ℚ)| := by
        rw [← hj, hm, abs_mul, abs_sgn, one_mul, abs_of_nonneg (by positivity)]
      have hrat : (m : ℚ) = j.natAbs * 2 ^ (-e).toNat := by
        rw [Nat.cast_natAbs, Int.cast_abs, ← habs, mul_assoc, mul_comm _ ((2 : ℚ) ^ _), hpow,
          mul_one]
      exact_mod_cast hrat
    have hunit : 0 < Nat.pow 2 (-e).toNat := Nat.two_pow_pos _
    have hwhole : m / Nat.pow 2 (-e).toNat = j.natAbs := by
      rw [hmj]
      exact Nat.mul_div_cancel _ hunit
    have hrest : m % Nat.pow 2 (-e).toNat = 0 := by
      rw [hmj]
      exact Nat.mul_mod_left _ _
    have hle : j.natAbs ≤ m := hmj ▸ Nat.le_mul_of_pos_right _ hunit
    have hof : nearest s j.natAbs 1 = ofDyadic s j.natAbs 0 := by simp [ofDyadic]
    obtain ⟨hfinite, hvalue⟩ := toRat_ofDyadic s (m := j.natAbs) (e := 0) (by omega) (by omega)
      (by omega)
    simp only [hrest, hwhole, bne_self_eq_false, Bool.and_false, Bool.false_eq_true, if_false, hof]
    refine ⟨hfinite, ?_⟩
    rw [hvalue, hm, hmj, zpow_zero, mul_one]
    push_cast
    rw [mul_assoc, hpow, mul_one]

theorem less_half_eq_false (hz : Scalar.isFinite z = true) (h0 : toRat z = 0) :
    Scalar.less 0.5 z = false := by
  obtain ⟨s, hs⟩ : ∃ s, unpacked z = .zero s := by
    refine (unpacked_cases hz).resolve_right ?_
    rintro ⟨s, m, e, hm, h⟩
    rw [toRat, h] at h0
    exact value_finite_ne_zero s e hm h0
  rw [less_eq, hs]
  cases s <;> decide +kernel

theorem toRat_toWhole_of_int (hz : Scalar.isFinite z = true) (hj : toRat z = j) :
    toRat (Scalar.toWhole z) = toRat z := by
  obtain ⟨hfinite, hfloor⟩ := floor_of_int hz hj
  have hdifference := isRounded_sub hz hfinite
  rw [hfloor, sub_self] at hdifference
  obtain ⟨hd, hd0⟩ := hdifference.toRat_eq (x := 0) rfl rfl
  have hwhole : Scalar.toWhole z = floor z := by
    unfold Scalar.toWhole
    exact if_neg (by rw [show Scalar.floor z = floor z from rfl, less_half_eq_false hd hd0]; simp)
  rw [hwhole, hfloor]

/-- What is no number, or not finite, is not made whole. -/
theorem isFinite_of_toWhole (h : Scalar.isFinite (Scalar.toWhole z) = true) :
    Scalar.isFinite z = true := by
  by_contra hz
  have hfloor : Scalar.floor z = z := by
    change floor z = z
    unfold floor toIntegral
    split
    · rename_i hp
      exact absurd (toRat_of_parts hp).1 hz
    · rfl
  have hless : Scalar.less 0.5 (z - z) = false := by
    rw [isFinite_eq] at hz
    rw [less_eq, unpacked_sub]
    cases hf : unpacked z with
    | infinity s => cases s <;> decide +kernel
    | notANumber => decide +kernel
    | _ => simp [hf, UnpackedFloat.isFinite] at hz
  unfold Scalar.toWhole at h
  simp only [hfloor, hless, Bool.false_eq_true, if_false] at h
  exact hz h

/-! ### Floored division -/

theorem zero_beq_zero (negative : Bool) : (zero negative == 0) = true := by
  cases negative <;> decide +kernel

/-- The zero under the sign of a number. -/
theorem copySign_zero (x : Float) : Scalar.copySign 0 x = zero (isNegative x) := by
  have hp0 : parts 0 = .finite false 0 (-1074) := by decide +kernel
  change copySign 0 x = _
  unfold copySign
  simp [hp0, ofDyadic, nearest]

theorem remainder_self (hx : Scalar.isFactor x = true) :
    ∃ negative, remainder x x = zero negative := by
  obtain ⟨s, m, e, hm, h⟩ := unpacked_of_isFactor hx
  have hp : parts x = .finite (isMinus s) m e := by rw [parts_eq, h, Parts.ofUnpacked]
  refine ⟨isMinus s, ?_⟩
  unfold remainder
  simp only [hp, if_neg (Nat.ne_of_gt hm), min_self, sub_self, Nat.mod_self]
  simp [ofDyadic, nearest]

/-- A number other than zero goes into itself once, and a zero is left over. -/
theorem flooredDivMod_self (hx : Scalar.isFactor x = true) :
    ∃ rest : Float, (rest == 0) = true ∧ Scalar.flooredDivMod x x = (1, rest) := by
  obtain ⟨negative, hrest⟩ := remainder_self hx
  have hrest : Scalar.remainder x x = zero negative := hrest
  have hdifference : x - zero negative = x := sub_eq_self hx (zero_beq_zero negative)
  have hwhole : Scalar.toWhole (1 : Float) = 1 := eq_of_toBits_eq (by decide +kernel)
  refine ⟨zero (isNegative x), zero_beq_zero _, ?_⟩
  rw [Scalar.flooredDivMod, Scalar.flooredParts]
  simp only [hrest, hdifference, div_eq_one hx, zero_beq_zero, if_true, copySign_zero, hwhole]

/-- A whole quotient is one only of equal numbers. -/
theorem eq_of_toWhole_div (hx : Scalar.isFactor x = true) (hy : Scalar.isFactor y = true)
    (hn : toRat x = n * toRat y) (h : Scalar.toWhole (x / y) = 1) : x = y := by
  have hxfinite : Scalar.isFinite x = true := (Bool.and_eq_true_iff.mp hx).2
  have hyfinite : Scalar.isFinite y = true := (Bool.and_eq_true_iff.mp hy).2
  have hrounded := isRounded_div hxfinite hy
  rw [hn, mul_div_cancel_right₀ _ (toRat_ne_zero hy)] at hrounded
  have hfinite : Scalar.isFinite (x / y) = true := isFinite_of_toWhole (by rw [h]; rfl)
  obtain ⟨j, hj⟩ := exists_int_of_isRounded hrounded hfinite
  have hone : x / y = 1 := by
    refine (eq_of_toRat_eq (x := 1) rfl hfinite ?_ (by simp)).symm
    rw [← toRat_toWhole_of_int hfinite hj, h]
  rw [hone] at hrounded
  rw [eq_one_of_isRounded hrounded, Int.cast_one, one_mul] at hn
  exact eq_of_toRat_eq hxfinite hyfinite hn (toRat_ne_zero hx)

/-- Only the number itself goes once into a number other than zero, with nothing left over. -/
theorem eq_of_flooredDivMod {rest : Float} (hx : Scalar.isFactor x = true) (hy : (y == 0) = false)
    (hrest : (rest == 0) = true) (h : Scalar.flooredDivMod x y = (1, rest)) : x = y := by
  have hxfinite : Scalar.isFinite x = true := (Bool.and_eq_true_iff.mp hx).2
  have hfactor (hyfinite : Scalar.isFinite y = true) : Scalar.isFactor y = true := by
    simp [Scalar.isFactor, hy, hyfinite]
  simp only [Scalar.flooredDivMod, Scalar.flooredParts] at h
  split_ifs at h with h0 hsign
  · -- Nothing is left over, so the quotient is a whole number, up to its rounding.
    have hyfinite := isFinite_of_remainder hx h0
    obtain ⟨n, hn⟩ := exists_int_of_remainder hxfinite (hfactor hyfinite)
    have hrest0 : toRat (remainder x y) = 0 := toRat_of_beq_zero h0
    rw [hrest0, add_zero] at hn
    refine eq_of_toWhole_div hx (hfactor hyfinite) hn ?_
    rw [← sub_eq_self hx h0]
    exact (Prod.mk.inj h).1
  · -- The remainder was moved by the divisor, which is larger, so it is not zero.
    obtain ⟨-, hsum⟩ := Prod.mk.inj h
    rw [← hsum] at hrest
    have hyfinite := (isFinite_of_add (isFinite_of_beq_zero hrest)).2
    obtain ⟨hfinite, hlt, -⟩ := remainder_spec hxfinite (hfactor hyfinite)
    have hneg : toRat (remainder x y) = -toRat y := eq_neg_of_add_beq_zero hfinite hyfinite hrest
    rw [hneg, abs_neg] at hlt
    exact absurd hlt (lt_irrefl _)
  · have hsame : Scalar.remainder x y = rest := (Prod.mk.inj h).2
    rw [hsame] at h0
    exact absurd hrest h0

end Metrology.Binary64
