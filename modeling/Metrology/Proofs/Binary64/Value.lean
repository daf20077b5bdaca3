import Metrology.Proofs.Binary64.Factor
import Metrology.Proofs.Scalar.Lawful

/-!
# Doubles as rational numbers

A finite double is a rational number (`toRat`), and but for the two zeros it is the only double for
that number: the mantissa has 53 bits, or the exponent is the least one (`IsCanonical`).  So equality
of finite doubles is equality of numbers (`beq_iff_toRat_eq`), and what is not a zero is given by its
number (`eq_of_toRat_eq`).  The total order tells all finite doubles apart (`totalCompare_eq_iff`).
-/

namespace Metrology.Binary64

open Float.Model UnpackedFloat

/-- The numbers of the format, if its exponents had no upper bound. -/
def IsCanonical : UnpackedFloat → Prop
  | .zero _ => True
  | .finite _ m e _ => m < 2 ^ 53 ∧ -1074 ≤ e ∧ (2 ^ 52 ≤ m ∨ e = -1074)
  | _ => False

/-- The unit of a sign. -/
def signum : Sign → ℚ
  | .negative => -1
  | .positive => 1

/-- The number that an unpacked double stands for. -/
def value : UnpackedFloat → ℚ
  | .finite s m e _ => signum s * (m * 2 ^ e)
  | _ => 0

/-- The number that a finite double stands for. -/
def toRat (x : Float) : ℚ :=
  value (unpacked x)

variable {x y : Float}

/-! ### Unpacked doubles -/

@[simp]
theorem abs_signum (s : Sign) : |signum s| = 1 := by
  cases s <;> simp [signum]

theorem signum_ne_zero (s : Sign) : signum s ≠ 0 := by
  cases s <;> simp [signum]

@[simp]
theorem value_zero (s : Sign) : value (.zero s) = 0 := rfl

theorem IsCanonical.cases {f : UnpackedFloat} (hf : IsCanonical f) :
    (∃ s, f = .zero s) ∨ ∃ s m e hm, f = .finite s m e hm := by
  cases f with
  | infinity s => exact hf.elim
  | notANumber => exact hf.elim
  | zero s => exact .inl ⟨s, rfl⟩
  | finite s m e hm => exact .inr ⟨s, m, e, hm, rfl⟩

/-- The finite doubles are canonical, and their exponents are bounded. -/
theorem bounds_of_parts {negative : Bool} {m : Nat} {e : Int}
    (h : parts x = .finite negative m e) :
    m < 2 ^ 53 ∧ -1074 ≤ e ∧ (2 ^ 52 ≤ m ∨ e = -1074) ∧ e ≤ 971 := by
  unfold parts binade at h
  simp only [Int.ofNat_eq_natCast] at h
  split_ifs at h
  all_goals
    obtain ⟨-, rfl, rfl⟩ := Parts.finite.inj h
    omega

theorem exponent_le_of_unpacked {s : Sign} {m : Nat} {e : Int} {hm : 0 < m}
    (h : unpacked x = .finite s m e hm) :
    m < 2 ^ 53 ∧ -1074 ≤ e ∧ (2 ^ 52 ≤ m ∨ e = -1074) ∧ e ≤ 971 :=
  bounds_of_parts (by rw [parts_eq, h, Parts.ofUnpacked])

theorem unpacked_cases (hx : Scalar.isFinite x = true) :
    (∃ s, unpacked x = .zero s) ∨ ∃ s m e hm, unpacked x = .finite s m e hm := by
  rw [isFinite_eq] at hx
  cases h : unpacked x with
  | infinity s => simp [h, UnpackedFloat.isFinite] at hx
  | notANumber => simp [h, UnpackedFloat.isFinite] at hx
  | zero s => exact .inl ⟨s, rfl⟩
  | finite s m e hm => exact .inr ⟨s, m, e, hm, rfl⟩

theorem unpacked_of_isFactor (hx : Scalar.isFactor x = true) :
    ∃ s m e hm, unpacked x = .finite s m e hm := by
  rw [isFactor_eq] at hx
  cases h : unpacked x with
  | finite s m e hm => exact ⟨s, m, e, hm, rfl⟩
  | _ => simp [h, isRegular] at hx

theorem isCanonical_unpacked (hx : Scalar.isFinite x = true) : IsCanonical (unpacked x) := by
  rcases unpacked_cases hx with ⟨s, h⟩ | ⟨s, m, e, hm, h⟩
  · rw [h]
    trivial
  · obtain ⟨hlt, he, hlow, -⟩ := exponent_le_of_unpacked h
    rw [h]
    exact ⟨hlt, he, hlow⟩

theorem value_finite_ne_zero (s : Sign) {m : Nat} (e : Int) (hm : 0 < m) :
    value (.finite s m e hm) ≠ 0 := by
  have hm0 : (m : ℚ) ≠ 0 := by exact_mod_cast Nat.ne_of_gt hm
  exact mul_ne_zero (signum_ne_zero s) (mul_ne_zero hm0 (zpow_ne_zero e two_ne_zero))

/-- Of two canonical numbers, one with a smaller exponent is smaller. -/
theorem mul_two_pow_lt_of_exponent_lt {m n : Nat} {e k : Int} (hm : m < 2 ^ 53) (he : -1074 ≤ e)
    (hn : 2 ^ 52 ≤ n ∨ k = -1074) (hlt : e < k) : (m : ℚ) * 2 ^ e < n * 2 ^ k := by
  have hn52 : (2 : ℚ) ^ 52 ≤ n := by
    exact_mod_cast hn.resolve_right (by omega)
  have hm53 : (m : ℚ) < 2 ^ 53 := by exact_mod_cast hm
  calc (m : ℚ) * 2 ^ e < 2 ^ 53 * 2 ^ e := by gcongr
    _ = 2 ^ 52 * 2 ^ (e + 1) := by rw [zpow_add_one₀ two_ne_zero]; ring
    _ ≤ n * 2 ^ k := by gcongr <;> [norm_num; omega]

theorem eq_of_mul_two_pow_eq {m n : Nat} {e k : Int} (hm : m < 2 ^ 53) (hn : n < 2 ^ 53)
    (he : -1074 ≤ e) (hk : -1074 ≤ k) (hm' : 2 ^ 52 ≤ m ∨ e = -1074) (hn' : 2 ^ 52 ≤ n ∨ k = -1074)
    (h : (m : ℚ) * 2 ^ e = n * 2 ^ k) : m = n ∧ e = k := by
  rcases lt_trichotomy e k with hlt | rfl | hgt
  · exact absurd h (ne_of_lt (mul_two_pow_lt_of_exponent_lt hm he hn' hlt))
  · have hmn : (m : ℚ) = n := mul_right_cancel₀ (zpow_ne_zero e two_ne_zero) h
    exact ⟨by exact_mod_cast hmn, rfl⟩
  · exact absurd h.symm (ne_of_lt (mul_two_pow_lt_of_exponent_lt hn hk hm' hgt))

/-- The number determines a canonical form, but for the sign of a zero. -/
theorem eq_of_value_eq {f g : UnpackedFloat} (hf : IsCanonical f) (hg : IsCanonical g)
    (h : value f = value g) : unsignedZero f = unsignedZero g := by
  rcases hf.cases with ⟨s, rfl⟩ | ⟨s, m, e, hm, rfl⟩ <;>
    rcases hg.cases with ⟨t, rfl⟩ | ⟨t, n, k, hn, rfl⟩
  · rfl
  · exact absurd h.symm (value_finite_ne_zero t k hn)
  · exact absurd h (value_finite_ne_zero s e hm)
  · have habs : |value (.finite s m e hm)| = |value (.finite t n k hn)| := congrArg _ h
    simp only [value, abs_mul, abs_signum, one_mul, abs_zpow, abs_two, Nat.abs_cast] at habs
    obtain ⟨rfl, rfl⟩ := eq_of_mul_two_pow_eq hf.1 hg.1 hf.2.1 hg.2.1 hf.2.2 hg.2.2 habs
    have hpos : (0 : ℚ) < m * 2 ^ e := by positivity
    have hsign : signum s = signum t := mul_right_cancel₀ (ne_of_gt hpos) h
    cases s <;> cases t <;> first | rfl | norm_num [signum] at hsign

/-! ### Finite doubles -/

@[simp]
theorem toRat_zero : toRat 0 = 0 := rfl

@[simp]
theorem toRat_one : toRat 1 = 1 := by
  have h : unpacked 1 = .finite .positive (2 ^ 52) (-52) (by decide) := rfl
  rw [toRat, h, value, signum]
  norm_num

theorem toRat_eq_zero_iff : toRat x = 0 ↔ Scalar.isFactor x = false := by
  rw [isFactor_eq, toRat]
  cases unpacked x with
  | finite s m e hm => simp [value_finite_ne_zero, isRegular]
  | _ => simp [value, isRegular]

theorem toRat_ne_zero (hx : Scalar.isFactor x = true) : toRat x ≠ 0 := by
  rw [Ne, toRat_eq_zero_iff, hx]
  exact Bool.noConfusion

theorem toRat_of_beq_zero (h : (x == 0) = true) : toRat x = 0 := by
  rw [toRat_eq_zero_iff, Scalar.isFactor, h]
  rfl

/-- Finite doubles are equal when they are one number. -/
theorem beq_iff_toRat_eq (hx : Scalar.isFinite x = true) (hy : Scalar.isFinite y = true) :
    (x == y) = true ↔ toRat x = toRat y := by
  have hnan : (unpacked x).isNaN = false := by
    rcases unpacked_cases hx with ⟨s, h⟩ | ⟨s, m, e, hm, h⟩ <;> rw [h] <;> rfl
  rw [beq_iff]
  constructor
  · rintro ⟨-, h⟩
    have hvalue (f : UnpackedFloat) : value (unsignedZero f) = value f := by cases f <;> rfl
    rw [toRat, toRat, ← hvalue, h, hvalue]
  · exact fun h => ⟨hnan, eq_of_value_eq (isCanonical_unpacked hx) (isCanonical_unpacked hy) h⟩

/-- Equal doubles are finite together. -/
theorem isFinite_eq_of_beq (h : (x == y) = true) : Scalar.isFinite x = Scalar.isFinite y := by
  obtain ⟨-, heq⟩ := beq_iff.mp h
  have hunsigned (f : UnpackedFloat) : (unsignedZero f).isFinite = f.isFinite := by cases f <;> rfl
  rw [isFinite_eq, isFinite_eq, ← hunsigned, heq, hunsigned]

theorem parts_of_isFinite (hx : Scalar.isFinite x = true) :
    ∃ negative m e, parts x = .finite negative m e := by
  rw [parts_eq]
  rcases unpacked_cases hx with ⟨s, h⟩ | ⟨s, m, e, hm, h⟩
  · exact ⟨isMinus s, 0, -1074, by rw [h]; rfl⟩
  · exact ⟨isMinus s, m, e, by rw [h]; rfl⟩

/-- The bits of a finite double. -/
theorem toNat_toBits_of_parts {negative : Bool} {m : Nat} {e : Int}
    (h : parts x = .finite negative m e) :
    x.toBits.toNat = (if negative then signBit else 0) + (e + 1074).toNat * binade + m := by
  have hlt : x.toBits.toNat < 2 ^ 64 := x.toBits.toNat_lt
  unfold parts binade at h
  simp only [Int.ofNat_eq_natCast] at h
  generalize x.toBits.toNat = bits at *
  have hsign : (if decide (signBit ≤ bits) then signBit else 0) + bits % signBit = bits := by
    by_cases hs : signBit ≤ bits
    · rw [if_pos (decide_eq_true hs)]
      unfold signBit at *
      omega
    · rw [if_neg (by simpa using hs)]
      unfold signBit at *
      omega
  split_ifs at h
  all_goals
    obtain ⟨rfl, rfl, rfl⟩ := Parts.finite.inj h
    unfold binade
    generalize (if decide (signBit ≤ bits) then signBit else 0) = sign at *
    unfold signBit at *
    omega

theorem eq_of_unpacked_eq (hx : Scalar.isFinite x = true) (h : unpacked x = unpacked y) :
    x = y := by
  have hparts : parts x = parts y := by rw [parts_eq, parts_eq, h]
  obtain ⟨negative, m, e, hp⟩ := parts_of_isFinite hx
  apply eq_of_toBits_eq
  rw [← UInt64.toNat_inj, toNat_toBits_of_parts hp, toNat_toBits_of_parts (hparts ▸ hp)]

/-- A finite double other than the zeros is given by its number. -/
theorem eq_of_toRat_eq (hx : Scalar.isFinite x = true) (hy : Scalar.isFinite y = true)
    (h : toRat x = toRat y) (h0 : toRat x ≠ 0) : x = y := by
  refine eq_of_unpacked_eq hx ?_
  have hunsigned := eq_of_value_eq (isCanonical_unpacked hx) (isCanonical_unpacked hy) h
  have hfx : Scalar.isFactor x = true := by simpa [toRat_eq_zero_iff] using h0
  have hfy : Scalar.isFactor y = true := by simpa [h, toRat_eq_zero_iff] using h0
  rw [isFactor_eq] at hfx hfy
  cases hf : unpacked x <;> cases hg : unpacked y <;> simp_all [isRegular, unsignedZero]

/-- Only the zeros are equal without being one double. -/
theorem eq_of_beq_of_isFactor (h : (x == y) = true) (hy : Scalar.isFactor y = true) : x = y := by
  have hyfinite : Scalar.isFinite y = true := (Bool.and_eq_true_iff.mp hy).2
  have hxfinite : Scalar.isFinite x = true := (isFinite_eq_of_beq h).trans hyfinite
  have heq := (beq_iff_toRat_eq hxfinite hyfinite).mp h
  exact eq_of_toRat_eq hxfinite hyfinite heq (heq ▸ toRat_ne_zero hy)

/-! ### Order -/

theorem unpacked_of_toRat_pos (h : 0 < toRat x) :
    ∃ m e hm, unpacked x = .finite .positive m e hm := by
  rw [toRat] at h
  cases hx : unpacked x with
  | finite s m e hm =>
    cases s with
    | positive => exact ⟨m, e, hm, rfl⟩
    | negative =>
      have hpos : (0 : ℚ) < m * 2 ^ e := by positivity
      rw [hx, value, signum] at h
      linarith
  | _ => simp [hx, value] at h

theorem less_eq (x y : Float) :
    Scalar.less x y = ((unpacked x).compare (unpacked y) == some .lt) :=
  (Bool.decide_eq_true (b := x.lt y)).trans
    (Bool.decide_eq_true (b := (unpacked x).lt (unpacked y)))

theorem toRat_pos_iff : 0 < toRat x ↔ Scalar.isFinite x = true ∧ Scalar.less 0 x = true := by
  have hzero : unpacked 0 = .zero .positive := rfl
  rw [isFinite_eq, less_eq, hzero, toRat]
  cases unpacked x with
  | infinity s => cases s <;> simp [value, UnpackedFloat.isFinite]
  | notANumber => simp [value, UnpackedFloat.isFinite]
  | zero s => simp [value, UnpackedFloat.compare]
  | finite s m e hm =>
    have hpos : (0 : ℚ) < m * 2 ^ e := by positivity
    cases s
    · simp [value, signum, UnpackedFloat.compare, hpos.le]
    · simpa [value, signum, UnpackedFloat.compare, UnpackedFloat.isFinite] using hpos

theorem toRat_neg_iff : toRat x < 0 ↔ Scalar.isFinite x = true ∧ Scalar.less x 0 = true := by
  have hzero : unpacked 0 = .zero .positive := rfl
  rw [isFinite_eq, less_eq, hzero, toRat]
  cases unpacked x with
  | infinity s => cases s <;> simp [value, UnpackedFloat.isFinite]
  | notANumber => simp [value, UnpackedFloat.isFinite]
  | zero s => simp [value, UnpackedFloat.compare]
  | finite s m e hm =>
    have hpos : (0 : ℚ) < m * 2 ^ e := by positivity
    cases s
    · simpa [value, signum, UnpackedFloat.compare, UnpackedFloat.isFinite] using hpos
    · simp [value, signum, UnpackedFloat.compare, hpos.le]

/-- The total order tells a finite double from all others. -/
theorem totalCompare_eq_iff (hx : Scalar.isFinite x = true) :
    Scalar.totalCompare x y = .eq ↔ x = y := by
  constructor
  · intro h
    have hplace : place x = place y := compare_eq_iff_eq.mp h
    have hxlt : x.toBits.toNat < 2 ^ 64 := x.toBits.toNat_lt
    have hylt : y.toBits.toNat < 2 ^ 64 := y.toBits.toNat_lt
    obtain ⟨negative, m, e, hp⟩ := parts_of_isFinite hx
    apply eq_of_toBits_eq
    rw [← UInt64.toNat_inj]
    unfold place signBit at hplace
    cases hq : parts y <;> simp only [hp, hq] at hplace <;> split_ifs at hplace <;> omega
  · rintro rfl
    exact compare_eq_iff_eq.mpr (rfl : place x = place x)

end Metrology.Binary64
