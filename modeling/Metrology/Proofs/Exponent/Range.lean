import Mathlib
import Metrology.Proofs.Exponent.Integer

/-!
# Exponents in range

A rational number is the value of an exponent when its numerator and denominator, in lowest terms, are
words (`Fits`).  Negations and products fail only for want of that.  A sum is taken over the least
common denominator, which is harder: a sum that can be taken so fits (`fits_of_sumFits`), and
`add?_eq_none_iff` says that nothing else can make it fail.  Sums of integers ask for no more than to fit
(`sumFits_iff_of_isInteger`), and so does the sum with the negation, as long as that exists
(`sumFits_neg_self`).
-/

namespace Metrology

/-- What a word is a positive multiple of is a word. -/
theorem InWord.of_mul {n g : ℤ} (hg : 0 < g) (h : InWord (n * g)) : InWord n := by
  obtain ⟨hlow, hhigh⟩ := h
  constructor <;> nlinarith

namespace Exponent

variable {x y : Exponent} {q : ℚ}

/-- A number is the value of an exponent. -/
def Fits (q : ℚ) : Prop :=
  InWord q.num ∧ InWord q.den

instance (q : ℚ) : Decidable (Fits q) :=
  inferInstanceAs (Decidable (_ ∧ _))

theorem fits_value (x : Exponent) : Fits x.value :=
  ⟨x.num_inWord, x.den_inWord⟩

theorem ofRat?_eq_none_iff_not_fits : ofRat? q = none ↔ ¬Fits q :=
  ofRat?_eq_none_iff

/-- Of a fraction of words the lowest terms are words too. -/
theorem fits_div {n d : ℤ} (hd : 0 < d) (hn : InWord n) (hd' : InWord d) : Fits (n / d) := by
  obtain ⟨g, hnum, hden⟩ := Rat.num_den_mk (ne_of_gt hd) (q := (n / d : ℚ)) (Rat.divInt_eq_div n d).symm
  have hden0 : 0 < ((n / d : ℚ).den : ℤ) := Int.natCast_pos.mpr (Rat.den_pos _)
  have hg : 0 < g := (mul_pos_iff_of_pos_right hden0).mp (hden ▸ hd)
  rw [mul_comm] at hnum hden
  exact ⟨.of_mul hg (hnum ▸ hn), .of_mul hg (hden ▸ hd')⟩

/-! ### Sums -/

/-- Numerators over the least common denominator. -/
theorem lcm_div_mul (x : ℚ) {d : ℕ} (h : x.den ∣ d) (hd : d ≠ 0) :
    (((d : ℤ) / x.den * x.num : ℤ) : ℚ) / d = x := by
  obtain ⟨k, rfl⟩ := h
  have hden : (x.den : ℚ) ≠ 0 := Nat.cast_ne_zero.mpr x.den_nz
  have hk : (k : ℚ) ≠ 0 := by
    rintro hk
    exact hd (by rw [Nat.cast_eq_zero.mp hk, mul_zero])
  rw [Nat.cast_mul, Int.mul_ediv_cancel_left _ (Int.natCast_ne_zero.mpr x.den_nz)]
  push_cast
  nth_rewrite 3 [← Rat.num_div_den x]
  field_simp

/-- A sum that can be taken over the least common denominator fits. -/
theorem fits_of_sumFits {x y : ℚ} (h : SumFits x y) : Fits (x + y) := by
  obtain ⟨hd, -, -, hsum⟩ := h
  have hpos : 0 < x.den.lcm y.den := Nat.lcm_pos x.den_pos y.den_pos
  have hx := lcm_div_mul x (Nat.dvd_lcm_left x.den y.den) hpos.ne'
  have hy := lcm_div_mul y (Nat.dvd_lcm_right x.den y.den) hpos.ne'
  have hxy := fits_div (Int.natCast_pos.mpr hpos) hsum hd
  rwa [Int.cast_add, add_div, Int.cast_natCast, hx, hy] at hxy

theorem add?_eq_none_iff : x.add? y = none ↔ ¬SumFits x.value y.value := by
  unfold add?
  split
  · rename_i h
    rw [ofRat?_eq_none_iff_not_fits]
    simp [h, fits_of_sumFits h]
  · rename_i h
    simp [h]

/-- The sum of integers is lost only if it does not fit. -/
theorem sumFits_iff_of_isInteger (hx : x.isInteger = true) (hy : y.isInteger = true) :
    SumFits x.value y.value ↔ Fits (x.value + y.value) := by
  refine ⟨fits_of_sumFits, fun h => ?_⟩
  have hxd : x.value.den = 1 := by simpa [isInteger] using hx
  have hyd : y.value.den = 1 := by simpa [isInteger] using hy
  have hvalue : x.value + y.value = (x.value.num + y.value.num : ℤ) := by
    rw [Int.cast_add, ← value_eq_num hx, ← value_eq_num hy]
  have hsum : (x.value + y.value).num = x.value.num + y.value.num := by
    rw [hvalue, Rat.num_intCast]
  simp only [SumFits, hxd, hyd, Nat.lcm_self, Nat.cast_one, Int.ediv_self one_ne_zero, one_mul]
  exact ⟨by decide, x.num_inWord, y.num_inWord, hsum ▸ h.1⟩

/-! ### Negations -/

/-- Only the least word has no negation. -/
theorem fits_neg_iff : Fits (-x.value) ↔ x.value.num ≠ -0x8000000000000000 := by
  obtain ⟨hlow, hhigh⟩ := x.num_inWord
  rw [Fits, Rat.num_neg_eq_neg_num, Rat.den_neg_eq_den, and_iff_left x.den_inWord, InWord]
  omega

/-- What can be negated adds up with its negation. -/
theorem sumFits_neg_self (h : Fits (-x.value)) : SumFits x.value (-x.value) := by
  have hden : ((x.value.den : ℤ) / x.value.den) = 1 :=
    Int.ediv_self (Int.natCast_ne_zero.mpr x.value.den_nz)
  have hneg : InWord (-x.value.num) := by simpa using h.1
  simp only [SumFits, Rat.neg_den, Rat.neg_num, Nat.lcm_self, hden, one_mul, add_neg_cancel]
  exact ⟨x.den_inWord, x.num_inWord, hneg, by decide⟩

end Exponent

end Metrology
