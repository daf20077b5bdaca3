import Mathlib.Data.Rat.Lemmas
import Metrology.Exponent

/-!
# Integer exponents

The integers among the exponents are those whose value is the cast of an integer, which is then the
numerator (`isInteger_iff`, `num_eq_of_value_eq`).  Sums, negations and products of integer exponents
are integers again, and the numerators are added, negated and multiplied.
-/

namespace Metrology.Exponent

theorem num_eq_of_value_eq {x : Exponent} {n : ℤ} (h : x.value = n) : x.value.num = n := by
  rw [h, Rat.num_intCast]

theorem value_eq_num {x : Exponent} (h : x.isInteger = true) : x.value = x.value.num := by
  have hden : x.value.den = 1 := by simpa [isInteger] using h
  exact (Rat.coe_int_num_of_den_eq_one hden).symm

theorem isInteger_iff {x : Exponent} : x.isInteger = true ↔ ∃ n : ℤ, x.value = n := by
  constructor
  · exact fun h => ⟨_, value_eq_num h⟩
  · rintro ⟨n, hn⟩
    simp [isInteger, hn]

theorem isInteger_of_value_eq {x : Exponent} {n : ℤ} (h : x.value = n) : x.isInteger = true :=
  isInteger_iff.mpr ⟨n, h⟩

variable {x y z : Exponent}

theorem value_add?_of_isInteger (hx : x.isInteger = true) (hy : y.isInteger = true)
    (h : x.add? y = some z) : z.value = (x.value.num + y.value.num : ℤ) := by
  rw [value_add? h, value_eq_num hx, value_eq_num hy]
  simp

theorem value_neg?_of_isInteger (hx : x.isInteger = true) (h : x.neg? = some y) :
    y.value = (-1 * x.value.num : ℤ) := by
  rw [value_neg? h, value_eq_num hx]
  simp

theorem value_mul?_of_isInteger (hx : x.isInteger = true) (hy : y.isInteger = true)
    (h : x.mul? y = some z) : z.value = (y.value.num * x.value.num : ℤ) := by
  rw [value_mul? h, value_eq_num hx, value_eq_num hy, mul_comm]
  simp

end Metrology.Exponent
