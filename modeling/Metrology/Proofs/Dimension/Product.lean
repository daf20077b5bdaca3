import Metrology.Proofs.Dimension.Reading

/-!
# Products that are defined

A product adds the entries of the second dimension to the first, one after the other.  As every base has
one entry at most, no exponent is added to twice.  So the product is undefined exactly when the
exponents of some base cannot be added (`multiply?_eq_none_iff`), and that does not depend on which of
the two comes first (`multiply?_eq_none_comm`).  Nor does the product that is defined
(`multiply_commutes`).
-/

namespace Metrology

open SortedEntries

namespace Dimension

variable {a b d : Dimension} {c : Base}

theorem add?_zero (x : Exponent) : x.add? 0 = some x := by
  rw [Exponent.add?_comm, zero_add?]

/-- In a sorted list a base has one exponent at most. -/
theorem exponentsOf_of_sorted {entries : List (Base × Exponent)} (h : Sorted entries) :
    exponentsOf c entries = (find? c entries).toList := by
  induction entries with
  | nil => rfl
  | cons e entries ih =>
    have hfirst : e.1 ∉ entries.map Prod.fst := (List.nodup_cons.mp h.nodup).1
    have hsorted : Sorted entries := (List.pairwise_cons.mp h).2
    by_cases hc : e.1 = c
    · subst hc
      have hnil : exponentsOf e.1 entries = [] := by
        have hother : ∀ f ∈ entries, f.1 ≠ e.1 := fun f hf heq =>
          hfirst (heq ▸ List.mem_map_of_mem hf)
        simpa [exponentsOf] using hother
      rw [exponentsOf_cons_self, hnil, find?, if_pos Std.ReflCmp.compare_self, Option.toList_some]
    · have hcompare : compare c e.1 ≠ .eq := fun heq => hc (Std.LawfulEqCmp.eq_of_compare heq).symm
      rw [exponentsOf_cons_of_ne hc, ih hsorted, find?, if_neg hcompare]

/-- Adding the exponents of a dimension for a base is adding one exponent. -/
theorem sum?_exponentsOf (x : Exponent) (d : Dimension) (c : Base) :
    sum? x (exponentsOf c d.entries) = x.add? (d.exponent c) := by
  rw [exponentsOf_of_sorted d.sorted, exponent]
  cases find? c d.entries with
  | none => exact (add?_zero x).symm
  | some y => exact Option.bind_fun_some _

theorem multiply?_eq_none_iff :
    a.multiply? b = none ↔ ∃ c, (a.exponent c).add? (b.exponent c) = none := by
  simp only [multiply?, addAll?_eq_none_iff, sum?_exponentsOf]

theorem multiply?_eq_none_comm : a.multiply? b = none ↔ b.multiply? a = none := by
  simp only [multiply?_eq_none_iff, Exponent.add?_comm]

/-- **Products of dimensions commute.**  Of two dimensions with any exponents, the products in either
order are the same dimension, or both are undefined because a number met on the way is no word. -/
theorem multiply_commutes (a b : Dimension) : a.multiply? b = b.multiply? a := by
  cases h : a.multiply? b with
  | none => exact (multiply?_eq_none_comm.mp h).symm
  | some d =>
    have hne : b.multiply? a ≠ none := by
      rw [Ne, multiply?_eq_none_comm, h]
      exact Option.some_ne_none d
    obtain ⟨e, he⟩ := Option.ne_none_iff_exists'.mp hne
    rw [he, agree_multiply_comm a b d e h he]

end Dimension

end Metrology
