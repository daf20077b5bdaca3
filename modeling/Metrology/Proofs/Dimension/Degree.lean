import Mathlib.Algebra.BigOperators.Group.List.Basic
import Mathlib.Algebra.Field.Rat
import Mathlib.Algebra.Module.Pi
import Metrology.Dimension.Basic

/-!
# Degrees of dimensions

The *degree* of a dimension is the function of its exponents as exact rational numbers, an element
of the rational vector space `Base → ℚ`.  A dimension is determined by its degree
(`degree_injective`), and the partial operations on dimensions, whenever they are defined, are the
operations of the vector space:

* `degree_multiply?`, `degree_invert?`, `degree_divide?`, `degree_power?`;
* `degree_ofPairs?`: listed exponents add up (`degreeOf`).

The one writing operation of products is `addAt?`; `degree_addAt?` says what it does, and
`degree_addAll?` follows by induction on the list that is added.
-/

namespace Metrology.Dimension

open SortedEntries

/-- The exponents of a dimension as exact rational numbers. -/
def degree (d : Dimension) (b : Base) : ℚ :=
  (d.exponent b).value

/-- What a list of exponents adds up to. -/
def degreeOf (pairs : List (Base × Exponent)) : Base → ℚ :=
  (pairs.map fun e => Pi.single e.1 e.2.value).sum

theorem degree_injective : Function.Injective degree := by
  intro a b h
  refine ext_exponent fun c => ?_
  exact Exponent.ext (congrFun h c)

@[simp]
theorem degree_dimensionless : dimensionless.degree = 0 := rfl

@[simp]
theorem degreeOf_nil : degreeOf [] = 0 := rfl

@[simp]
theorem degreeOf_cons (e : Base × Exponent) (pairs : List (Base × Exponent)) :
    degreeOf (e :: pairs) = Pi.single e.1 e.2.value + degreeOf pairs := by
  simp [degreeOf]

/-! ### Sums -/

theorem degree_addAt? {d d' : Dimension} {b : Base} {x : Exponent} (h : d.addAt? b x = some d') :
    d'.degree = d.degree + Pi.single b x.value := by
  obtain ⟨y, hy, rfl⟩ := Option.map_eq_some_iff.mp h
  funext c
  by_cases hc : c = b
  · subst hc
    simp [degree, exponent_set, Exponent.value_add? hy]
  · simp [degree, exponent_set, hc]

theorem degree_addAll? {d d' : Dimension} {entries : List (Base × Exponent)}
    (h : d.addAll? entries = some d') : d'.degree = d.degree + degreeOf entries := by
  induction entries generalizing d with
  | nil =>
    cases h
    simp
  | cons e entries ih =>
    obtain ⟨d₁, h₁, h₂⟩ := Option.bind_eq_some_iff.mp h
    rw [ih h₂, degree_addAt? h₁, degreeOf_cons, add_assoc]

theorem degree_ofPairs? {d : Dimension} {pairs : List (Base × Exponent)}
    (h : ofPairs? pairs = some d) : d.degree = degreeOf pairs := by
  rw [degree_addAll? h, degree_dimensionless, zero_add]

/-- Entries sorted by base add up to their view as a function. -/
theorem degreeOf_sorted {entries : List (Base × Exponent)} (hs : Sorted entries) (b : Base) :
    degreeOf entries b = ((find? b entries).getD 0).value := by
  induction entries with
  | nil => rfl
  | cons e entries ih =>
    obtain ⟨c, x⟩ := e
    have hc := List.pairwise_cons.mp hs
    rw [degreeOf_cons, Pi.add_apply, ih hc.2, find?]
    by_cases hb : b = c
    · subst hb
      have hn : find? b entries = none := find?_eq_none_of_lt hc.1
      simp [hn, Std.ReflCmp.compare_self]
    · have hne : compare b c ≠ .eq := fun h => hb (Std.LawfulEqCmp.eq_of_compare h)
      simp [hb, hne]

theorem degreeOf_entries (d : Dimension) : degreeOf d.entries = d.degree :=
  funext fun b => degreeOf_sorted d.sorted b

theorem degree_multiply? {a b c : Dimension} (h : a.multiply? b = some c) :
    c.degree = a.degree + b.degree := by
  rw [degree_addAll? h, degreeOf_entries]

/-! ### Multiples -/

theorem degree_invert? {a b : Dimension} (h : a.invert? = some b) : b.degree = -a.degree := by
  funext c
  exact Exponent.value_neg? (exponent_mapExponents? h rfl c)

theorem degree_divide? {a b c : Dimension} (h : a.divide? b = some c) :
    c.degree = a.degree - b.degree := by
  obtain ⟨b', hb, hc⟩ := Option.bind_eq_some_iff.mp h
  rw [degree_multiply? hc, degree_invert? hb, sub_eq_add_neg]

theorem zero_mul? (p : Exponent) : Exponent.mul? 0 p = some 0 := by
  have h : (0 : Exponent).value * p.value = (0 : Exponent).value := by simp
  rw [Exponent.mul?, h, Exponent.ofRat?_value]

theorem degree_power? {a b : Dimension} {p : Exponent} (h : a.power? p = some b) :
    b.degree = p.value • a.degree := by
  unfold power? at h
  split at h
  · rename_i hp
    cases h
    simp [hp]
  · funext c
    have hc := Exponent.value_mul? (exponent_mapExponents? h (zero_mul? p) c)
    rw [Pi.smul_apply, smul_eq_mul, mul_comm]
    exact hc

end Metrology.Dimension
