import Metrology.Dimension.Base
import Metrology.ProductText
import Metrology.SortedEntries

/-!
# Dimensions

A dimension is a product of powers of base dimensions.  It is kept as the entries of its non-zero
exponents in the order of the bases, so two dimensions are equal exactly when all their exponents
are (`ext_exponent`).  `exponent` is the view: `exponent_set` and `exponent_mapExponents?` say what
the two ways to build a dimension do to it, and the algebra follows.

Exponents are words, so the operations are partial: they are undefined when an exponent of the
result, or a number met while adding two exponents, does not fit.
-/

namespace Metrology

open SortedEntries

/-- The exponents of the base dimensions that are not zero, in the order of the bases. -/
structure Dimension where
  entries : List (Base × Exponent)
  sorted : Sorted entries
  nonzero : ∀ e ∈ entries, e.2 ≠ 0

namespace Dimension

theorem ext {a b : Dimension} (h : a.entries = b.entries) : a = b := by
  cases a; cases b; simp_all

instance : DecidableEq Dimension := fun a b =>
  if h : a.entries = b.entries then .isTrue (ext h) else .isFalse fun h' => h (h' ▸ rfl)

/-- The dimension of a plain number. -/
def dimensionless : Dimension :=
  ⟨[], .nil, fun _ h => nomatch h⟩

/-- The exponent of a base dimension. -/
def exponent (d : Dimension) (b : Base) : Exponent :=
  (find? b d.entries).getD 0

/-- The dimension with one exponent replaced. -/
def set (d : Dimension) (b : Base) (x : Exponent) : Dimension :=
  if h : x = 0 then
    ⟨erase b d.entries, d.sorted.erase b, fun e he => d.nonzero e ((erase_sublist b _).mem he)⟩
  else
    ⟨put b x d.entries, d.sorted.put b x, fun e he => by
      rcases mem_of_mem_put he with rfl | he
      · exact h
      · exact d.nonzero e he⟩

/-- A base dimension as a dimension. -/
def of (b : Base) : Dimension :=
  dimensionless.set b 1

theorem exponent_set (d : Dimension) (b c : Base) (x : Exponent) :
    (d.set b x).exponent c = if c = b then x else d.exponent c := by
  have hc : compare c b = .eq ↔ c = b := Std.LawfulEqCmp.compare_eq_iff_eq
  unfold set
  split
  · rename_i h
    simp only [exponent, find?_erase d.sorted, hc]
    split <;> simp [h]
  · simp only [exponent, find?_put, hc]
    split <;> simp

/-- The stored exponent of a base is not zero. -/
theorem exponent_ne_zero_of_find? {d : Dimension} {b : Base} {x : Exponent}
    (h : find? b d.entries = some x) : x ≠ 0 :=
  d.nonzero (b, x) (mem_of_find? h)

theorem find?_eq_none_iff_exponent {d : Dimension} {b : Base} :
    find? b d.entries = none ↔ d.exponent b = 0 := by
  unfold exponent
  cases h : find? b d.entries with
  | none => simp
  | some x => simpa using exponent_ne_zero_of_find? h

/-- Dimensions are equal when their exponents are. -/
theorem ext_exponent {a b : Dimension} (h : ∀ c, a.exponent c = b.exponent c) : a = b := by
  refine ext (a.sorted.ext b.sorted fun c => ?_)
  have hc := h c
  unfold exponent at hc
  cases ha : find? c a.entries with
  | none =>
    rw [ha] at hc
    exact (find?_eq_none_iff_exponent.mpr (show b.exponent c = 0 from hc.symm)).symm
  | some x =>
    cases hb : find? c b.entries with
    | none => exact absurd (by simpa [ha, hb] using hc) (exponent_ne_zero_of_find? ha)
    | some y => simpa [ha, hb] using hc

/-- The dimension with given small exponents; of two for one base the last counts. -/
def ofSmall (exponents : List (Base × Int8)) : Dimension :=
  exponents.foldl (fun d e => d.set e.1 (.ofInt8 e.2)) dimensionless

/-! ### Algebra -/

/-- Adds to the exponent of one base. -/
def addAt? (d : Dimension) (b : Base) (x : Exponent) : Option Dimension :=
  ((d.exponent b).add? x).map (d.set b)

/-- Adds a list of exponents from left to right. -/
def addAll? (d : Dimension) : List (Base × Exponent) → Option Dimension
  | [] => some d
  | e :: entries => (d.addAt? e.1 e.2).bind fun d => d.addAll? entries

/-- The dimension with given exponents; exponents of one base are added. -/
def ofPairs? (pairs : List (Base × Exponent)) : Option Dimension :=
  dimensionless.addAll? pairs

/-- Applies a partial operation to the exponents of a list of entries and drops the zeros. -/
def mapEntries? (f : Exponent → Option Exponent) :
    List (Base × Exponent) → Option (List (Base × Exponent))
  | [] => some []
  | (b, x) :: entries =>
    match f x, mapEntries? f entries with
    | some y, some mapped => some (if y = 0 then mapped else (b, y) :: mapped)
    | _, _ => none

theorem keys_mapEntries? {f : Exponent → Option Exponent} {entries mapped : List (Base × Exponent)}
    (h : mapEntries? f entries = some mapped) :
    (mapped.map Prod.fst).Sublist (entries.map Prod.fst) := by
  induction entries generalizing mapped with
  | nil => cases h; exact .slnil
  | cons e entries ih =>
    simp only [mapEntries?] at h
    split at h
    · rename_i hm
      cases h
      split
      · exact (ih hm).cons _
      · exact (ih hm).cons_cons _
    · cases h

theorem nonzero_mapEntries? {f : Exponent → Option Exponent}
    {entries mapped : List (Base × Exponent)} (h : mapEntries? f entries = some mapped) :
    ∀ e ∈ mapped, e.2 ≠ 0 := by
  induction entries generalizing mapped with
  | nil => cases h; exact fun _ h => nomatch h
  | cons e entries ih =>
    simp only [mapEntries?] at h
    split at h
    · rename_i hm
      cases h
      split
      · exact ih hm
      · rename_i hy
        intro e he
        rcases List.mem_cons.mp he with rfl | he
        · exact hy
        · exact ih hm e he
    · cases h

theorem mapEntries?_eq_none_of_find? {f : Exponent → Option Exponent}
    {entries : List (Base × Exponent)} {b : Base} {x : Exponent} (h : find? b entries = some x)
    (hx : f x = none) : mapEntries? f entries = none := by
  induction entries with
  | nil => cases h
  | cons e entries ih =>
    obtain ⟨c, y⟩ := e
    simp only [find?] at h
    split at h
    · cases h
      simp [mapEntries?, hx]
    · cases hy : f y <;> simp [mapEntries?, hy, ih h]

/-- Applies a partial operation to all exponents. -/
def mapExponents? (f : Exponent → Option Exponent) (d : Dimension) : Option Dimension :=
  match h : mapEntries? f d.entries with
  | none => none
  | some mapped => some ⟨mapped, d.sorted.sublist_keys (keys_mapEntries? h), nonzero_mapEntries? h⟩

theorem find?_mapEntries? {f : Exponent → Option Exponent} {entries mapped : List (Base × Exponent)}
    (hs : Sorted entries) (h : mapEntries? f entries = some mapped) (b : Base) :
    find? b mapped = ((find? b entries).bind f).filter (· ≠ 0) := by
  induction entries generalizing mapped with
  | nil => cases h; rfl
  | cons e entries ih =>
    obtain ⟨c, x⟩ := e
    have hc := List.pairwise_cons.mp hs
    simp only [mapEntries?] at h
    split at h
    · rename_i y tail hy ht
      cases h
      have hn : find? c tail = none := find?_eq_none_of_lt fun l hl =>
        hc.1 l ((keys_mapEntries? ht).mem hl)
      by_cases hb : compare b c = .eq
      · cases Std.LawfulEqCmp.eq_of_compare hb
        by_cases hz : y = 0 <;> simp [find?, hz, hy, hn, Option.filter]
      · by_cases hz : y = 0 <;> simp [find?, hz, hb, ih hc.2 ht]
    · cases h

theorem exponent_mapExponents? {f : Exponent → Option Exponent} {a b : Dimension}
    (h : a.mapExponents? f = some b) (h0 : f 0 = some 0) (c : Base) :
    f (a.exponent c) = some (b.exponent c) := by
  unfold mapExponents? at h
  split at h
  · cases h
  · rename_i mapped hm
    cases h
    have hf := find?_mapEntries? a.sorted hm c
    unfold exponent
    cases ha : find? c a.entries with
    | none => simp [hf, ha, h0]
    | some x =>
      cases hx : f x with
      | none => exact absurd (mapEntries?_eq_none_of_find? ha hx) (by simp [hm])
      | some y =>
        by_cases hy : y = 0 <;> simp [hf, ha, hx, hy, Option.filter]

/-- The product of two dimensions: exponents are added. -/
def multiply? (a b : Dimension) : Option Dimension :=
  a.addAll? b.entries

/-- The reciprocal of a dimension: exponents are negated. -/
def invert? (d : Dimension) : Option Dimension :=
  d.mapExponents? Exponent.neg?

/-- The quotient of two dimensions, the product with the reciprocal of the second. -/
def divide? (a b : Dimension) : Option Dimension :=
  b.invert?.bind a.multiply?

/-- A power of a dimension: exponents are multiplied. -/
def power? (d : Dimension) (p : Exponent) : Option Dimension :=
  if p = 0 then some dimensionless else d.mapExponents? (·.mul? p)

/-! ### Queries and text -/

/-- Whether all exponents are zero. -/
def isDimensionless (d : Dimension) : Bool :=
  d.entries.isEmpty

/-- Whether all exponents are integers. -/
def isIntegral (d : Dimension) : Bool :=
  d.entries.all fun e => e.2.isInteger

/-- The text of a dimension, the product of its bases. -/
def text (d : Dimension) : String :=
  productText (d.entries.map fun e => (e.1.symbol, e.2))

end Dimension

end Metrology
