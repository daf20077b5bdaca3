import Metrology.Proofs.Dimension.Product
import Metrology.Proofs.Exponent.Range

/-!
# When operations on dimensions overflow

An operation on dimensions goes base by base, and it is undefined exactly when it is so at some base
(`mapExponents?_eq_none_iff`, `multiply?_eq_none_iff`).  For reciprocals and powers this means that an
exponent of the exact result does not fit.  Products and quotients are undefined then too, but not only
then (`overflow_laws`): a sum of exponents is lost when it fits and a number met on the way does not
(`Lost`), and a quotient is lost when the divisor has no reciprocal, even if it is divided by itself
(`overflow_not_real`).
-/

namespace Metrology

open SortedEntries

/-- The sum fits, but it cannot be taken over the least common denominator within words. -/
def Exponent.Lost (x y : ℚ) : Prop :=
  Fits (x + y) ∧ ¬SumFits x y

/-- Half the greatest word. -/
def Exponent.halfGreatest : Exponent :=
  ⟨mkRat 0x7FFFFFFFFFFFFFFF 2, by decide +kernel, by decide +kernel⟩

/-- The least word. -/
def Exponent.least : Exponent :=
  ⟨-0x8000000000000000, by decide +kernel, by decide +kernel⟩

namespace Dimension

open Exponent

/-- A power of a length. -/
def lengthTo (x : Exponent) : Dimension :=
  dimensionless.set .length x

variable {a b d : Dimension} {p : Exponent} {c : Base} {f : Exponent → Option Exponent}

/-! ### Base by base -/

theorem mapEntries?_eq_none_iff {entries : List (Base × Exponent)} (h : Sorted entries) :
    mapEntries? f entries = none ↔ ∃ c x, find? c entries = some x ∧ f x = none := by
  refine ⟨fun hnone => ?_, fun ⟨c, x, hx, hf⟩ => mapEntries?_eq_none_of_find? hx hf⟩
  induction entries with
  | nil => cases hnone
  | cons e entries ih =>
    obtain ⟨b, y⟩ := e
    obtain ⟨hfirst, htail⟩ := List.pairwise_cons.mp h
    cases hy : f y with
    | none => exact ⟨b, y, by rw [find?, if_pos Std.ReflCmp.compare_self], hy⟩
    | some z =>
      have hrest : mapEntries? f entries = none := by
        cases hm : mapEntries? f entries with
        | none => rfl
        | some mapped => simp [mapEntries?, hy, hm] at hnone
      obtain ⟨c, x, hx, hf⟩ := ih htail hrest
      have hne : compare c b ≠ .eq := by
        intro heq
        rw [Std.LawfulEqCmp.eq_of_compare heq, find?_eq_none_of_lt hfirst] at hx
        cases hx
      exact ⟨c, x, by rw [find?, if_neg hne, hx], hf⟩

/-- Exponents cannot be mapped exactly when that of some base cannot. -/
theorem mapExponents?_eq_none_iff (h0 : f 0 = some 0) :
    d.mapExponents? f = none ↔ ∃ c, f (d.exponent c) = none := by
  have hentries : d.mapExponents? f = none ↔ mapEntries? f d.entries = none := by
    unfold mapExponents?
    split <;> simp_all
  rw [hentries, mapEntries?_eq_none_iff d.sorted]
  refine exists_congr fun c => ?_
  unfold exponent
  cases find? c d.entries <;> simp [h0]

theorem invert?_eq_none_iff : d.invert? = none ↔ ∃ c, ¬Fits (-(d.exponent c).value) := by
  simp only [invert?, mapExponents?_eq_none_iff (f := Exponent.neg?) rfl, Exponent.neg?,
    ofRat?_eq_none_iff_not_fits]

theorem power?_eq_none_iff :
    d.power? p = none ↔ ∃ c, ¬Fits ((d.exponent c).value * p.value) := by
  unfold power?
  split
  · rename_i hp
    have hzero : Fits 0 := fits_value 0
    simp [hp, hzero]
  · rw [mapExponents?_eq_none_iff (f := (·.mul? p)) (zero_mul? p)]
    simp only [Exponent.mul?, ofRat?_eq_none_iff_not_fits]

theorem multiply?_eq_none_iff_sumFits :
    a.multiply? b = none ↔ ∃ c, ¬SumFits (a.exponent c).value (b.exponent c).value := by
  simp only [multiply?_eq_none_iff, add?_eq_none_iff]

theorem divide?_eq_none_iff :
    a.divide? b = none ↔ ∃ c, ¬Fits (-(b.exponent c).value) ∨
      ¬SumFits (a.exponent c).value (-(b.exponent c).value) := by
  rw [divide?, exists_or, ← invert?_eq_none_iff]
  cases hb : b.invert? with
  | none => simp
  | some e =>
    have hvalue (c : Base) : (e.exponent c).value = -(b.exponent c).value :=
      value_neg? (exponent_mapExponents? hb rfl c)
    simp [multiply?_eq_none_iff_sumFits, hvalue]

/-! ### Overflow and loss -/

/-- A sum cannot be taken when it does not fit, or when it is lost. -/
theorem not_sumFits_iff {x y : ℚ} : ¬SumFits x y ↔ ¬Fits (x + y) ∨ Lost x y := by
  have hfits : SumFits x y → Fits (x + y) := fits_of_sumFits
  unfold Lost
  tauto

theorem isInteger_exponent (h : d.isIntegral = true) (c : Base) :
    (d.exponent c).isInteger = true := by
  unfold exponent
  cases hc : find? c d.entries with
  | none => rfl
  | some x => exact List.all_eq_true.mp h (c, x) (mem_of_find? hc)

/-- No sum of integers is lost. -/
theorem not_lost_of_isIntegral {x y : Exponent} (hx : x.isInteger = true)
    (hy : y.isInteger = true) : ¬Lost x.value y.value :=
  fun ⟨hfits, hsum⟩ => hsum ((sumFits_iff_of_isInteger hx hy).mpr hfits)

theorem not_lost_neg_of_isIntegral {x y : Exponent} (hx : x.isInteger = true)
    (hy : y.isInteger = true) (h : Fits (-y.value)) : ¬Lost x.value (-y.value) := by
  have hneg : (-y.value) = (-y.value.num : ℤ) := by
    rw [Int.cast_neg, ← value_eq_num hy]
  exact not_lost_of_isIntegral (y := ⟨-y.value, h.1, h.2⟩) hx (isInteger_of_value_eq hneg)

/-- A dimension has itself as a divisor when it has a reciprocal. -/
theorem divide?_self_iff :
    d.divide? d = some dimensionless ↔ ∀ c, Fits (-(d.exponent c).value) := by
  constructor
  · intro h c
    by_contra hc
    have hnone : d.divide? d = none := divide?_eq_none_iff.mpr ⟨c, .inl hc⟩
    rw [hnone] at h
    cases h
  · intro h
    cases hd : d.divide? d with
    | none =>
      obtain ⟨c, hc | hc⟩ := divide?_eq_none_iff.mp hd
      · exact absurd (h c) hc
      · exact absurd (sumFits_neg_self (h c)) hc
    | some e =>
      have hdegree : e.degree = dimensionless.degree := by
        rw [degree_divide? hd, sub_self, degree_dimensionless]
      rw [degree_injective hdegree]

/-- **Overflow of dimensions.**  Reciprocals and powers are undefined exactly when an exponent of the
exact result does not fit.  Products are undefined exactly when an exponent of the exact result does not
fit or is lost in the sum, and quotients when, besides, the divisor has no reciprocal.  Nothing is lost
between integers, so between dimensions with integral exponents a product is undefined only if the exact
one does not fit.  A dimension divided by itself is no dimension exactly when none of its exponents has
the least word as its numerator, that is, when it has a reciprocal. -/
theorem overflow_laws (a b : Dimension) (p : Exponent) :
    (a.invert? = none ↔ ∃ c, ¬Fits (-(a.exponent c).value)) ∧
    (a.power? p = none ↔ ∃ c, ¬Fits ((a.exponent c).value * p.value)) ∧
    (a.multiply? b = none ↔ ∃ c, ¬Fits ((a.exponent c).value + (b.exponent c).value) ∨
      Lost (a.exponent c).value (b.exponent c).value) ∧
    (a.divide? b = none ↔ ∃ c, ¬Fits ((a.exponent c).value - (b.exponent c).value) ∨
      ¬Fits (-(b.exponent c).value) ∨ Lost (a.exponent c).value (-(b.exponent c).value)) ∧
    (a.isIntegral = true → b.isIntegral = true → ∀ c,
      ¬Lost (a.exponent c).value (b.exponent c).value ∧
        (Fits (-(b.exponent c).value) → ¬Lost (a.exponent c).value (-(b.exponent c).value))) ∧
    (a.divide? a = some dimensionless ↔ ∀ c, (a.exponent c).value.num ≠ -0x8000000000000000) := by
  refine ⟨invert?_eq_none_iff, power?_eq_none_iff, ?_, ?_, fun ha hb c => ?_,
    divide?_self_iff.trans (forall_congr' fun c => fits_neg_iff)⟩
  · rw [multiply?_eq_none_iff_sumFits]
    exact exists_congr fun c => not_sumFits_iff
  · rw [divide?_eq_none_iff]
    refine exists_congr fun c => ?_
    rw [not_sumFits_iff, ← sub_eq_add_neg, or_left_comm]
  · have hac := isInteger_exponent ha c
    have hbc := isInteger_exponent hb c
    exact ⟨not_lost_of_isIntegral hac hbc, not_lost_neg_of_isIntegral hac hbc⟩

/-- Between the integral exponents of velocities and areas nothing is lost, and a velocity divided by
itself is no dimension. -/
theorem overflow_laws_velocity :
    velocity.isIntegral = true ∧ area.isIntegral = true ∧
      (∀ c, ¬Lost (velocity.exponent c).value (area.exponent c).value) ∧
      Fits (-(area.exponent .length).value) ∧
      ¬Lost (velocity.exponent .length).value (-(area.exponent .length).value) ∧
      velocity.divide? velocity = some dimensionless := by
  obtain ⟨hinvert, -, -, -, hintegral, hself⟩ := overflow_laws velocity area .half
  have hv : velocity.isIntegral = true := by decide +kernel
  have ha : area.isIntegral = true := by decide +kernel
  have hneg : Fits (-(area.exponent .length).value) := by decide +kernel
  have hsome : velocity.invert? ≠ none := by decide +kernel
  refine ⟨hv, ha, fun c => (hintegral hv ha c).1, hneg, (hintegral hv ha .length).2 hneg,
    hself.mpr fun c => fits_neg_iff.mp ?_⟩
  by_contra hc
  exact hsome (hinvert.mpr ⟨c, hc⟩)

/-- One half of the greatest word and one half add up to a word, but over the denominator 2 their sum
is one more than the greatest word.  The least word has no negation, so a dimension with this exponent
cannot be divided by itself. -/
theorem overflow_not_real :
    (lengthTo halfGreatest).multiply? (lengthTo .half) = none ∧
      (∀ c, Fits (((lengthTo halfGreatest).exponent c).value + ((lengthTo .half).exponent c).value)) ∧
      (lengthTo least).divide? (lengthTo least) = none ∧
      ∀ c, Fits (((lengthTo least).exponent c).value - ((lengthTo least).exponent c).value) := by
  refine ⟨by decide +kernel, fun c => ?_, by decide +kernel, fun c => ?_⟩
  · have hnone : dimensionless.exponent c = 0 := rfl
    rw [lengthTo, lengthTo, exponent_set, exponent_set, hnone]
    split
    · decide +kernel
    · rw [value_zero, add_zero]
      exact fits_value 0
  · rw [sub_self]
    exact fits_value 0

end Dimension

end Metrology
