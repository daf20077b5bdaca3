import Metrology.Proofs.Dimension.Reading
import Metrology.Proofs.Quantity.Degree

/-!
# What a text says of a dimension

The text of a dimension lists the symbols of its bases with their exponents.  It is taken apart like that
of any product of words (`productText_injective`), so what is left to know is the base of a symbol.  A
symbol alone does not tell it: a custom base may be called like one of the system.  A base that was made
from a name is not, as the name is resolved first; so if these names are words (`Base.IsSpelled`), the
entries can be read off the text (`eq_of_text_eq`).

Two quantities are refused for their dimensions exactly when these differ (`valueOf_eq_error_iff`), and
then the two dimensions that the error shows are written differently (`texts_tell_dimensions`).
-/

namespace Metrology

open Result

/-! ### Bases -/

/-- A base that lies outside the system was made from a name that is a word. -/
def Base.IsSpelled (b : Base) : Prop :=
  b.isCustom = true → ∃ s, IsWord s ∧ b = ofName s

namespace Base.IsSpelled

variable {b : Base}

theorem isNamed (h : b.IsSpelled) : b.IsNamed :=
  fun hb => (h hb).imp fun _ => And.right

/-- A base that is spelled is written as a word. -/
theorem isWord_symbol (h : b.IsSpelled) : IsWord b.symbol := by
  cases b with
  | custom name =>
    obtain ⟨s, hs, hb⟩ := h rfl
    -- the symbol and the name of a custom base are both the name that it was made from
    obtain rfl : s = name := (Base.eq_symbol_or_eq_name hb.symm).elim id id
    exact hs
  | _ => decide +kernel

end Base.IsSpelled

/-! ### Dimensions -/

namespace Dimension

variable {a b : Dimension}

/-- All bases of the dimension are spelled. -/
def IsSpelled (d : Dimension) : Prop :=
  ∀ e ∈ d.entries, e.1.IsSpelled

/-- The factors that a dimension is written as. -/
def symbolFactors (d : Dimension) : List (String × Exponent) :=
  d.entries.map fun e => (e.1.symbol, e.2)

theorem IsSpelled.isWord (h : a.IsSpelled) : ∀ f ∈ a.symbolFactors, IsWord f.1 := by
  intro f hf
  obtain ⟨e, he, rfl⟩ := List.mem_map.mp hf
  exact (h e he).isWord_symbol

/-- The bases of a dimension are found again under their symbols. -/
theorem IsSpelled.map_ofName (h : a.IsSpelled) :
    a.symbolFactors.map (fun f => (Base.ofName f.1, f.2)) = a.entries := by
  have hentry : ∀ e ∈ a.entries, (Base.ofName e.1.symbol, e.2) = e := by
    intro e he
    rw [Base.ofName_symbol_of_isNamed (h e he).isNamed]
  rw [symbolFactors, List.map_map]
  exact (List.map_congr_left hentry).trans (List.map_id _)

/-- Dimensions that are written alike are the same. -/
theorem eq_of_text_eq (ha : a.IsSpelled) (hb : b.IsSpelled) (h : a.text = b.text) : a = b := by
  have hfactors : a.symbolFactors = b.symbolFactors :=
    productText_injective ha.isWord hb.isWord h
  apply ext
  rw [← ha.map_ofName, hfactors, hb.map_ofName]

end Dimension

/-- A value is not taken to the unit of another one exactly when their dimensions differ, and the error
shows both. -/
theorem Quantity.valueOf_eq_error_iff {α : Type} [Scalar α] {p q : Quantity α} {e : MeasureError α} :
    p.valueOf q = .error e ↔
      p.dimension ≠ q.dimension ∧ e = .dimensionMismatch p.dimension q.dimension := by
  constructor
  · intro h
    have hne : p.dimension ≠ q.dimension := by
      intro hd
      rw [valueOf_eq_ok_iff.mpr ⟨hd, rfl⟩] at h
      cases h
    rw [valueOf, if_neg hne] at h
    exact ⟨hne, (Except.error.inj h).symm⟩
  · rintro ⟨hne, rfl⟩
    exact if_neg hne

namespace Dimension

variable {a b : Dimension}

/-- **Texts tell dimensions.**  Two dimensions with any exponents, whose custom bases were made from
names that are words, are written alike only if they are the same.  So where a sum, a difference, a
comparison or a remainder is refused for the dimensions of its operands, the error shows two dimensions
that are written differently. -/
theorem texts_tell_dimensions (ha : a.IsSpelled) (hb : b.IsSpelled) :
    (a.text = b.text ↔ a = b) ∧
      ∀ (p q : Quantity Float) (e : MeasureError Float), p.dimension = a → q.dimension = b →
        (p.valueOf q = .error e ↔ e = .dimensionMismatch a b ∧ a.text ≠ b.text) := by
  have htext : a.text = b.text ↔ a = b := ⟨eq_of_text_eq ha hb, congrArg text⟩
  refine ⟨htext, ?_⟩
  rintro p q e rfl rfl
  rw [Quantity.valueOf_eq_error_iff, Ne, Ne, htext, and_comm]

/-- A root of information in a squared time, and the same without the root: both are spelled, and a
quantity of the one is refused for the other, with an error that shows two texts. -/
theorem texts_tell_dimensions_information :
    let a := (ofSmall [(.time, -2)]).set (.ofName "information") .half
    let b := ofSmall [(.time, -2), (.ofName "information", 1)]
    a.IsSpelled ∧ b.IsSpelled ∧ a.text = "T^-2 information^1/2" ∧ b.text = "T^-2 information" ∧
      a ≠ b ∧ Quantity.valueOf ⟨1, .base "p" a⟩ ⟨1, .base "q" b⟩ =
        (.error (.dimensionMismatch a b) : Except (MeasureError Float) Float) := by
  intro a b
  have ha : a.IsSpelled := by
    have hword : ∀ e ∈ a.entries, IsWord e.1.symbol ∧ e.1 = Base.ofName e.1.symbol := by
      decide +kernel
    exact fun e he _ => ⟨_, hword e he⟩
  have hb : b.IsSpelled := by
    have hword : ∀ e ∈ b.entries, IsWord e.1.symbol ∧ e.1 = Base.ofName e.1.symbol := by
      decide +kernel
    exact fun e he _ => ⟨_, hword e he⟩
  have hta : a.text = "T^-2 information^1/2" := by decide +kernel
  have htb : b.text = "T^-2 information" := by decide +kernel
  have hne : a.text ≠ b.text := by
    rw [hta, htb]
    decide
  obtain ⟨hiff, hrefused⟩ := texts_tell_dimensions ha hb
  exact ⟨ha, hb, hta, htb, mt hiff.mpr hne, (hrefused _ _ _ rfl rfl).mpr ⟨rfl, hne⟩⟩

end Dimension

end Metrology
