import Metrology.Proofs.Binary64.Rounding
import Metrology.Proofs.UnitOfMeasure.Built

/-!
# Grades of units

The scale of a product is computed from those of its operands, unless the product is an atom of the
record, whose own scale it then has.  So what is known of the scale of a product has to be known of
the units it was composed of and of the atoms on their records (`Graded`).  A property of scales that
products and quotients keep (`IsGrade`) is kept by integer powers (`IsGrade.raise`), and then by the
composition of units.  To be one is such a property, and so is to be positive and finite.
-/

namespace Metrology

open Binary64 Result

/-- A property of scales that products and quotients have if their operands have it and they are
usable. -/
structure IsGrade (P : Float → Prop) : Prop where
  one : P 1
  mul : ∀ {x y}, P x → P y → Scalar.isFactor (x * y) = true → P (x * y)
  div : ∀ {x y}, P x → P y → Scalar.isFactor (x / y) = true → P (x / y)

theorem isGrade_one : IsGrade (· = 1) where
  one := rfl
  mul hx hy _ := by
    rw [hx, hy]
    exact eq_of_toBits_eq (by decide +kernel)
  div hx hy _ := by
    rw [hx, hy]
    exact eq_of_toBits_eq (by decide +kernel)

theorem isGrade_pos : IsGrade (0 < toRat ·) where
  one := toRat_one ▸ one_pos
  mul hx hy h :=
    (isRounded_mul (toRat_pos_iff.mp hx).1 (toRat_pos_iff.mp hy).1).toRat_pos h (mul_pos hx hy).le
  div hx hy h :=
    (isRounded_div (toRat_pos_iff.mp hx).1 (isFactor_of_div h).2).toRat_pos h (div_pos hx hy).le

namespace IsGrade

variable {P : Float → Prop} {x result s : Float}

/-- Squares that are not multiplied in may be unusable. -/
theorem powBits (hP : IsGrade P) {bits n : Nat} (hn : n < 2 ^ bits) (hr : P result)
    (hx : P x ∨ n = 0) (h : Scalar.isFactor (Scalar.powBits bits result x n) = true) :
    P (Scalar.powBits bits result x n) := by
  induction bits generalizing result x n with
  | zero => exact hr
  | succ bits ih =>
    have hhalf : n / 2 < 2 ^ bits := by rw [Nat.pow_succ] at hn; omega
    refine ih hhalf ?_ ?_ h
    · split
      · rename_i hodd
        refine hP.mul hr (hx.resolve_right (by omega)) ?_
        by_contra hnot
        rw [Bool.not_eq_true] at hnot
        have hlost := Scalar.isFactor_powBits (x := x * x) hhalf (.inl hnot)
        rw [Scalar.powBits, if_pos hodd, hlost] at h
        cases h
      · exact hr
    · by_cases h0 : n / 2 = 0
      · exact .inr h0
      · left
        have hx := hx.resolve_right (by omega)
        refine hP.mul hx hx ?_
        by_contra hnot
        rw [Bool.not_eq_true] at hnot
        have hlost : Scalar.isFactor (Scalar.powBits bits
            (if n % 2 = 1 then result * x else result) (x * x) (n / 2)) = false :=
          Scalar.isFactor_powBits hhalf (.inr ⟨hnot, h0⟩)
        rw [Scalar.powBits, hlost] at h
        cases h

theorem powNat (hP : IsGrade P) {n : Nat} (hx : P x)
    (h : Scalar.isFactor (Scalar.powNat x n) = true) : P (Scalar.powNat x n) := by
  refine hP.powBits ?_ hP.one (.inl hx) h
  by_cases h0 : n = 0
  · rw [h0]
    decide
  · exact (Nat.log2_lt h0).mp (Nat.lt_succ_self _)

/-- Integer powers by repeated squaring. -/
theorem raise (hP : IsGrade P) {p : Exponent} (hp : p.isInteger = true)
    (hlow : -0x80000000 ≤ p.value.num) (hhigh : p.value.num < 0x80000000) (hx : P x)
    (h : Scalar.raise x p = .ok s) (hs : Scalar.isFactor s = true) : P s := by
  unfold Scalar.raise at h
  rw [hp, if_pos rfl] at h
  split at h
  · cases h
  · cases h
    unfold Scalar.powInt at hs ⊢
    rw [if_pos ⟨hlow, hhigh⟩] at hs ⊢
    split at hs
    · rename_i hneg
      rw [if_pos hneg]
      exact hP.div hP.one (hP.powNat hx (isFactor_of_div hs).2) hs
    · rename_i hneg
      rw [if_neg hneg]
      exact hP.powNat hx hs

end IsGrade

namespace UnitOfMeasure

/-- The scale of a unit has a property, and its offset is finite; so it is with the atoms that the unit
is composed of. -/
structure Graded (P : Float → Prop) (u : UnitOfMeasure Float) : Prop where
  scale : P u.scale
  offset : Scalar.isFinite u.offset = true
  factor : ∀ f ∈ u.factors, P f.1.scale ∧ Scalar.isFinite f.1.offset = true

variable {P : Float → Prop} {u v w : UnitOfMeasure Float}

theorem Graded.mono {Q : Float → Prop} (hPQ : ∀ x, P x → Q x) (h : Graded P u) : Graded Q u :=
  ⟨hPQ _ h.scale, h.offset, fun f hf => (h.factor f hf).imp_left (hPQ _)⟩

theorem graded_atom {a : Atom Float} :
    Graded P (atom a) ↔ P a.scale ∧ Scalar.isFinite a.offset = true := by
  constructor
  · exact fun h => ⟨h.scale, h.offset⟩
  · rintro ⟨hs, ho⟩
    refine ⟨hs, ho, fun f hf => ?_⟩
    cases List.mem_singleton.mp hf
    exact ⟨hs, ho⟩

theorem Graded.withSymbol (h : Graded P u) (symbol : String) : Graded P (u.withSymbol symbol) :=
  graded_atom.mpr ⟨h.scale, h.offset⟩

theorem graded_one (hP : IsGrade P) : Graded P one :=
  ⟨hP.one, isFinite_zero, fun f hf => by cases hf⟩

theorem graded_of_compose {factors : List (Atom Float × Exponent)} {d : Dimension} {s : Float}
    (h : compose factors d s = .ok w) (hs : P s)
    (hf : ∀ f ∈ factors, P f.1.scale ∧ Scalar.isFinite f.1.offset = true) : Graded P w := by
  obtain ⟨-, hm, hw⟩ := composed_of_compose h
  have hfw := hm.invariant_atom (P := fun a => P a.scale ∧ Scalar.isFinite a.offset = true) hf
  rcases hw with ⟨a, rfl⟩ | hw
  · exact graded_atom.mpr (hfw (a, 1) (List.mem_singleton.mpr rfl))
  · rw [hw]
    exact ⟨hs, isFinite_zero, hfw⟩

theorem graded_of_multiply (hs : Scalar.isFactor (u.scale * v.scale) = true → P (u.scale * v.scale))
    (hu : Graded P u) (hv : Graded P v) (h : u.multiply v = .ok w) : Graded P w := by
  obtain ⟨-, -, d, -, hc⟩ := multiply_eq_ok_iff.mp h
  exact graded_of_compose hc (hs (composed_of_compose hc).1) fun f hf =>
    (List.mem_append.mp hf).elim (hu.factor f) (hv.factor f)

theorem Graded.multiply (hP : IsGrade P) (hu : Graded P u) (hv : Graded P v)
    (h : u.multiply v = .ok w) : Graded P w :=
  graded_of_multiply (hP.mul hu.scale hv.scale) hu hv h

theorem Graded.divide (hP : IsGrade P) (hu : Graded P u) (hv : Graded P v)
    (h : u.divide v = .ok w) : Graded P w := by
  obtain ⟨-, -, -, d, inverted, -, hi, hc⟩ := divide_eq_ok_iff.mp h
  have hfi := forall_atom_of_mapExponents?
    (P := fun a => P a.scale ∧ Scalar.isFinite a.offset = true) hi hv.factor
  exact graded_of_compose hc (hP.div hu.scale hv.scale (composed_of_compose hc).1) fun f hf =>
    (List.mem_append.mp hf).elim (hu.factor f) (hfi f)

theorem Graded.invert (hP : IsGrade P) (hu : Graded P u) (h : u.invert = .ok w) : Graded P w :=
  (graded_one hP).divide hP hu h

theorem Graded.power (hP : IsGrade P) {p : Exponent} (hp : p.isInteger = true)
    (hlow : -0x80000000 ≤ p.value.num) (hhigh : p.value.num < 0x80000000) (hu : Graded P u)
    (h : u.power p = .ok w) : Graded P w := by
  rcases power_eq_ok_iff.mp h with
    ⟨-, rfl⟩ | ⟨-, -, rfl⟩ | ⟨-, -, -, d, raised, s, -, hr, hraise, hc⟩
  · exact hu
  · exact graded_one hP
  · exact graded_of_compose hc
      (hP.raise hp hlow hhigh hu.scale hraise (composed_of_compose hc).1)
      (forall_atom_of_mapExponents?
        (P := fun a => P a.scale ∧ Scalar.isFinite a.offset = true) hr hu.factor)

end UnitOfMeasure

end Metrology
