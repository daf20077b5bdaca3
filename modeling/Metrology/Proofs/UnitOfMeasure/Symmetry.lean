import Metrology.Proofs.Binary64.Unpacked
import Metrology.Proofs.Dimension.Product
import Metrology.Proofs.UnitOfMeasure.Isolation
import Metrology.Proofs.UnitOfMeasure.Reduced

/-!
# Products in either order

The factors of a product are found by adding those of the right operand to those of the left one by one.
The operands are reduced, so a factor meets the like of itself once at most, and it meets the exponent
that this has in the operand: no addition depends on those before it (`addable_of_addFactor`).  So the
factors can be added exactly when the exponents of like atoms can (`exists_addFactors_iff`), which does
not depend on the order of the operands.  Nor does the dimension or the scale, and these are checked
first in either order.  So products of both orders fail for causes of one kind, or are equal units with the
same factors up to order and likeness (`multiply_symmetric`).
-/

namespace Metrology

/-- Two errors are of one kind, whatever they tell about their cause. -/
def MeasureError.SameKind {α : Type} (e e' : MeasureError α) : Prop :=
  e.ctorIdx = e'.ctorIdx

namespace UnitOfMeasure

open Result

variable {α : Type} [Scalar α] {l l' m r : List (Atom α × Exponent)} {f g : Atom α × Exponent}
  {d : Dimension} {s : α} {e : MeasureError α}

/-! ### Adding factors -/

/-- Adding a factor leaves those as they are that are not like it. -/
theorem mem_addFactor_iff (h : addFactor l g = .ok m) (hf : f.1.isLike g.1 = false) :
    f ∈ m ↔ f ∈ l := by
  induction l generalizing m with
  | nil =>
    have hne : f ≠ g := by
      rintro rfl
      rw [Atom.isLike_refl] at hf
      cases hf
    cases h
    simp [hne]
  | cons a l ih =>
    rw [addFactor] at h
    split at h
    · rename_i hlike
      split at h
      · rename_i sum hsum
        have hne : ∀ x, f ≠ (a.1, x) := by
          rintro x rfl
          rw [hf] at hlike
          cases hlike
        cases h
        simp [hne sum, hne a.2]
      · cases h
    · obtain ⟨m', hm', rfl⟩ := map_eq_ok.mp h
      simp [ih hm']

/-- The exponents of like atoms in two products can be added. -/
def Addable (l r : List (Atom α × Exponent)) : Prop :=
  ∀ f ∈ l, ∀ g ∈ r, f.1.isLike g.1 = true → f.2.add? g.2 ≠ none

variable [LawfulScalar α]

theorem Addable.symm (h : Addable l r) : Addable r l := by
  intro g hg f hf hlike
  rw [Exponent.add?_comm]
  exact h f hf g hg (Atom.isLike_symm hlike)

/-- A factor can be added exactly when its exponent can be added to that of its like. -/
theorem exists_addFactor_iff (hl : l.Pairwise fun f g => f.1.isLike g.1 = false) :
    (∃ m, addFactor l g = .ok m) ↔ ∀ f ∈ l, f.1.isLike g.1 = true → f.2.add? g.2 ≠ none := by
  induction l with
  | nil => simp [addFactor]
  | cons a l ih =>
    obtain ⟨ha, htail⟩ := List.pairwise_cons.mp hl
    rw [List.forall_mem_cons, addFactor]
    by_cases hlike : a.1.isLike g.1 = true
    · -- the like of `g` is found, and none after it is like `g`
      have hrest : ∀ f ∈ l, f.1.isLike g.1 = true → f.2.add? g.2 ≠ none := by
        intro f hf hfg
        have haf := Atom.isLike_trans hlike (Atom.isLike_symm hfg)
        rw [ha f hf] at haf
        cases haf
      rw [if_pos hlike]
      cases hsum : a.2.add? g.2 with
      | none => simp [hlike]
      | some sum => simpa [hlike] using hrest
    · rw [if_neg hlike, ← ih htail]
      simp [hlike, map_eq_ok]

/-- What is added to a product does not stand in the way of factors that are not like it. -/
theorem addable_of_addFactor (h : addFactor l g = .ok l') (hg : ∀ f ∈ r, g.1.isLike f.1 = false) :
    Addable l' r ↔ Addable l r := by
  have hmem : ∀ f ∈ r, ∀ a : Atom α × Exponent, a.1.isLike f.1 = true → (a ∈ l' ↔ a ∈ l) := by
    intro f hf a haf
    refine mem_addFactor_iff h (Bool.eq_false_iff.mpr fun hag => ?_)
    have hgf := Atom.isLike_trans (Atom.isLike_symm hag) haf
    rw [hg f hf] at hgf
    cases hgf
  constructor
  · intro hadd a ha f hf haf
    exact hadd a ((hmem f hf a haf).mpr ha) f hf haf
  · intro hadd a ha f hf haf
    exact hadd a ((hmem f hf a haf).mp ha) f hf haf

theorem exists_addFactors_iff (hl : l.Pairwise fun f g => f.1.isLike g.1 = false)
    (hr : r.Pairwise fun f g => f.1.isLike g.1 = false) :
    (∃ m, addFactors l r = .ok m) ↔ Addable l r := by
  induction r generalizing l with
  | nil => simp [addFactors, Addable]
  | cons g r ih =>
    obtain ⟨hg, hrest⟩ := List.pairwise_cons.mp hr
    have hcons : Addable l (g :: r) ↔
        (∀ f ∈ l, f.1.isLike g.1 = true → f.2.add? g.2 ≠ none) ∧ Addable l r := by
      simp only [Addable, List.forall_mem_cons, forall_and]
    rw [hcons, ← exists_addFactor_iff hl, addFactors]
    -- adding `g` keeps the product unlike, and adds nothing that the factors to come are like
    constructor
    · rintro ⟨m, h⟩
      obtain ⟨l', hl', hm⟩ := bind_eq_ok.mp h
      have hunlike := pairwise_unlike_of_addFactor hl' hl
      exact ⟨⟨l', hl'⟩, (addable_of_addFactor hl' hg).mp ((ih hunlike hrest).mp ⟨m, hm⟩)⟩
    · rintro ⟨⟨l', hl'⟩, hadd⟩
      have hunlike := pairwise_unlike_of_addFactor hl' hl
      obtain ⟨m, hm⟩ := (ih hunlike hrest).mpr ((addable_of_addFactor hl' hg).mpr hadd)
      exact ⟨m, bind_eq_ok.mpr ⟨l', hl', hm⟩⟩

/-- Factors that cannot be added in one order cannot in the other. -/
theorem addFactors_error_symm (hl : l.Pairwise fun f g => f.1.isLike g.1 = false)
    (hr : r.Pairwise fun f g => f.1.isLike g.1 = false) (h : addFactors l r = .error e) :
    ∃ e', addFactors r l = .error e' := by
  cases hswap : addFactors r l with
  | error e' => exact ⟨e', rfl⟩
  | ok m =>
    have hadd : Addable r l := (exists_addFactors_iff hr hl).mp ⟨m, hswap⟩
    obtain ⟨m', hm'⟩ := (exists_addFactors_iff hl hr).mpr hadd.symm
    cases h.symm.trans hm'

/-! ### Failures -/

omit [LawfulScalar α] in
theorem compose_eq_error_iff {factors : List (Atom α × Exponent)} :
    compose factors d s = .error e ↔
      (Scalar.isFactor s = false ∧ e = .invalidScale s) ∨
        (Scalar.isFactor s = true ∧ remaining factors = .error e) := by
  unfold compose remaining
  cases hs : Scalar.isFactor s <;> cases addFactors [] factors <;> simp [Except.map, eq_comm]

/-- What cannot be composed in one order cannot in the other. -/
theorem compose_error_symm (hl : Reduced l) (hr : Reduced r) (h : compose (l ++ r) d s = .error e) :
    ∃ e', compose (r ++ l) d s = .error e' ∧ e.SameKind e' := by
  rcases compose_eq_error_iff.mp h with ⟨hs, rfl⟩ | ⟨hs, hrest⟩
  · exact ⟨_, compose_eq_error_iff.mpr (.inl ⟨hs, rfl⟩), rfl⟩
  · rw [remaining_append hl, map_eq_error] at hrest
    obtain ⟨e', hswap⟩ := addFactors_error_symm hl.unlike hr.unlike hrest
    obtain ⟨overflow, rfl⟩ := eq_exponentOverflow_of_addFactors hrest
    obtain ⟨overflow', rfl⟩ := eq_exponentOverflow_of_addFactors hswap
    have hrest' : remaining (r ++ l) = .error (.exponentOverflow overflow') := by
      rw [remaining_append hr, map_eq_error]
      exact hswap
    exact ⟨_, compose_eq_error_iff.mpr (.inr ⟨hs, hrest'⟩), rfl⟩

variable {u v w w' : UnitOfMeasure Float} {e : MeasureError Float}

theorem multiply_error_symm (hu : Reachable u) (hv : Reachable v) (h : u.multiply v = .error e) :
    ∃ e', v.multiply u = .error e' ∧ e.SameKind e' := by
  by_cases haffine : u.isAffine = true ∨ v.isAffine = true
  · obtain ⟨use, hrefused⟩ := isRefused_multiply_iff.mpr haffine
    obtain ⟨use', hrefused'⟩ := isRefused_multiply_iff.mpr haffine.symm
    cases h.symm.trans hrefused
    exact ⟨_, hrefused', rfl⟩
  · obtain ⟨hlu, hlv⟩ := not_or.mp haffine
    rw [Bool.not_eq_true] at hlu hlv
    cases hd : u.dimension.multiply? v.dimension with
    | none =>
      have hd' := Dimension.multiply?_eq_none_comm.mp hd
      have hu' : u.multiply v = .error (.exponentOverflow (.product u.text v.text)) := by
        simp [multiply, hlu, hlv, hd]
      have hv' : v.multiply u = .error (.exponentOverflow (.product v.text u.text)) := by
        simp [multiply, hlu, hlv, hd']
      cases h.symm.trans hu'
      exact ⟨_, hv', rfl⟩
    | some d =>
      have hsome : v.dimension.multiply? u.dimension ≠ none := fun hnone =>
        absurd (Dimension.multiply?_eq_none_comm.mp hnone) (hd ▸ Option.some_ne_none d)
      obtain ⟨d', hd'⟩ := Option.ne_none_iff_exists'.mp hsome
      cases Dimension.agree_multiply_comm _ _ d d' hd hd'
      have hc : compose (u.factors ++ v.factors) d (u.scale * v.scale) = .error e := by
        simpa [multiply, hlu, hlv, hd] using h
      obtain ⟨e', hc', hkind⟩ := compose_error_symm hu.reduced hv.reduced hc
      refine ⟨e', ?_, hkind⟩
      simpa [multiply, hlu, hlv, hd', Binary64.mul_comm v.scale] using hc'

/-! ### Products -/

theorem sameExponents_of_multiply_comm (h : u.multiply v = .ok w) (h' : v.multiply u = .ok w') :
    SameExponents w.factors w'.factors := by
  intro c
  rw [exponentOf_multiply c h, exponentOf_multiply c h', add_comm]

/-- Products that are not atoms are equal in what was computed for them. -/
theorem beq_of_multiply_comm (hu : Reachable u) (hv : Reachable v) (h : u.multiply v = .ok w)
    (h' : v.multiply u = .ok w') : (w == w') = true := by
  have hw : Reachable w := .multiply hu hv h
  have hw' : Reachable w' := .multiply hv hu h'
  have hexp := sameExponents_of_multiply_comm h h'
  have hsymbol := symbol?_eq_of_sameExponents hw hw' hexp
  obtain ⟨-, -, d, hd, hc⟩ := multiply_eq_ok_iff.mp h
  obtain ⟨-, -, d', hd', hc'⟩ := multiply_eq_ok_iff.mp h'
  cases Dimension.agree_multiply_comm _ _ d d' hd hd'
  rw [Binary64.mul_comm] at hc'
  rcases (composed_of_compose hc).2.2 with ⟨a, rfl⟩ | heq
  · exact beq_of_sameExponents hw hw' hexp (Option.some_ne_none _)
  · rcases (composed_of_compose hc').2.2 with ⟨a, rfl⟩ | heq'
    · rw [heq] at hsymbol
      cases hsymbol
    · rw [heq, heq']
      exact Bool.or_eq_true_iff.mpr (.inl (isSame_iff.mpr ⟨rfl, rfl, rfl, rfl, rfl⟩))

/-- **Symmetry of products.**  The products of two reachable units in either order are equal units, both
with one symbol or both without, and with the same factors up to order and likeness; or both fail, for
causes of one kind. -/
theorem multiply_symmetric (hu : Reachable u) (hv : Reachable v) :
    (∃ w w', u.multiply v = .ok w ∧ v.multiply u = .ok w' ∧ (w == w') = true ∧
      w.symbol? = w'.symbol? ∧ SameUpToOrder w.factors w'.factors) ∨
    (∃ e e', u.multiply v = .error e ∧ v.multiply u = .error e' ∧ e.SameKind e') := by
  cases h : u.multiply v with
  | error e =>
    obtain ⟨e', h', hkind⟩ := multiply_error_symm hu hv h
    exact .inr ⟨e, e', rfl, h', hkind⟩
  | ok w =>
    cases h' : v.multiply u with
    | error e' =>
      obtain ⟨e, he, -⟩ := multiply_error_symm hv hu h'
      cases h.symm.trans he
    | ok w' =>
      have hw : Reachable w := .multiply hu hv h
      have hw' : Reachable w' := .multiply hv hu h'
      have hexp := sameExponents_of_multiply_comm h h'
      exact .inl ⟨w, w', rfl, rfl, beq_of_multiply_comm hu hv h h',
        symbol?_eq_of_sameExponents hw hw' hexp, hw.sameUpToOrder hw' hexp⟩

/-- The metre per second times the second kilogram, and the second kilogram times the metre per
second. -/
theorem multiply_symmetric_speed :
    ∃ speed v w w' : UnitOfMeasure Float,
      (base "m" (.of .length)).divide (base "s" (.of .time)) = .ok speed ∧
      (base "s" (.of .time)).multiply (base "kg" (.of .mass)) = .ok v ∧
      speed.multiply v = .ok w ∧ v.multiply speed = .ok w' ∧ (w == w') = true ∧
      w.symbol? = w'.symbol? ∧ SameUpToOrder w.factors w'.factors := by
  let speed := (base "m" (.of .length) : UnitOfMeasure Float).divide (base "s" (.of .time))
  let v := (base "s" (.of .time) : UnitOfMeasure Float).multiply (base "kg" (.of .mass))
  obtain ⟨w, hrun⟩ := exists_of_isOk
    (x := speed.bind fun speed => v.bind fun v => speed.multiply v) (by decide +kernel)
  obtain ⟨u, hspeed, hrun⟩ := bind_eq_ok.mp hrun
  obtain ⟨v, hv, hw⟩ := bind_eq_ok.mp hrun
  have hur : Reachable u := .divide (.base _ _) (.base _ _) hspeed
  have hvr : Reachable v := .multiply (.base _ _) (.base _ _) hv
  rcases multiply_symmetric hur hvr with ⟨w, w', hw, hw', hsame⟩ | ⟨e, e', he, -⟩
  · exact ⟨u, v, w, w', hspeed, hv, hw, hw', hsame⟩
  · cases hw.symm.trans he

end UnitOfMeasure

end Metrology
