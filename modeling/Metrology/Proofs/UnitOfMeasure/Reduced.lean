import Metrology.Proofs.UnitOfMeasure.Balance
import Metrology.Proofs.UnitOfMeasure.NormalForm

/-!
# Reduced products

The factors of a unit are *reduced*: no two are alike and no exponent is zero (`Built.reduced`).  There
is nothing to take together in them, so composing them again gives them back (`compose_eq_ok_of_reduced`).
And they are determined by the exponents of the classes of like atoms.  Two reduced products that agree
in these (`SameExponents`) have the same factors but for order and likeness (`SameUpToOrder`), and
if their atoms come in one order they are one list (`eq_of_sameExponents`).

So a law of units that does not speak of scales is an equation between the exponents of a class.  The
exponents also tell the dimension of a unit, and whether it is an atom and which one
(`dimension_eq_of_sameExponents`, `symbol?_eq_of_sameExponents`, `beq_of_sameExponents`).
-/

namespace Metrology.UnitOfMeasure

open Result

variable {α : Type} [Scalar α] {l r : List (Atom α × Exponent)} {f : Atom α × Exponent}
  {u v w : UnitOfMeasure α} {d : Dimension} {s : α}

/-- There is nothing to take together or to drop in a product. -/
structure Reduced (factors : List (Atom α × Exponent)) : Prop where
  unlike : factors.Pairwise fun f g => f.1.isLike g.1 = false
  exponent_ne_zero : ∀ f ∈ factors, f.2 ≠ 0

theorem Reduced.sublist (h : Reduced l) (hr : r.Sublist l) : Reduced r :=
  ⟨h.unlike.sublist hr, fun f hf => h.exponent_ne_zero f (hr.mem hf)⟩

theorem Built.reduced {powers : Exponent → Prop} (h : Built powers u) : Reduced u.factors := by
  refine ⟨h.pairwise_unlike, ?_⟩
  cases u with
  | atom a =>
    intro f hf
    have hone : (1 : Exponent) ≠ 0 := by decide
    rwa [List.mem_singleton.mp hf]
  | product factors d s => exact (h.normalForm rfl).exponent_ne_zero

/-! ### Operations on the exponents -/

omit [Scalar α] in
/-- A partial operation on the exponents leaves the atoms as they are. -/
theorem atoms_of_mapExponents? {f : Exponent → Option Exponent} (h : mapExponents? f l = some r) :
    r.map (·.1) = l.map (·.1) := by
  induction l generalizing r with
  | nil =>
    cases h
    rfl
  | cons e l ih =>
    simp only [mapExponents?] at h
    split at h
    · rename_i hm
      cases h
      rw [List.map_cons, List.map_cons, ih hm]
    · cases h

/-- Operations under which no exponent vanishes keep products reduced. -/
theorem Reduced.of_mapExponents? {f : Exponent → Option Exponent} (hl : Reduced l)
    (h : mapExponents? f l = some r) (hf : ∀ x y, f x = some y → x ≠ 0 → y ≠ 0) : Reduced r := by
  constructor
  · rw [unlike_iff_atoms, atoms_of_mapExponents? h, ← unlike_iff_atoms]
    exact hl.unlike
  · intro e he
    obtain ⟨x, hx, hfx⟩ := mem_of_mapExponents? h he
    exact hf x e.2 hfx (hl.exponent_ne_zero (e.1, x) hx)

/-! ### Composing what is reduced -/

theorem addFactor_of_unlike {merged : List (Atom α × Exponent)}
    (h : ∀ e ∈ merged, e.1.isLike f.1 = false) : addFactor merged f = .ok (merged ++ [f]) := by
  induction merged with
  | nil => rfl
  | cons e merged ih =>
    obtain ⟨he, hmerged⟩ := List.forall_mem_cons.mp h
    simp [addFactor, he, ih hmerged, Except.map]

/-- Factors that are unlike are put at the end one after the other. -/
theorem addFactors_of_unlike {merged factors : List (Atom α × Exponent)}
    (h : (merged ++ factors).Pairwise fun f g => f.1.isLike g.1 = false) :
    addFactors merged factors = .ok (merged ++ factors) := by
  induction factors generalizing merged with
  | nil => simp [addFactors]
  | cons f factors ih =>
    have hf : ∀ e ∈ merged, e.1.isLike f.1 = false := fun e he =>
      (List.pairwise_append.mp h).2.2 e he f List.mem_cons_self
    have happend : merged ++ f :: factors = (merged ++ [f]) ++ factors := by simp
    rw [addFactors, addFactor_of_unlike hf]
    rw [happend] at h ⊢
    exact ih h

theorem addFactors_append (merged l r : List (Atom α × Exponent)) :
    addFactors merged (l ++ r) = (addFactors merged l).bind fun merged => addFactors merged r := by
  induction l generalizing merged with
  | nil => rfl
  | cons f l ih =>
    simp only [List.cons_append, addFactors]
    cases addFactor merged f with
    | error e => rfl
    | ok m => exact ih m

/-- Factors are added to a reduced product as it stands. -/
theorem remaining_append (h : Reduced l) :
    remaining (l ++ r) = (addFactors l r).map fun merged => merged.filter (·.2 ≠ 0) := by
  have hl : addFactors [] l = .ok l := addFactors_of_unlike h.unlike
  rw [remaining, addFactors_append, hl]
  rfl

theorem remaining_of_reduced (h : Reduced l) : remaining l = .ok l := by
  have hfilter : l.filter (·.2 ≠ 0) = l :=
    List.filter_eq_self.mpr fun f hf => decide_eq_true (h.exponent_ne_zero f hf)
  rw [← List.append_nil l, remaining_append h, List.append_nil]
  exact congrArg Except.ok hfilter

omit [Scalar α] in
@[simp]
theorem factors_settle (kept : List (Atom α × Exponent)) (d : Dimension) (s : α) :
    (settle kept d s).factors = kept := by
  rcases settle_cases kept d s with ⟨a, rfl, hw⟩ | ⟨-, hw⟩
  · rw [hw]
    rfl
  · rw [hw]
    rfl

theorem compose_eq_ok_of_reduced (h : Reduced l) :
    compose l d s = .ok w ↔ Scalar.isFactor s = true ∧ w = settle l d s := by
  rw [compose_eq_ok_iff, remaining_of_reduced h]
  constructor
  · rintro ⟨hs, kept, hkept, hw⟩
    cases hkept
    exact ⟨hs, hw.symm⟩
  · rintro ⟨hs, hw⟩
    exact ⟨hs, l, rfl, hw.symm⟩

/-! ### Products with the same exponents -/

/-- Two products have the same exponent of every class of like atoms. -/
def SameExponents (l r : List (Atom α × Exponent)) : Prop :=
  ∀ c, exponentOf c l = exponentOf c r

theorem SameExponents.symm (h : SameExponents l r) : SameExponents r l :=
  fun c => (h c).symm

/-- Two factors are powers of like atoms to one exponent. -/
def LikeFactor (f g : Atom α × Exponent) : Prop :=
  f.1.isLike g.1 = true ∧ f.2 = g.2

/-- The factors of two products are the same but for their order and likeness. -/
def SameUpToOrder (l r : List (Atom α × Exponent)) : Prop :=
  ∃ m, List.Forall₂ LikeFactor l m ∧ m.Perm r

/-- The like of an atom that stands alone stands alone. -/
theorem SameUpToOrder.single {a : Atom α} {x : Exponent} (h : SameUpToOrder [(a, x)] r) :
    ∃ b, r = [(b, x)] ∧ a.isLike b = true := by
  obtain ⟨m, hm, hperm⟩ := h
  obtain ⟨⟨b, y⟩, m', ⟨hlike, hxy⟩, hnil, rfl⟩ := List.forall₂_cons_left_iff.mp hm
  cases List.forall₂_nil_left_iff.mp hnil
  cases hxy
  exact ⟨b, List.perm_singleton.mp hperm.symm, hlike⟩

/-- Totals do not hang on the order of the factors, nor on which of like atoms they are powers of. -/
theorem SameUpToOrder.total_eq {M : Type} [AddCommMonoid M] [Module ℚ M] {φ : Atom α → M}
    (hφ : ∀ a b, a.isLike b = true → φ a = φ b) (h : SameUpToOrder l r) : total φ l = total φ r := by
  obtain ⟨m, hm, hperm⟩ := h
  have hlike : total φ l = total φ m := by
    induction hm generalizing r with
    | nil => rfl
    | cons hfg _ ih => rw [total_cons, total_cons, hφ _ _ hfg.1, hfg.2, ih (.refl _)]
  exact hlike.trans (hperm.map _).sum_eq

section Laws
variable [LawfulScalar α]

/-- Every factor of one product has its like in the other. -/
theorem exists_likeFactor (hl : Reduced l) (hr : Reduced r) (h : SameExponents l r) (hf : f ∈ l) :
    ∃ g ∈ r, LikeFactor f g := by
  have hvalue : exponentOf f.1 r = f.2.value :=
    (h f.1).symm.trans (exponentOf_eq_of_mem hl.unlike hf (Atom.isLike_refl f.1))
  by_cases hex : ∃ g ∈ r, f.1.isLike g.1 = true
  · obtain ⟨g, hg, hlike⟩ := hex
    have hgvalue := exponentOf_eq_of_mem hr.unlike hg hlike
    exact ⟨g, hg, hlike, Exponent.ext (hvalue.symm.trans hgvalue)⟩
  · have hzero : exponentOf f.1 r = 0 := exponentOf_eq_zero fun g hg =>
      Bool.eq_false_iff.mpr fun hlike => hex ⟨g, hg, hlike⟩
    have hf0 : f.2 = 0 := Exponent.ext (hvalue.symm.trans hzero)
    exact absurd hf0 (hl.exponent_ne_zero f hf)

/-- Reduced products with the same exponents have the same factors up to order and likeness. -/
theorem sameUpToOrder_of_sameExponents (hl : Reduced l) (hr : Reduced r) (h : SameExponents l r) :
    SameUpToOrder l r := by
  -- the head of one product and its like are taken out of both
  induction l generalizing r with
  | nil =>
    cases r with
    | nil => exact ⟨[], .nil, .refl _⟩
    | cons g r =>
      obtain ⟨f, hf, -⟩ := exists_likeFactor hr hl h.symm List.mem_cons_self
      cases hf
  | cons f l ih =>
    obtain ⟨g, hg, hlike, hexp⟩ := exists_likeFactor hl hr h List.mem_cons_self
    obtain ⟨before, after, rfl⟩ := List.append_of_mem hg
    have hsub : (before ++ after).Sublist (before ++ g :: after) :=
      (List.sublist_cons_self g after).append_left before
    have hrest : SameExponents l (before ++ after) := by
      intro c
      have hc := h c
      rw [exponentOf_append, exponentOf_cons, exponentOf_cons, Atom.isLike_congr c hlike, hexp] at hc
      rw [exponentOf_append]
      linarith
    obtain ⟨m, hm, hperm⟩ := ih (hl.sublist (List.sublist_cons_self f l)) (hr.sublist hsub) hrest
    exact ⟨g :: m, .cons ⟨hlike, hexp⟩ hm, (hperm.cons g).trans List.perm_middle.symm⟩

/-- A reduced product is read off its exponents when its atoms are among unlike ones, in their
order. -/
theorem values_eq_filterMap {atoms : List (Atom α)}
    (hatoms : atoms.Pairwise fun a b => a.isLike b = false) (hl : Reduced l)
    (hsub : (l.map (·.1)).Sublist atoms) :
    l.map (fun f => (f.1, f.2.value)) = atoms.filterMap fun a =>
      if exponentOf a l = 0 then none else some (a, exponentOf a l) := by
  induction atoms generalizing l with
  | nil =>
    rw [List.map_eq_nil_iff.mp (List.sublist_nil.mp hsub)]
    rfl
  | cons a atoms ih =>
    obtain ⟨ha, hrest⟩ := List.pairwise_cons.mp hatoms
    rcases List.sublist_cons_iff.mp hsub with hsub | ⟨tail, htail, hsub⟩
    · have hzero : exponentOf a l = 0 := exponentOf_eq_zero fun f hf =>
        ha f.1 (hsub.mem (List.mem_map_of_mem hf))
      rw [ih hrest hl hsub, List.filterMap_cons, if_pos hzero]
    · obtain ⟨⟨b, x⟩, l, rfl, rfl, rfl⟩ := List.map_eq_cons_iff.mp htail
      have hvalue : exponentOf b ((b, x) :: l) = x.value :=
        exponentOf_eq_of_mem hl.unlike List.mem_cons_self (Atom.isLike_refl b)
      have hne : x.value ≠ 0 := fun h0 =>
        hl.exponent_ne_zero _ List.mem_cons_self (Exponent.ext h0)
      -- the atoms to come are unlike `b`, so their exponents are those in the tail
      have htail : ∀ c ∈ atoms, exponentOf c ((b, x) :: l) = exponentOf c l := by
        intro c hc
        have hcb : c.isLike b = false := by rw [Atom.isLike_comm, ha c hc]
        simp [hcb]
      rw [List.map_cons, ih hrest (hl.sublist (List.sublist_cons_self _ l)) hsub,
        List.filterMap_cons, hvalue, if_neg hne]
      refine congrArg _ (List.filterMap_congr fun c hc => ?_)
      rw [htail c hc]

/-- Reduced products with the same exponents are one list if their atoms come in one order. -/
theorem eq_of_sameExponents {atoms : List (Atom α)}
    (hatoms : atoms.Pairwise fun a b => a.isLike b = false) (hl : Reduced l) (hr : Reduced r)
    (hsubl : (l.map (·.1)).Sublist atoms) (hsubr : (r.map (·.1)).Sublist atoms)
    (h : SameExponents l r) : l = r := by
  have hvalues : l.map (fun f => (f.1, f.2.value)) = r.map fun f => (f.1, f.2.value) := by
    rw [values_eq_filterMap hatoms hl hsubl, values_eq_filterMap hatoms hr hsubr]
    simp only [h _]
  have hinj : Function.Injective fun f : Atom α × Exponent => (f.1, f.2.value) := by
    intro f g hfg
    obtain ⟨hatom, hvalue⟩ := Prod.ext_iff.mp hfg
    exact Prod.ext hatom (Exponent.ext hvalue)
  exact List.map_injective_iff.mpr hinj hvalues

/-! ### Units with the same exponents -/

variable {powers powers' : Exponent → Prop}

theorem Built.sameUpToOrder (hu : Built powers u) (hv : Built powers' v)
    (h : SameExponents u.factors v.factors) : SameUpToOrder u.factors v.factors :=
  sameUpToOrder_of_sameExponents hu.reduced hv.reduced h

theorem dimension_eq_of_sameExponents (hu : Built powers u) (hv : Built powers' v)
    (h : SameExponents u.factors v.factors) : u.dimension = v.dimension := by
  apply Dimension.degree_injective
  rw [hu.balanced.1.degree_eq, hv.balanced.1.degree_eq]
  exact (hu.sameUpToOrder hv h).total_eq fun _ _ hab =>
    congrArg Dimension.degree (dimension_eq_of_isLike hab)

/-- A unit with the exponents of an atom is an atom, and like it. -/
theorem exists_atom_of_sameExponents {a : Atom α} (ha : Built powers (atom a))
    (hv : Built powers' v) (h : SameExponents (atom a).factors v.factors) :
    ∃ b, v = atom b ∧ a.isLike b = true := by
  obtain ⟨b, hb, hlike⟩ := (ha.sameUpToOrder hv h).single
  cases v with
  | atom c =>
    have hcb : c = b := congrArg Prod.fst (List.singleton_inj.mp hb)
    exact ⟨b, congrArg atom hcb, hlike⟩
  | product factors d s => exact absurd hb ((hv.normalForm rfl).ne_single b)

theorem symbol?_eq_of_sameExponents (hu : Built powers u) (hv : Built powers' v)
    (h : SameExponents u.factors v.factors) : u.symbol? = v.symbol? := by
  cases u with
  | atom a =>
    obtain ⟨b, rfl, hlike⟩ := exists_atom_of_sameExponents hu hv h
    exact congrArg some (Atom.isLike_iff.mp hlike).1
  | product factors d s =>
    cases v with
    | atom b =>
      obtain ⟨a, ha, -⟩ := exists_atom_of_sameExponents hv hu h.symm
      cases ha
    | product factors' d' s' => rfl

/-- Atoms with the same exponents are equal units. -/
theorem beq_of_sameExponents (hu : Built powers u) (hv : Built powers' v)
    (h : SameExponents u.factors v.factors) (hsymbol : u.symbol? ≠ none) : (u == v) = true := by
  cases u with
  | atom a =>
    obtain ⟨b, rfl, hlike⟩ := exists_atom_of_sameExponents hu hv h
    exact (Atom.isLike_iff.mp hlike).2
  | product factors d s => exact absurd rfl hsymbol

end Laws

end Metrology.UnitOfMeasure
