import Metrology.Proofs.Scalar.Lawful
import Metrology.Proofs.UnitOfMeasure.Built

/-!
# The normal form of products

Composition searches the factors met so far for one that is like the next, adds the exponents, and
drops the factors that cancel.  The factors that remain are in *normal form* (`NormalForm`): they are
linear atoms, no exponent is zero, no two of them are alike, and there is more to the product than the
first power of one atom.  What the search may not do is lose or duplicate a factor.  It does not:
being alike is an equivalence (`Atom.isLike_equivalence`), so that the exponent of a class
of like atoms is well defined (`exponentOf`), and products, quotients and powers add, subtract and
multiply the exponents of every class (`exponent_laws`).

* `pairwise_unlike_of_addFactor`: a step of the search keeps the factors unlike.
* `Built.normalForm`: the factors of every product that is built are in normal form.
* `exponentOf_eq_of_mem`: in normal form the exponent of a class is that of its one factor.
-/

namespace Metrology

open Result

variable {α : Type} [Scalar α]

namespace UnitOfMeasure

/-! ### Likeness -/

theorem isEqualSize_iff {u v : UnitOfMeasure α} : u.isEqualSize v = true ↔
    u.dimension = v.dimension ∧ (u.scale == v.scale) = true ∧ (u.offset == v.offset) = true := by
  simp [isEqualSize, and_assoc]

section Likeness
variable [LawfulScalar α]

theorem isSame_iff {u v : UnitOfMeasure α} : u.isSame v = true ↔
    u.tag = v.tag ∧ u.symbol? = v.symbol? ∧ u.dimension = v.dimension ∧ u.scale = v.scale ∧
      u.offset = v.offset := by
  have hsame : ∀ x y : α, Scalar.same x y = true ↔ x = y :=
    fun x y => ⟨LawfulScalar.eq_of_same, fun h => h ▸ Scalar.same_self x⟩
  simp [isSame, hsame, and_assoc]

/-- Equality of units is an equivalence, although equality of scalars need not be reflexive. -/
instance : EquivBEq (UnitOfMeasure α) where
  rfl := beq_self _
  symm {u v} h := by
    rcases Bool.or_eq_true_iff.mp h with hs | hs
    · obtain ⟨ht, hy, hd, hsc, ho⟩ := isSame_iff.mp hs
      exact Bool.or_eq_true_iff.mpr
        (.inl (isSame_iff.mpr ⟨ht.symm, hy.symm, hd.symm, hsc.symm, ho.symm⟩))
    · obtain ⟨hd, hsc, ho⟩ := isEqualSize_iff.mp hs
      exact Bool.or_eq_true_iff.mpr
        (.inr (isEqualSize_iff.mpr ⟨hd.symm, PartialEquivBEq.symm hsc, PartialEquivBEq.symm ho⟩))
  trans {u v w} h h' := by
    rcases Bool.or_eq_true_iff.mp h with hs | hs <;> rcases Bool.or_eq_true_iff.mp h' with hs' | hs'
    · obtain ⟨ht, hy, hd, hsc, ho⟩ := isSame_iff.mp hs
      obtain ⟨ht', hy', hd', hsc', ho'⟩ := isSame_iff.mp hs'
      exact Bool.or_eq_true_iff.mpr (.inl (isSame_iff.mpr
        ⟨ht.trans ht', hy.trans hy', hd.trans hd', hsc.trans hsc', ho.trans ho'⟩))
    · obtain ⟨-, -, hd, hsc, ho⟩ := isSame_iff.mp hs
      refine Bool.or_eq_true_iff.mpr (.inr ?_)
      rwa [isEqualSize_iff, hd, hsc, ho, ← isEqualSize_iff]
    · obtain ⟨-, -, hd, hsc, ho⟩ := isSame_iff.mp hs'
      refine Bool.or_eq_true_iff.mpr (.inr ?_)
      rwa [isEqualSize_iff, ← hd, ← hsc, ← ho, ← isEqualSize_iff]
    · obtain ⟨hd, hsc, ho⟩ := isEqualSize_iff.mp hs
      obtain ⟨hd', hsc', ho'⟩ := isEqualSize_iff.mp hs'
      exact Bool.or_eq_true_iff.mpr (.inr (isEqualSize_iff.mpr
        ⟨hd.trans hd', PartialEquivBEq.trans hsc hsc', PartialEquivBEq.trans ho ho'⟩))

end Likeness

end UnitOfMeasure

namespace Atom

variable {a b c : Atom α}

theorem isLike_iff : a.isLike b = true ↔
    a.symbol = b.symbol ∧ (UnitOfMeasure.atom a == UnitOfMeasure.atom b) = true := by
  simp [isLike]

theorem isLike_refl (a : Atom α) : a.isLike a = true :=
  isLike_iff.mpr ⟨rfl, UnitOfMeasure.beq_self _⟩

variable [LawfulScalar α]

theorem isLike_symm (h : a.isLike b = true) : b.isLike a = true := by
  obtain ⟨hs, hu⟩ := isLike_iff.mp h
  exact isLike_iff.mpr ⟨hs.symm, BEq.symm hu⟩

theorem isLike_trans (h : a.isLike b = true) (h' : b.isLike c = true) : a.isLike c = true := by
  obtain ⟨hs, hu⟩ := isLike_iff.mp h
  obtain ⟨hs', hu'⟩ := isLike_iff.mp h'
  exact isLike_iff.mpr ⟨hs.trans hs', BEq.trans hu hu'⟩

/-- Being alike is an equivalence. -/
theorem isLike_equivalence : Equivalence fun a b : Atom α => a.isLike b = true :=
  ⟨isLike_refl, isLike_symm, isLike_trans⟩

theorem isLike_comm (a b : Atom α) : a.isLike b = b.isLike a :=
  Bool.eq_iff_iff.mpr ⟨isLike_symm, isLike_symm⟩

/-- Like atoms are like the same atoms. -/
theorem isLike_congr (c : Atom α) (h : a.isLike b = true) : c.isLike a = c.isLike b :=
  Bool.eq_iff_iff.mpr ⟨fun hc => isLike_trans hc h, fun hc => isLike_trans hc (isLike_symm h)⟩

end Atom

namespace UnitOfMeasure

/-! ### The normal form -/

/-- Powers of linear atoms that nothing can be simplified in: there is no zeroth power, no two powers
of like atoms, and not the first power of an atom alone. -/
structure NormalForm (factors : List (Atom α × Exponent)) : Prop where
  linear : ∀ f ∈ factors, (atom f.1).isAffine = false
  named : ∀ f ∈ factors, (atom f.1).symbol? ≠ none
  exponent_ne_zero : ∀ f ∈ factors, f.2 ≠ 0
  unlike : factors.Pairwise fun f g => f.1.isLike g.1 = false
  ne_single : ∀ a, factors ≠ [(a, 1)]

theorem normalForm_nil : NormalForm ([] : List (Atom α × Exponent)) where
  linear f hf := by cases hf
  named f hf := by cases hf
  exponent_ne_zero f hf := by cases hf
  unlike := .nil
  ne_single a h := by cases h

/-- A step of the search changes an exponent, or puts an atom at the end that none before is like. -/
theorem atoms_of_addFactor {merged r : List (Atom α × Exponent)} {f : Atom α × Exponent}
    (h : addFactor merged f = .ok r) :
    r.map (·.1) = merged.map (·.1) ∨
      (r = merged ++ [f] ∧ ∀ e ∈ merged, e.1.isLike f.1 = false) := by
  induction merged generalizing r with
  | nil =>
    cases h
    exact .inr ⟨rfl, fun e he => by cases he⟩
  | cons e merged ih =>
    obtain ⟨a, x⟩ := e
    rw [addFactor] at h
    split at h
    · split at h
      · cases h
        exact .inl rfl
      · cases h
    · rename_i hunlike
      obtain ⟨r', hr', rfl⟩ := map_eq_ok.mp h
      rcases ih hr' with heq | ⟨rfl, hall⟩
      · exact .inl (congrArg (a :: ·) heq)
      · refine .inr ⟨rfl, fun e he => ?_⟩
        rcases List.mem_cons.mp he with rfl | he
        · exact Bool.eq_false_iff.mpr hunlike
        · exact hall e he

/-- Whether factors are unlike is a matter of their atoms. -/
theorem unlike_iff_atoms {l : List (Atom α × Exponent)} :
    (l.Pairwise fun f g => f.1.isLike g.1 = false) ↔
      (l.map (·.1)).Pairwise fun a b => a.isLike b = false := by
  rw [List.pairwise_map]

theorem pairwise_unlike_of_addFactor {merged r : List (Atom α × Exponent)} {f : Atom α × Exponent}
    (h : addFactor merged f = .ok r)
    (hm : merged.Pairwise fun f g => f.1.isLike g.1 = false) :
    r.Pairwise fun f g => f.1.isLike g.1 = false := by
  rcases atoms_of_addFactor h with heq | ⟨rfl, hall⟩
  · rw [unlike_iff_atoms, heq, ← unlike_iff_atoms]
    exact hm
  · refine List.pairwise_append.mpr ⟨hm, List.pairwise_singleton _ _, fun e he g hg => ?_⟩
    cases List.mem_singleton.mp hg
    exact hall e he

theorem pairwise_unlike_of_addFactors {merged factors r : List (Atom α × Exponent)}
    (h : addFactors merged factors = .ok r)
    (hm : merged.Pairwise fun f g => f.1.isLike g.1 = false) :
    r.Pairwise fun f g => f.1.isLike g.1 = false := by
  induction factors generalizing merged with
  | nil =>
    cases h
    exact hm
  | cons f factors ih =>
    obtain ⟨m, hf, hr⟩ := bind_eq_ok.mp h
    exact ih hr (pairwise_unlike_of_addFactor hf hm)

theorem pairwise_unlike_of_remaining {factors kept : List (Atom α × Exponent)}
    (h : remaining factors = .ok kept) : kept.Pairwise fun f g => f.1.isLike g.1 = false := by
  obtain ⟨merged, hm, rfl⟩ := map_eq_ok.mp h
  exact (pairwise_unlike_of_addFactors hm .nil).sublist List.filter_sublist

theorem normalForm_of_compose {factors : List (Atom α × Exponent)} {d : Dimension} {s : α}
    {w : UnitOfMeasure α} (h : compose factors d s = .ok w)
    (hf : ∀ f ∈ factors, (atom f.1).isAffine = false) (hw : w.symbol? = none) :
    NormalForm w.factors := by
  obtain ⟨-, kept, hk, rfl⟩ := compose_eq_ok_iff.mp h
  rcases settle_cases kept d s with ⟨a, -, hsettle⟩ | ⟨hsingle, hsettle⟩
  · rw [hsettle] at hw
    cases hw
  · rw [hsettle]
    exact ⟨(merges_of_remaining hk).invariant_atom (P := fun a => (atom a).isAffine = false) hf,
      fun f _ => Option.some_ne_none _, ne_zero_of_remaining hk, pairwise_unlike_of_remaining hk,
      hsingle⟩

variable {u v w : UnitOfMeasure α}

/-- **The normal form.**  The factors of every product that is built are in normal form. -/
theorem Built.normalForm {powers : Exponent → Prop} (h : Built powers u) (hu : u.symbol? = none) :
    NormalForm u.factors := by
  induction h with
  | base symbol d => cases hu
  | one => exact normalForm_nil
  | scaled _ h =>
    obtain ⟨-, -, rfl⟩ := scaled_eq_ok_iff.mp h
    cases hu
  | prefixed _ h =>
    obtain ⟨-, rfl⟩ := prefixed_eq_ok_iff.mp h
    cases hu
  | affine _ h =>
    obtain ⟨-, -, -, rfl⟩ := affine_eq_ok_iff.mp h
    cases hu
  | withSymbol _ symbol => cases hu
  | @tagged u _ tag ih =>
    cases u with
    | atom a => cases hu
    | product factors d s => exact ih rfl
  | multiply hbu hbv h =>
    obtain ⟨hlu, hlv, d, -, hc⟩ := multiply_eq_ok_iff.mp h
    exact normalForm_of_compose hc (fun f hf => (List.mem_append.mp hf).elim
      (hbu.isLinear_factor hlu f) (hbv.isLinear_factor hlv f)) hu
  | divide hbu hbv h =>
    obtain ⟨hlu, hlv, -, d, inverted, -, hi, hc⟩ := divide_eq_ok_iff.mp h
    have hfi := forall_atom_of_mapExponents? (P := fun a => (atom a).isAffine = false) hi
      (hbv.isLinear_factor hlv)
    exact normalForm_of_compose hc (fun f hf => (List.mem_append.mp hf).elim
      (hbu.isLinear_factor hlu f) (hfi f)) hu
  | power hbu _ h ih =>
    rcases power_eq_ok_iff.mp h with
      ⟨-, rfl⟩ | ⟨-, -, rfl⟩ | ⟨-, -, hl, d, raised, s, -, hr, -, hc⟩
    · exact ih hu
    · exact normalForm_nil
    · exact normalForm_of_compose hc (forall_atom_of_mapExponents?
        (P := fun a => (atom a).isAffine = false) hr (hbu.isLinear_factor hl)) hu

/-- No two factors of a unit that is built are alike; an atom is its one factor. -/
theorem Built.pairwise_unlike {powers : Exponent → Prop} (h : Built powers u) :
    u.factors.Pairwise fun f g => f.1.isLike g.1 = false := by
  cases u with
  | atom a => exact List.pairwise_singleton _ _
  | product factors d s => exact (h.normalForm rfl).unlike

/-! ### Classes of like atoms -/

/-- The exponent of the atoms like `c` in a product, taken together. -/
def exponentOf (c : Atom α) (factors : List (Atom α × Exponent)) : ℚ :=
  total (fun a => if c.isLike a then 1 else 0) factors

@[simp]
theorem exponentOf_cons (c : Atom α) (f : Atom α × Exponent) (factors : List (Atom α × Exponent)) :
    exponentOf c (f :: factors) =
      (if c.isLike f.1 then f.2.value else 0) + exponentOf c factors := by
  simp [exponentOf]

theorem exponentOf_append (c : Atom α) (l r : List (Atom α × Exponent)) :
    exponentOf c (l ++ r) = exponentOf c l + exponentOf c r :=
  total_append _ l r

theorem exponentOf_mapExponents? {f : Exponent → Option Exponent} {q : ℚ}
    (hf : ∀ x y, f x = some y → y.value = q * x.value) (c : Atom α)
    {l r : List (Atom α × Exponent)} (h : mapExponents? f l = some r) :
    exponentOf c r = q * exponentOf c l :=
  total_mapExponents? hf _ h

/-- A class that does not occur has the exponent zero. -/
theorem exponentOf_eq_zero {c : Atom α} {factors : List (Atom α × Exponent)}
    (h : ∀ f ∈ factors, c.isLike f.1 = false) : exponentOf c factors = 0 := by
  induction factors with
  | nil => rfl
  | cons f factors ih =>
    rw [exponentOf_cons, h f List.mem_cons_self, ih fun g hg => h g (List.mem_cons_of_mem _ hg)]
    simp

section Laws
variable [LawfulScalar α]

/-- Among factors that are unlike, the exponent of a class is that of its one factor. -/
theorem exponentOf_eq_of_mem {c : Atom α} {factors : List (Atom α × Exponent)}
    {f : Atom α × Exponent} (h : factors.Pairwise fun f g => f.1.isLike g.1 = false)
    (hf : f ∈ factors) (hc : c.isLike f.1 = true) : exponentOf c factors = f.2.value := by
  induction factors with
  | nil => cases hf
  | cons g factors ih =>
    obtain ⟨hg, hfactors⟩ := List.pairwise_cons.mp h
    rw [exponentOf_cons]
    rcases List.mem_cons.mp hf with rfl | hf
    · have hzero : exponentOf c factors = 0 := exponentOf_eq_zero fun e he => by
        rw [Atom.isLike_comm, Atom.isLike_congr e.1 hc, Atom.isLike_comm, hg e he]
      rw [if_pos hc, hzero, add_zero]
    · have hgc : c.isLike g.1 = false := by
        rw [Atom.isLike_comm, Atom.isLike_congr g.1 hc, hg f hf]
      rw [hgc, ih hfactors hf]
      simp

theorem Merges.exponentOf_eq {l r : List (Atom α × Exponent)} (h : Merges l r) (c : Atom α) :
    exponentOf c l = exponentOf c r :=
  h.total_eq fun _ _ hab => by rw [Atom.isLike_congr c hab]

theorem exponentOf_multiply (c : Atom α) (h : u.multiply v = .ok w) :
    exponentOf c w.factors = exponentOf c u.factors + exponentOf c v.factors := by
  obtain ⟨-, -, d, -, hc⟩ := multiply_eq_ok_iff.mp h
  rw [← (composed_of_compose hc).2.1.exponentOf_eq, exponentOf_append]

theorem exponentOf_divide (c : Atom α) (h : u.divide v = .ok w) :
    exponentOf c w.factors = exponentOf c u.factors - exponentOf c v.factors := by
  obtain ⟨-, -, -, d, inverted, -, hi, hc⟩ := divide_eq_ok_iff.mp h
  have hinv : exponentOf c inverted = -1 * exponentOf c v.factors :=
    exponentOf_mapExponents? (fun x y hxy => by rw [Exponent.value_neg? hxy, neg_one_mul]) c hi
  rw [← (composed_of_compose hc).2.1.exponentOf_eq, exponentOf_append, hinv, neg_one_mul,
    sub_eq_add_neg]

theorem exponentOf_power {p : Exponent} (c : Atom α) (h : u.power p = .ok w) :
    exponentOf c w.factors = p.value * exponentOf c u.factors := by
  rcases power_eq_ok_iff.mp h with
    ⟨rfl, rfl⟩ | ⟨rfl, -, rfl⟩ | ⟨-, -, -, d, raised, s, -, hr, -, hc⟩
  · simp
  · simp [one, factors, exponentOf]
  · rw [← (composed_of_compose hc).2.1.exponentOf_eq]
    exact exponentOf_mapExponents? (fun x y hxy => by rw [Exponent.value_mul? hxy, mul_comm]) c hr

/-- **The laws of exponents.**  The factors of every reachable product are in normal form.  The
exponent of a class of like atoms in a reachable unit is that of the one factor that belongs to it, or
zero; and composition loses and duplicates nothing: the exponents of a class in a product, a quotient,
a reciprocal and a rational power are the sum, the difference, the negation and the multiple of those
in the operands. -/
theorem exponent_laws :
    (∀ u : UnitOfMeasure α, Reachable u → u.symbol? = none → NormalForm u.factors) ∧
    (∀ (u : UnitOfMeasure α) (c : Atom α), Reachable u →
      (∀ f ∈ u.factors, c.isLike f.1 = true → exponentOf c u.factors = f.2.value) ∧
      ((∀ f ∈ u.factors, c.isLike f.1 = false) → exponentOf c u.factors = 0)) ∧
    (∀ (u v w : UnitOfMeasure α) (c : Atom α), u.multiply v = .ok w →
      exponentOf c w.factors = exponentOf c u.factors + exponentOf c v.factors) ∧
    (∀ (u v w : UnitOfMeasure α) (c : Atom α), u.divide v = .ok w →
      exponentOf c w.factors = exponentOf c u.factors - exponentOf c v.factors) ∧
    (∀ (u w : UnitOfMeasure α) (c : Atom α), u.invert = .ok w →
      exponentOf c w.factors = -exponentOf c u.factors) ∧
    (∀ (u w : UnitOfMeasure α) (p : Exponent) (c : Atom α), u.power p = .ok w →
      exponentOf c w.factors = p.value * exponentOf c u.factors) := by
  refine ⟨?_, ?_, ?_, ?_, ?_, ?_⟩
  · exact fun u hu hsymbol => hu.normalForm hsymbol
  · intro u c hu
    exact ⟨fun f hf hc => exponentOf_eq_of_mem hu.pairwise_unlike hf hc, exponentOf_eq_zero⟩
  · exact fun u v w c h => exponentOf_multiply c h
  · exact fun u v w c h => exponentOf_divide c h
  · intro u w c h
    have hone : exponentOf c (one : UnitOfMeasure α).factors = 0 := rfl
    rw [exponentOf_divide c h, hone, zero_sub]
  · exact fun u w p c h => exponentOf_power c h

end Laws

/-- The metre per second, its square, the root of the square, and the metre that the speed comes down
to when it is multiplied by the second. -/
theorem exponent_laws_speed :
    ∃ (m s : Atom Float) (speed square root back : UnitOfMeasure Float),
      atom m = base "m" (.of .length) ∧ atom s = base "s" (.of .time) ∧
      (atom m).divide (atom s) = .ok speed ∧ speed.symbol? = none ∧ NormalForm speed.factors ∧
      exponentOf s speed.factors = exponentOf s (atom m).factors - exponentOf s (atom s).factors ∧
      speed.multiply speed = .ok square ∧
      exponentOf s square.factors = exponentOf s speed.factors + exponentOf s speed.factors ∧
      square.power .half = .ok root ∧
      exponentOf s root.factors = (1 / 2 : ℚ) * exponentOf s square.factors ∧
      speed.multiply (atom s) = .ok back ∧ back.symbol? = some "m" ∧
      exponentOf s back.factors = exponentOf s speed.factors + exponentOf s (atom s).factors := by
  let m : Atom Float := ⟨"m", .of .length, 1, 0, .base, 0⟩
  let s : Atom Float := ⟨"s", .of .time, 1, 0, .base, 0⟩
  let quotient := (atom m).divide (atom s)
  obtain ⟨root, hrun⟩ := exists_of_isOk
    (x := quotient.bind fun speed => (speed.multiply speed).bind (·.power .half))
    (by decide +kernel)
  obtain ⟨speed, hspeed, hrun⟩ := bind_eq_ok.mp hrun
  obtain ⟨square, hsquare, hroot⟩ := bind_eq_ok.mp hrun
  obtain ⟨back, hback⟩ := exists_of_isOk (x := quotient.bind (·.multiply (atom s)))
    (by decide +kernel)
  have hbackSymbol : ((quotient.bind (·.multiply (atom s))).map symbol?).toOption =
      some (some "m") := by decide +kernel
  have hspeedSymbol : (quotient.map symbol?).toOption = some none := by decide +kernel
  rw [hback] at hbackSymbol
  rw [hspeed] at hspeedSymbol
  obtain ⟨speed', hspeed', hback⟩ := bind_eq_ok.mp hback
  cases hspeed.symm.trans hspeed'
  have hhalf : Exponent.half.value = 1 / 2 := by decide +kernel
  obtain ⟨hnormal, -, hmul, hdiv, -, hpow⟩ := exponent_laws (α := Float)
  have hspeedBuilt : Reachable speed := .divide (.base _ _) (.base _ _) hspeed
  refine ⟨m, s, speed, square, root, back, rfl, rfl, hspeed, Option.some.inj hspeedSymbol,
    hnormal speed hspeedBuilt (Option.some.inj hspeedSymbol), hdiv _ _ _ s hspeed, hsquare,
    hmul _ _ _ s hsquare, hroot, ?_, hback, Option.some.inj hbackSymbol, hmul _ _ _ s hback⟩
  rw [← hhalf]
  exact hpow square root .half s hroot

end UnitOfMeasure

end Metrology
