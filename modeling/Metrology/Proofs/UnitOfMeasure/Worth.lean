import Metrology.Proofs.Scalar.Exact
import Metrology.Proofs.UnitOfMeasure.Built

/-!
# The scale of a unit over exact scalars

The scale of a product is computed from the scales of the operands, while its factors are merged
beside it; and when one atom is left, the scale of that atom is taken instead.  Over exact scalars and
with integer powers both agree, because the scale is at all times the product of the scales of the
factors, each to the power of its exponent (`worth`).  A unit is *faithful* when that is so, its
factors have scales other than zero and its exponents are integers.

* `faithful_of_compose`: composing keeps faith, and the result has the computed scale.
* `Built.faithful`: units that are built with integer powers are faithful.
* `scale_laws`: products, quotients, powers and the other operations act on scales as the field does.

Negative scales need no care here, since integer powers of any number but zero are defined.
-/

namespace Metrology.UnitOfMeasure

open scoped Exact

variable {K : Type} [Field K] [LinearOrder K] [IsStrictOrderedRing K] [FloorRing K] [RealPowers K]

/-! ### Units of exact scale -/

theorem isAffine_eq_false_iff {u : UnitOfMeasure K} : u.isAffine = false ↔ u.offset = 0 := by
  simp [isAffine]

/-- Over exact scalars units are equal when they are worth the same. -/
theorem beq_iff {u v : UnitOfMeasure K} :
    (u == v) = true ↔ u.dimension = v.dimension ∧ u.scale = v.scale ∧ u.offset = v.offset := by
  change (u.isSame v || u.isEqualSize v) = true ↔ _
  simp only [Bool.or_eq_true, isSame, isEqualSize, Bool.and_eq_true, beq_iff_eq,
    Scalar.exact_same_iff]
  constructor
  · rintro (⟨⟨⟨-, hd⟩, hs⟩, ho⟩ | ⟨⟨hd, hs⟩, ho⟩)
    · exact ⟨hd, hs, ho⟩
    · exact ⟨hd, hs, ho⟩
  · rintro ⟨hd, hs, ho⟩
    exact .inr ⟨⟨hd, hs⟩, ho⟩

/-- A unit that is composed of linear factors is linear. -/
theorem offset_of_compose {factors : List (Atom K × Exponent)} {d : Dimension} {s : K}
    {w : UnitOfMeasure K} (h : compose factors d s = .ok w)
    (hf : ∀ f ∈ factors, (atom f.1).isAffine = false) : w.offset = 0 := by
  have hfw := forall_factor_of_compose (P := fun a => (atom a).isAffine = false) h hf
  rcases (composed_of_compose h).2.2 with ⟨a, rfl⟩ | hw
  · exact isAffine_eq_false_iff.mp (hfw (a, 1) (List.mem_singleton.mpr rfl))
  · rw [hw]
    rfl

namespace Built

variable {powers : Exponent → Prop} {u v w : UnitOfMeasure K}

theorem offset_of_multiply (hu : Built powers u) (hv : Built powers v)
    (h : u.multiply v = .ok w) : w.offset = 0 := by
  obtain ⟨hlu, hlv, d, -, hc⟩ := multiply_eq_ok_iff.mp h
  exact offset_of_compose hc fun f hf =>
    (List.mem_append.mp hf).elim (hu.isLinear_factor hlu f) (hv.isLinear_factor hlv f)

theorem offset_of_divide (hu : Built powers u) (hv : Built powers v)
    (h : u.divide v = .ok w) : w.offset = 0 := by
  obtain ⟨hlu, hlv, -, d, inverted, -, hi, hc⟩ := divide_eq_ok_iff.mp h
  have hfi := forall_atom_of_mapExponents? (P := fun a => (atom a).isAffine = false) hi
    (hv.isLinear_factor hlv)
  exact offset_of_compose hc fun f hf =>
    (List.mem_append.mp hf).elim (hu.isLinear_factor hlu f) (hfi f)

theorem offset_of_power {p : Exponent} (hu : Built powers u) (hl : u.isAffine = false)
    (h : u.power p = .ok w) : w.offset = 0 := by
  rcases power_eq_ok_iff.mp h with
    ⟨-, rfl⟩ | ⟨-, -, rfl⟩ | ⟨-, -, -, d, raised, s, -, hr, -, hc⟩
  · exact isAffine_eq_false_iff.mp hl
  · rfl
  · exact offset_of_compose hc (forall_atom_of_mapExponents?
      (P := fun a => (atom a).isAffine = false) hr (hu.isLinear_factor hl))

end Built

theorem scale_eq_of_isLike {a b : Atom K} (h : a.isLike b = true) : a.scale = b.scale :=
  (beq_iff.mp (Bool.and_eq_true_iff.mp h).2).2.1

theorem prefixFactor_eq (p : Prefix) : (p.factor : K) = 10 ^ p.power := by
  cases p <;> norm_num [Prefix.factor, Prefix.power, zpow_neg]

theorem prefixFactor_ne_zero (p : Prefix) : (p.factor : K) ≠ 0 := by
  rw [prefixFactor_eq]
  exact zpow_ne_zero _ (by norm_num)

/-- Units that are built have scales other than zero, also with powers that are not integers. -/
theorem Built.scale_ne_zero {powers : Exponent → Prop} {u : UnitOfMeasure K} (h : Built powers u) :
    u.scale ≠ 0 := by
  refine (h.invariant (P := fun u => u.scale ≠ 0) ?_ ?_ ?_ ?_ ?_ ?_ ?_ ?_).1
  · exact fun _ _ => one_ne_zero
  · intro symbol u v factor hu h
    obtain ⟨-, hf, rfl⟩ := scaled_eq_ok_iff.mp h
    exact mul_ne_zero hu (Scalar.exact_isFactor_iff.mp hf)
  · intro p u v hu h
    obtain ⟨-, rfl⟩ := prefixed_eq_ok_iff.mp h
    exact mul_ne_zero hu (prefixFactor_ne_zero _)
  · intro symbol u v factor offset hu h
    obtain ⟨-, hf, -, rfl⟩ := affine_eq_ok_iff.mp h
    exact mul_ne_zero hu (Scalar.exact_isFactor_iff.mp hf)
  · exact fun _ hu => hu
  · intro u tag hu
    cases u <;> exact hu
  · exact one_ne_zero
  · exact fun _ _ _ hs => Scalar.exact_isFactor_iff.mp hs

/-! ### The worth of factors -/

/-- The product of the scales of the factors, each to the power of its exponent. -/
def worth (factors : List (Atom K × Exponent)) : K :=
  (factors.map fun f => f.1.scale ^ f.2.value.num).prod

/-- A factor with an integer exponent and a scale other than zero. -/
def IntegralFactor (a : Atom K) (x : Exponent) : Prop :=
  a.scale ≠ 0 ∧ x.isInteger = true

@[simp]
theorem worth_nil : worth ([] : List (Atom K × Exponent)) = 1 := rfl

@[simp]
theorem worth_cons (f : Atom K × Exponent) (factors : List (Atom K × Exponent)) :
    worth (f :: factors) = f.1.scale ^ f.2.value.num * worth factors := by
  simp [worth]

theorem worth_append (l r : List (Atom K × Exponent)) : worth (l ++ r) = worth l * worth r := by
  simp [worth]

theorem worth_ne_zero {factors : List (Atom K × Exponent)}
    (h : ∀ f ∈ factors, IntegralFactor f.1 f.2) : worth factors ≠ 0 := by
  induction factors with
  | nil => exact one_ne_zero
  | cons f factors ih =>
    rw [worth_cons]
    exact mul_ne_zero (zpow_ne_zero _ (h f (by simp)).1) (ih fun g hg => h g (by simp [hg]))

theorem Merges.integralFactor {l r : List (Atom K × Exponent)} (h : Merges l r)
    (hl : ∀ f ∈ l, IntegralFactor f.1 f.2) : ∀ f ∈ r, IntegralFactor f.1 f.2 :=
  h.invariant (P := IntegralFactor) (fun _ _ _ _ _ _ hz ha hb =>
    ⟨ha.1, Exponent.isInteger_of_value_eq (Exponent.value_add?_of_isInteger ha.2 hb.2 hz)⟩) hl

/-- Merging keeps the worth. -/
theorem Merges.worth_eq {l r : List (Atom K × Exponent)} (h : Merges l r)
    (hl : ∀ f ∈ l, IntegralFactor f.1 f.2) : worth l = worth r := by
  induction h with
  | perm h => exact (h.map _).prod_eq
  | @like a b x y z l hab hz =>
    obtain ⟨ha, hx⟩ := hl (a, x) (by simp)
    obtain ⟨-, hy⟩ := hl (b, y) (by simp)
    have hnum := Exponent.num_eq_of_value_eq (Exponent.value_add?_of_isInteger hx hy hz)
    simp only [worth_cons]
    rw [← mul_assoc, ← scale_eq_of_isLike hab, ← zpow_add₀ ha, hnum]
  | zero a l => simp
  | trans hlm _ ihl ihr => exact (ihl hl).trans (ihr (hlm.integralFactor hl))

/-- Multiplying integer exponents by an integer raises the worth to it. -/
theorem worth_mapExponents? {f : Exponent → Option Exponent} {n : ℤ}
    (hf : ∀ x y, x.isInteger = true → f x = some y → y.value = (n * x.value.num : ℤ))
    {l r : List (Atom K × Exponent)} (h : mapExponents? f l = some r)
    (hl : ∀ e ∈ l, IntegralFactor e.1 e.2) :
    (∀ e ∈ r, IntegralFactor e.1 e.2) ∧ worth r = worth l ^ n := by
  induction l generalizing r with
  | nil =>
    cases h
    simp
  | cons e l ih =>
    simp only [mapExponents?] at h
    split at h
    · rename_i y mapped hy hm
      cases h
      obtain ⟨he, hx⟩ := hl e (by simp)
      obtain ⟨hr, hw⟩ := ih hm fun g hg => hl g (by simp [hg])
      have hyv := hf _ _ hx hy
      refine ⟨?_, ?_⟩
      · intro g hg
        rcases List.mem_cons.mp hg with rfl | hg
        · exact ⟨he, Exponent.isInteger_of_value_eq hyv⟩
        · exact hr g hg
      · rw [worth_cons, worth_cons, hw, Exponent.num_eq_of_value_eq hyv, mul_zpow, ← zpow_mul,
          mul_comm n]
    · cases h

/-! ### Faith -/

/-- The scale is the worth of the factors, whose exponents are integers. -/
structure Faithful (u : UnitOfMeasure K) : Prop where
  integral : ∀ f ∈ u.factors, IntegralFactor f.1 f.2
  scale_eq : u.scale = worth u.factors

theorem Faithful.scale_ne_zero {u : UnitOfMeasure K} (h : u.Faithful) : u.scale ≠ 0 := by
  rw [h.scale_eq]
  exact worth_ne_zero h.integral

theorem faithful_atom {a : Atom K} (h : a.scale ≠ 0) : (atom a).Faithful where
  integral f hf := by
    cases List.mem_singleton.mp hf
    exact ⟨h, rfl⟩
  scale_eq := by simp [factors, scale]

theorem faithful_one : (one : UnitOfMeasure K).Faithful where
  integral f hf := by cases hf
  scale_eq := rfl

/-- Composing factors that are worth the computed scale gives a unit of that scale, also when the
result is an atom of the record. -/
theorem faithful_of_compose {factors : List (Atom K × Exponent)} {d : Dimension} {s : K}
    {w : UnitOfMeasure K} (h : compose factors d s = .ok w)
    (hf : ∀ f ∈ factors, IntegralFactor f.1 f.2) (hs : s = worth factors) :
    w.Faithful ∧ w.scale = s := by
  obtain ⟨-, hm, hw⟩ := composed_of_compose h
  have hint := hm.integralFactor hf
  have hworth : s = worth w.factors := hs.trans (hm.worth_eq hf)
  have hscale : w.scale = s := by
    rcases hw with ⟨a, rfl⟩ | hw
    · have ha := faithful_atom (hint (a, 1) (List.mem_singleton.mpr rfl)).1
      exact ha.scale_eq.trans hworth.symm
    · rw [hw]
      rfl
  exact ⟨⟨hint, hscale.trans hworth⟩, hscale⟩

theorem multiply_faithful {u v w : UnitOfMeasure K} (hu : u.Faithful) (hv : v.Faithful)
    (h : u.multiply v = .ok w) : w.Faithful ∧ w.scale = u.scale * v.scale := by
  obtain ⟨-, -, d, -, hc⟩ := multiply_eq_ok_iff.mp h
  refine faithful_of_compose hc (fun f hf => ?_) ?_
  · exact (List.mem_append.mp hf).elim (hu.integral f) (hv.integral f)
  · rw [worth_append, hu.scale_eq, hv.scale_eq]

theorem divide_faithful {u v w : UnitOfMeasure K} (hu : u.Faithful) (hv : v.Faithful)
    (h : u.divide v = .ok w) : w.Faithful ∧ w.scale = u.scale / v.scale := by
  obtain ⟨-, -, -, d, inverted, -, hi, hc⟩ := divide_eq_ok_iff.mp h
  obtain ⟨hint, hworth⟩ := worth_mapExponents? (n := -1)
    (fun _ _ hx hxy => Exponent.value_neg?_of_isInteger hx hxy) hi hv.integral
  refine faithful_of_compose hc (fun f hf => ?_) ?_
  · exact (List.mem_append.mp hf).elim (hu.integral f) (hint f)
  · rw [worth_append, hworth, hu.scale_eq, hv.scale_eq, zpow_neg_one, div_eq_mul_inv]

theorem power_faithful {u w : UnitOfMeasure K} {p : Exponent} (hu : u.Faithful)
    (hp : p.isInteger = true) (h : u.power p = .ok w) :
    w.Faithful ∧ w.scale = u.scale ^ p.value.num := by
  rcases power_eq_ok_iff.mp h with
    ⟨rfl, rfl⟩ | ⟨rfl, -, rfl⟩ | ⟨-, -, -, d, raised, s, -, hr, hs, hc⟩
  · exact ⟨hu, by simp⟩
  · exact ⟨faithful_one, by simp [one, scale]⟩
  · have hraise := Scalar.raise_eq_zpow hp hs
    obtain ⟨hint, hworth⟩ := worth_mapExponents?
      (fun _ _ hx hxy => Exponent.value_mul?_of_isInteger hx hp hxy) hr hu.integral
    obtain ⟨hw, hscale⟩ := faithful_of_compose hc hint (by rw [hraise, hworth, hu.scale_eq])
    exact ⟨hw, hscale.trans hraise⟩

/-- **Faith.**  Units that are built with integer powers are faithful, whatever the signs of their
scales. -/
theorem Built.faithful {u : UnitOfMeasure K} (h : Built (·.isInteger = true) u) : u.Faithful := by
  induction h with
  | base symbol d => exact faithful_atom one_ne_zero
  | one => exact faithful_one
  | scaled _ h ih =>
    obtain ⟨-, hf, rfl⟩ := scaled_eq_ok_iff.mp h
    exact faithful_atom (mul_ne_zero ih.scale_ne_zero (Scalar.exact_isFactor_iff.mp hf))
  | prefixed _ h ih =>
    obtain ⟨-, rfl⟩ := prefixed_eq_ok_iff.mp h
    exact faithful_atom (mul_ne_zero ih.scale_ne_zero (prefixFactor_ne_zero _))
  | affine _ h ih =>
    obtain ⟨-, hf, -, rfl⟩ := affine_eq_ok_iff.mp h
    exact faithful_atom (mul_ne_zero ih.scale_ne_zero (Scalar.exact_isFactor_iff.mp hf))
  | withSymbol _ symbol ih => exact faithful_atom ih.scale_ne_zero
  | @tagged u _ tag ih =>
    cases u with
    | atom a => exact faithful_atom ih.scale_ne_zero
    | product factors d s => exact ih
  | multiply _ _ h ihu ihv => exact (multiply_faithful ihu ihv h).1
  | divide _ _ h ihu ihv => exact (divide_faithful ihu ihv h).1
  | power _ hp h ih => exact (power_faithful ih hp h).1

/-! ### The laws of scales -/

/-- The units that are built with integer powers only. -/
abbrev IntegrallyBuilt (u : UnitOfMeasure K) : Prop :=
  Built (·.isInteger = true) u

/-- **Scales over exact scalars.**  On units that are built with integer powers, in any order and
with scales of any sign, every operation acts on the scale as the field does; so a unit without
factors, which is written `1`, has the scale 1. -/
theorem scale_laws :
    (∀ u v w : UnitOfMeasure K, IntegrallyBuilt u → IntegrallyBuilt v → u.multiply v = .ok w →
      w.scale = u.scale * v.scale) ∧
    (∀ u v w : UnitOfMeasure K, IntegrallyBuilt u → IntegrallyBuilt v → u.divide v = .ok w →
      w.scale = u.scale / v.scale) ∧
    (∀ u w : UnitOfMeasure K, IntegrallyBuilt u → u.invert = .ok w → w.scale = 1 / u.scale) ∧
    (∀ (u w : UnitOfMeasure K) (p : Exponent), IntegrallyBuilt u → p.isInteger = true →
      u.power p = .ok w → w.scale = u.scale ^ p.value.num) ∧
    (∀ (symbol : String) (u v : UnitOfMeasure K) (factor : K), IntegrallyBuilt u →
      scaled symbol u factor = .ok v → v.scale = u.scale * factor) ∧
    (∀ (p : Prefix) (u v : UnitOfMeasure K), IntegrallyBuilt u → prefixed p u = .ok v →
      v.scale = u.scale * 10 ^ p.power) ∧
    (∀ (symbol : String) (u : UnitOfMeasure K), IntegrallyBuilt u →
      (u.withSymbol symbol).scale = u.scale) ∧
    (∀ u : UnitOfMeasure K, IntegrallyBuilt u → u.factors = [] → u.text = "1" ∧ u.scale = 1) := by
  refine ⟨?_, ?_, ?_, ?_, ?_, ?_, ?_, ?_⟩
  · intro u v w hu hv h
    exact (multiply_faithful hu.faithful hv.faithful h).2
  · intro u v w hu hv h
    exact (divide_faithful hu.faithful hv.faithful h).2
  · intro u w hu h
    exact (divide_faithful faithful_one hu.faithful h).2
  · intro u w p hu hp h
    exact (power_faithful hu.faithful hp h).2
  · intro symbol u v factor hu h
    obtain ⟨-, -, rfl⟩ := scaled_eq_ok_iff.mp h
    rfl
  · intro p u v hu h
    obtain ⟨-, rfl⟩ := prefixed_eq_ok_iff.mp h
    rw [← prefixFactor_eq]
    rfl
  · intro symbol u hu
    rfl
  · intro u hu hf
    constructor
    · cases u with
      | atom a => cases hf
      | product factors d s =>
        cases hf
        rfl
    · rw [hu.faithful.scale_eq, hf, worth_nil]

/-- The square of a unit of scale -2, divided by the unit, is the unit again and has its scale. -/
theorem scale_laws_reversed_unit :
    ∃ r q w : UnitOfMeasure ℚ, scaled "r" (base "m" (.of .length)) (-2) = .ok r ∧
      r.power (.ofInt8 2) = .ok q ∧ q.divide r = .ok w ∧ w.symbol? = some "r" ∧
      r.scale = (base "m" (.of .length) : UnitOfMeasure ℚ).scale * -2 ∧
      q.scale = r.scale ^ (2 : ℤ) ∧ w.scale = q.scale / r.scale := by
  let r : Except (MeasureError ℚ) (UnitOfMeasure ℚ) := scaled "r" (base "m" (.of .length)) (-2)
  let run := r.bind fun r => (r.power (.ofInt8 2)).bind fun q => q.divide r
  obtain ⟨w, hrun⟩ := Result.exists_of_isOk (x := run) (by decide +kernel)
  have hsymbol : (run.map symbol?).toOption = some (some "r") := by decide +kernel
  obtain ⟨r, hr, hrw⟩ := Result.bind_eq_ok.mp hrun
  obtain ⟨q, hq, hw⟩ := Result.bind_eq_ok.mp hrw
  rw [hrun] at hsymbol
  have hm : IntegrallyBuilt (base "m" (.of .length) : UnitOfMeasure ℚ) := .base _ _
  have hri : IntegrallyBuilt r := .scaled hm hr
  have hqi : IntegrallyBuilt q := .power hri (by decide) hq
  exact ⟨r, q, w, hr, hq, hw, Option.some.inj hsymbol,
    scale_laws.2.2.2.2.1 "r" _ r (-2) hm hr,
    scale_laws.2.2.2.1 r q (.ofInt8 2) hri (by decide) hq,
    scale_laws.2.1 q r w hqi hri hw⟩

end Metrology.UnitOfMeasure
