import Metrology.Proofs.UnitOfMeasure.Merging
import Metrology.Quantity.Basic

/-!
# Units that can be built

Units come about by the operations on units only.  `Built powers u` says that `u` does, from base
units and the unit `one`, with powers taken only to exponents in `powers`; `Reachable` admits all
exponents.  Reciprocals and units made from quantities are made of these operations
(`Built.invert`, `Built.asUnit`).  The factors of a linear unit are linear (`Built.isLinear_factor`).

A result of an operation is inverted once here: `scaled_eq_ok_iff` and its like say which atom was
defined, `multiply_eq_ok_iff`, `divide_eq_ok_iff` and `power_eq_ok_iff` which product was composed,
and `composed_of_compose` what composing does: the factors of the result are a merger of those that
were given, and a result that is not an atom of the record has the dimension and the scale that were
computed.
-/

namespace Metrology

open Result

variable {α : Type} [Scalar α]

theorem convert_eq_ok_iff {source target : UnitOfMeasure α} {x y : α} :
    convert x source target = .ok y ↔
      source.dimension = target.dimension ∧ y = target.fromBase (source.toBase x) := by
  cases hd : source.isCompatible target with
  | false =>
    have hne : source.dimension ≠ target.dimension := by simpa [UnitOfMeasure.isCompatible] using hd
    simp [convert, hd, hne]
  | true =>
    have heq : source.dimension = target.dimension := by simpa [UnitOfMeasure.isCompatible] using hd
    simp [convert, hd, heq, @eq_comm _ y]

namespace UnitOfMeasure

/-! ### Results of the operations -/

theorem scaled_eq_ok_iff {symbol : String} {u v : UnitOfMeasure α} {factor : α} :
    scaled symbol u factor = .ok v ↔
      u.isAffine = false ∧ Scalar.isFactor factor = true ∧
        v = atom ⟨symbol, u.dimension, u.scale * factor, 0, .scaled u factor, 0⟩ := by
  cases ha : u.isAffine <;> cases hf : Scalar.isFactor factor <;> simp [scaled, ha, hf, eq_comm]

theorem prefixed_eq_ok_iff {p : Prefix} {u v : UnitOfMeasure α} :
    prefixed p u = .ok v ↔
      u.isAffine = false ∧
        v = atom ⟨p.symbol ++ u.text, u.dimension, u.scale * p.factor, 0, .prefixed p u, 0⟩ := by
  cases ha : u.isAffine <;> simp [prefixed, ha, eq_comm]

theorem affine_eq_ok_iff {symbol : String} {u v : UnitOfMeasure α} {factor offset : α} :
    affine symbol u factor offset = .ok v ↔
      u.isAffine = false ∧ Scalar.isFactor factor = true ∧ Scalar.isFinite offset = true ∧
        v = atom ⟨symbol, u.dimension, u.scale * factor, u.scale * offset,
          .affine u factor offset, 0⟩ := by
  cases ha : u.isAffine <;> cases hf : Scalar.isFactor factor <;>
    cases ho : Scalar.isFinite offset <;> simp [affine, ha, hf, ho, eq_comm]

theorem multiply_eq_ok_iff {u v w : UnitOfMeasure α} :
    u.multiply v = .ok w ↔
      u.isAffine = false ∧ v.isAffine = false ∧
        ∃ d, u.dimension.multiply? v.dimension = some d ∧
          compose (u.factors ++ v.factors) d (u.scale * v.scale) = .ok w := by
  cases hu : u.isAffine <;> cases hv : v.isAffine <;>
    cases hd : u.dimension.multiply? v.dimension <;> simp [multiply, hu, hv, hd]

theorem divide_eq_ok_iff {u v w : UnitOfMeasure α} :
    u.divide v = .ok w ↔
      u.isAffine = false ∧ v.isAffine = false ∧ (v.scale == 0) = false ∧
        ∃ d inverted, u.dimension.divide? v.dimension = some d ∧
          mapExponents? Exponent.neg? v.factors = some inverted ∧
          compose (u.factors ++ inverted) d (u.scale / v.scale) = .ok w := by
  cases hu : u.isAffine <;> cases hv : v.isAffine <;> cases hs : v.scale == 0 <;>
    cases hd : u.dimension.divide? v.dimension <;>
    cases hf : mapExponents? Exponent.neg? v.factors <;> simp [divide, hu, hv, hs, hd, hf]

/-- Composing fails for other reasons, so a quotient is refused as a division by zero for the scale of
the divisor only. -/
theorem divide_eq_divisionByZero_iff {u v : UnitOfMeasure α} :
    u.divide v = .error .divisionByZero ↔
      u.isAffine = false ∧ v.isAffine = false ∧ (v.scale == 0) = true := by
  have hc : ∀ (factors : List (Atom α × Exponent)) (d : Dimension) (s : α),
      compose factors d s ≠ .error .divisionByZero := by
    intro factors d s h
    rcases error_of_compose h with he | ⟨overflow, he⟩ <;> cases he
  cases hu : u.isAffine <;> cases hv : v.isAffine <;> cases hs : v.scale == 0 <;>
    cases hd : u.dimension.divide? v.dimension <;>
    cases hf : mapExponents? Exponent.neg? v.factors <;> simp [divide, hu, hv, hs, hd, hf, hc]

/-- A power other than the first and the zeroth is composed of the raised factors. -/
theorem power_eq_ok_iff {u w : UnitOfMeasure α} {p : Exponent} :
    u.power p = .ok w ↔
      (p = 1 ∧ w = u) ∨ (p = 0 ∧ u.isAffine = false ∧ w = one) ∨
        (p ≠ 1 ∧ p ≠ 0 ∧ u.isAffine = false ∧
          ∃ d raised s, u.dimension.power? p = some d ∧
            mapExponents? (·.mul? p) u.factors = some raised ∧
            Scalar.raise u.scale p = .ok s ∧ compose raised d s = .ok w) := by
  have h01 : (0 : Exponent) ≠ 1 := by decide
  have h10 : (1 : Exponent) ≠ 0 := by decide
  by_cases h1 : p = 1
  · subst h1
    simp [power, h10, @eq_comm _ u w]
  by_cases h0 : p = 0
  · subst h0
    cases hu : u.isAffine <;> simp [power, hu, h01, @eq_comm _ one w]
  cases hu : u.isAffine <;> cases hd : u.dimension.power? p <;>
    cases hf : mapExponents? (·.mul? p) u.factors <;>
    simp [power, h1, h0, hu, hd, hf, bind_eq_ok]

theorem asUnit_eq_ok_iff {p : Quantity α} {symbol : String} {v : UnitOfMeasure α} :
    p.asUnit symbol = .ok v ↔ scaled symbol p.unit p.value = .ok v := by
  cases ha : p.unit.isAffine <;> simp [Quantity.asUnit, scaled, ha]

/-- What composing makes of factors with a computed dimension and scale: their merger, with the
computed dimension and scale unless the merger is an atom. -/
theorem composed_of_compose {factors : List (Atom α × Exponent)} {d : Dimension} {s : α}
    {w : UnitOfMeasure α} (h : compose factors d s = .ok w) :
    Scalar.isFactor s = true ∧ Merges factors w.factors ∧
      ((∃ a, w = atom a) ∨ w = product w.factors d s) := by
  obtain ⟨hs, kept, hk, rfl⟩ := compose_eq_ok_iff.mp h
  have hm := merges_of_remaining hk
  rcases settle_cases kept d s with ⟨a, rfl, hw⟩ | ⟨-, hw⟩
  · rw [hw]
    exact ⟨hs, hm, .inl ⟨a, rfl⟩⟩
  · rw [hw]
    exact ⟨hs, hm, .inr rfl⟩

/-! ### Atoms of products -/

section Factors

variable {P : Atom α → Prop} {u v w : UnitOfMeasure α}

omit [Scalar α] in
/-- An atom is its one factor. -/
theorem forall_factor_atom {a : Atom α} (ha : P a) : ∀ f ∈ (atom a).factors, P f.1 := by
  intro f hf
  cases List.mem_singleton.mp hf
  exact ha

/-- A composed unit has no atoms but those that it was composed of. -/
theorem forall_factor_of_compose {factors : List (Atom α × Exponent)} {d : Dimension} {s : α}
    (h : compose factors d s = .ok w) (hf : ∀ f ∈ factors, P f.1) : ∀ f ∈ w.factors, P f.1 :=
  (composed_of_compose h).2.1.invariant_atom hf

theorem forall_factor_of_multiply (h : u.multiply v = .ok w) (hu : ∀ f ∈ u.factors, P f.1)
    (hv : ∀ f ∈ v.factors, P f.1) : ∀ f ∈ w.factors, P f.1 := by
  obtain ⟨-, -, d, -, hc⟩ := multiply_eq_ok_iff.mp h
  exact forall_factor_of_compose hc fun f hf => (List.mem_append.mp hf).elim (hu f) (hv f)

theorem forall_factor_of_divide (h : u.divide v = .ok w) (hu : ∀ f ∈ u.factors, P f.1)
    (hv : ∀ f ∈ v.factors, P f.1) : ∀ f ∈ w.factors, P f.1 := by
  obtain ⟨-, -, -, d, inverted, -, hi, hc⟩ := divide_eq_ok_iff.mp h
  have hfi := forall_atom_of_mapExponents? hi hv
  exact forall_factor_of_compose hc fun f hf => (List.mem_append.mp hf).elim (hu f) (hfi f)

theorem forall_factor_of_power {p : Exponent} (h : u.power p = .ok w)
    (hu : ∀ f ∈ u.factors, P f.1) : ∀ f ∈ w.factors, P f.1 := by
  rcases power_eq_ok_iff.mp h with
    ⟨-, rfl⟩ | ⟨-, -, rfl⟩ | ⟨-, -, -, d, raised, s, -, hr, -, hc⟩
  · exact hu
  · exact fun f hf => by cases hf
  · exact forall_factor_of_compose hc (forall_atom_of_mapExponents? hr hu)

end Factors

/-! ### Reachability -/

/-- The units that come about by the operations, with powers to the given exponents only. -/
inductive Built (powers : Exponent → Prop) : UnitOfMeasure α → Prop
  | base (symbol : String) (d : Dimension) : Built powers (base symbol d)
  | one : Built powers one
  | scaled {symbol : String} {u v : UnitOfMeasure α} {factor : α} (hu : Built powers u)
      (h : scaled symbol u factor = .ok v) : Built powers v
  | prefixed {p : Prefix} {u v : UnitOfMeasure α} (hu : Built powers u)
      (h : prefixed p u = .ok v) : Built powers v
  | affine {symbol : String} {u v : UnitOfMeasure α} {factor offset : α} (hu : Built powers u)
      (h : affine symbol u factor offset = .ok v) : Built powers v
  | withSymbol {u : UnitOfMeasure α} (hu : Built powers u) (symbol : String) :
      Built powers (u.withSymbol symbol)
  | tagged {u : UnitOfMeasure α} (hu : Built powers u) (tag : Nat) : Built powers (u.tagged tag)
  | multiply {u v w : UnitOfMeasure α} (hu : Built powers u) (hv : Built powers v)
      (h : u.multiply v = .ok w) : Built powers w
  | divide {u v w : UnitOfMeasure α} (hu : Built powers u) (hv : Built powers v)
      (h : u.divide v = .ok w) : Built powers w
  | power {u w : UnitOfMeasure α} {p : Exponent} (hu : Built powers u) (hp : powers p)
      (h : u.power p = .ok w) : Built powers w

/-- The units that come about by the operations. -/
abbrev Reachable (u : UnitOfMeasure α) : Prop :=
  Built (fun _ => True) u

namespace Built

variable {powers : Exponent → Prop} {u v w : UnitOfMeasure α}

theorem reachable (h : Built powers u) : Reachable u := by
  induction h with
  | base symbol d => exact .base symbol d
  | one => exact .one
  | scaled _ h ih => exact .scaled ih h
  | prefixed _ h ih => exact .prefixed ih h
  | affine _ h ih => exact .affine ih h
  | withSymbol _ symbol ih => exact .withSymbol ih symbol
  | tagged _ tag ih => exact .tagged ih tag
  | multiply _ _ h ihu ihv => exact .multiply ihu ihv h
  | divide _ _ h ihu ihv => exact .divide ihu ihv h
  | power _ _ h ih => exact .power ih trivial h

theorem invert (hu : Built powers u) (h : u.invert = .ok w) : Built powers w :=
  .divide .one hu h

theorem asUnit {p : Quantity α} {symbol : String} (hp : Built powers p.unit)
    (h : p.asUnit symbol = .ok v) : Built powers v :=
  .scaled hp (asUnit_eq_ok_iff.mp h)

theorem metricFamily {family : List (UnitOfMeasure α)} (hu : Built powers u)
    (h : u.metricFamily = .ok family) : ∀ v ∈ family, Built powers v := by
  intro v hv
  obtain ⟨p, -, hp⟩ := exists_of_mem_mapM h v hv
  exact .prefixed hu hp

/-- A property that definitions of units keep, and that products of checked scale have, holds of the
units that are built and of the atoms among their factors. -/
theorem invariant {P : UnitOfMeasure α → Prop}
    (hbase : ∀ symbol d, P (UnitOfMeasure.base symbol d))
    (hscaled : ∀ {symbol u v factor}, P u → UnitOfMeasure.scaled symbol u factor = .ok v → P v)
    (hprefixed : ∀ {p u v}, P u → UnitOfMeasure.prefixed p u = .ok v → P v)
    (haffine : ∀ {symbol u v factor offset}, P u →
      UnitOfMeasure.affine symbol u factor offset = .ok v → P v)
    (hwithSymbol : ∀ {u} symbol, P u → P (u.withSymbol symbol))
    (htagged : ∀ {u} tag, P u → P (u.tagged tag)) (hone : P UnitOfMeasure.one)
    (hproduct : ∀ factors d s, Scalar.isFactor s = true → P (product factors d s))
    (h : Built powers u) : P u ∧ ∀ f ∈ u.factors, P (UnitOfMeasure.atom f.1) := by
  have hatom : ∀ a, P (UnitOfMeasure.atom a) →
      P (UnitOfMeasure.atom a) ∧ ∀ f ∈ (UnitOfMeasure.atom a).factors, P (UnitOfMeasure.atom f.1) := by
    intro a ha
    exact ⟨ha, forall_factor_atom (P := fun a => P (UnitOfMeasure.atom a)) ha⟩
  have hcompose : ∀ {factors d s w}, compose factors d s = .ok w →
      (∀ f ∈ factors, P (UnitOfMeasure.atom f.1)) →
      P w ∧ ∀ f ∈ w.factors, P (UnitOfMeasure.atom f.1) := by
    intro factors d s w hc hf
    obtain ⟨hs, -, hw⟩ := composed_of_compose hc
    have hfw := forall_factor_of_compose (P := fun a => P (UnitOfMeasure.atom a)) hc hf
    rcases hw with ⟨a, rfl⟩ | hw
    · exact hatom a (hfw (a, 1) (List.mem_singleton.mpr rfl))
    · exact ⟨hw ▸ hproduct _ _ _ hs, hfw⟩
  induction h with
  | base symbol d => exact hatom _ (hbase symbol d)
  | one => exact ⟨hone, fun f hf => by cases hf⟩
  | scaled _ h ih =>
    have hv := hscaled ih.1 h
    obtain ⟨-, -, rfl⟩ := scaled_eq_ok_iff.mp h
    exact hatom _ hv
  | prefixed _ h ih =>
    have hv := hprefixed ih.1 h
    obtain ⟨-, rfl⟩ := prefixed_eq_ok_iff.mp h
    exact hatom _ hv
  | affine _ h ih =>
    have hv := haffine ih.1 h
    obtain ⟨-, -, -, rfl⟩ := affine_eq_ok_iff.mp h
    exact hatom _ hv
  | withSymbol _ symbol ih => exact hatom _ (hwithSymbol symbol ih.1)
  | @tagged u _ tag ih =>
    cases u with
    | atom a => exact hatom _ (htagged tag ih.1)
    | product factors d s => exact ih
  | multiply _ _ h ihu ihv =>
    obtain ⟨-, -, d, -, hc⟩ := multiply_eq_ok_iff.mp h
    exact hcompose hc fun f hf => (List.mem_append.mp hf).elim (ihu.2 f) (ihv.2 f)
  | divide _ _ h ihu ihv =>
    obtain ⟨-, -, -, d, inverted, -, hi, hc⟩ := divide_eq_ok_iff.mp h
    have hfi := forall_atom_of_mapExponents? (P := fun a => P (UnitOfMeasure.atom a)) hi ihv.2
    exact hcompose hc fun f hf => (List.mem_append.mp hf).elim (ihu.2 f) (hfi f)
  | power _ _ h ih =>
    rcases power_eq_ok_iff.mp h with
      ⟨-, rfl⟩ | ⟨-, -, rfl⟩ | ⟨-, -, -, d, raised, s, -, hr, -, hc⟩
    · exact ih
    · exact ⟨hone, fun f hf => by cases hf⟩
    · exact hcompose hc
        (forall_atom_of_mapExponents? (P := fun a => P (UnitOfMeasure.atom a)) hr ih.2)

/-- Linear units are composed of linear atoms, for affine operands are refused. -/
theorem isLinear_factor (h : Built powers u) (hu : u.isAffine = false) :
    ∀ f ∈ u.factors, (UnitOfMeasure.atom f.1).isAffine = false := by
  have hatom : ∀ a : Atom α, (UnitOfMeasure.atom a).isAffine = false →
      ∀ f ∈ (UnitOfMeasure.atom a).factors, (UnitOfMeasure.atom f.1).isAffine = false := fun a ha =>
    forall_factor_atom (P := fun a => (UnitOfMeasure.atom a).isAffine = false) ha
  induction h with
  | base symbol d => exact hatom _ hu
  | one => exact fun f hf => by cases hf
  | scaled _ h =>
    obtain ⟨-, -, rfl⟩ := scaled_eq_ok_iff.mp h
    exact hatom _ hu
  | prefixed _ h =>
    obtain ⟨-, rfl⟩ := prefixed_eq_ok_iff.mp h
    exact hatom _ hu
  | affine _ h =>
    obtain ⟨-, -, -, rfl⟩ := affine_eq_ok_iff.mp h
    exact hatom _ hu
  | withSymbol _ symbol => exact hatom _ hu
  | @tagged u _ tag ih =>
    cases u with
    | atom a => exact hatom _ hu
    | product factors d s => exact ih hu
  | multiply _ _ h ihu ihv =>
    obtain ⟨hlu, hlv, -⟩ := multiply_eq_ok_iff.mp h
    exact forall_factor_of_multiply (P := fun a => (UnitOfMeasure.atom a).isAffine = false) h
      (ihu hlu) (ihv hlv)
  | divide _ _ h ihu ihv =>
    obtain ⟨hlu, hlv, -⟩ := divide_eq_ok_iff.mp h
    exact forall_factor_of_divide (P := fun a => (UnitOfMeasure.atom a).isAffine = false) h
      (ihu hlu) (ihv hlv)
  | power _ _ h ih =>
    rcases power_eq_ok_iff.mp h with ⟨-, rfl⟩ | ⟨-, -, rfl⟩ | ⟨-, -, hl, -⟩
    · exact ih hu
    · exact fun f hf => by cases hf
    · exact forall_factor_of_power (P := fun a => (UnitOfMeasure.atom a).isAffine = false) h (ih hl)

end Built

end UnitOfMeasure

end Metrology
