import Metrology.Proofs.UnitOfMeasure.Balance

/-!
# Degrees of units and quantities

A reachable unit *has a degree* `δ` when its dimension has it; the operations on units, whenever they
give a result, act on the degrees as on vectors.  A quantity has the degree of its unit.  Sums,
differences and remainders stay in the unit of the first operand, and there is none unless the
second operand has the same degree (`Joins`); conversion asks the same of the target.
-/

namespace Metrology

open Result

variable {α : Type} [Scalar α]

namespace UnitOfMeasure

/-- A reachable unit whose dimension has the given exponents. -/
structure HasDegree (u : UnitOfMeasure α) (δ : Base → ℚ) : Prop where
  reachable : Reachable u
  degree_eq : u.dimension.degree = δ

variable {u v w : UnitOfMeasure α} {δ ε : Base → ℚ}

theorem hasDegree_one : (one : UnitOfMeasure α).HasDegree 0 :=
  ⟨.one, rfl⟩

theorem hasDegree_base {d : Dimension} (hd : d.degree = δ) (symbol : String) :
    (base symbol d : UnitOfMeasure α).HasDegree δ :=
  ⟨.base symbol d, hd⟩

namespace HasDegree

theorem scaled {symbol : String} {factor : α} (hu : u.HasDegree δ)
    (h : UnitOfMeasure.scaled symbol u factor = .ok v) : v.HasDegree δ := by
  refine ⟨.scaled hu.reachable h, ?_⟩
  obtain ⟨-, -, rfl⟩ := scaled_eq_ok_iff.mp h
  exact hu.degree_eq

theorem prefixed {p : Prefix} (hu : u.HasDegree δ) (h : UnitOfMeasure.prefixed p u = .ok v) :
    v.HasDegree δ := by
  refine ⟨.prefixed hu.reachable h, ?_⟩
  obtain ⟨-, rfl⟩ := prefixed_eq_ok_iff.mp h
  exact hu.degree_eq

theorem affine {symbol : String} {factor offset : α} (hu : u.HasDegree δ)
    (h : UnitOfMeasure.affine symbol u factor offset = .ok v) : v.HasDegree δ := by
  refine ⟨.affine hu.reachable h, ?_⟩
  obtain ⟨-, -, -, rfl⟩ := affine_eq_ok_iff.mp h
  exact hu.degree_eq

theorem withSymbol (hu : u.HasDegree δ) (symbol : String) : (u.withSymbol symbol).HasDegree δ :=
  ⟨.withSymbol hu.reachable symbol, hu.degree_eq⟩

theorem tagged (hu : u.HasDegree δ) (tag : Nat) : (u.tagged tag).HasDegree δ := by
  refine ⟨.tagged hu.reachable tag, ?_⟩
  cases u with
  | atom a => exact hu.degree_eq
  | product factors d s => exact hu.degree_eq

theorem multiply (hu : u.HasDegree δ) (hv : v.HasDegree ε) (h : u.multiply v = .ok w) :
    w.HasDegree (δ + ε) := by
  refine ⟨.multiply hu.reachable hv.reachable h, ?_⟩
  rw [(multiply_balanced hu.reachable.balanced hv.reachable.balanced h).2, hu.degree_eq,
    hv.degree_eq]

theorem divide (hu : u.HasDegree δ) (hv : v.HasDegree ε) (h : u.divide v = .ok w) :
    w.HasDegree (δ - ε) := by
  refine ⟨.divide hu.reachable hv.reachable h, ?_⟩
  rw [(divide_balanced hu.reachable.balanced hv.reachable.balanced h).2, hu.degree_eq, hv.degree_eq]

theorem invert (hu : u.HasDegree δ) (h : u.invert = .ok w) : w.HasDegree (-δ) := by
  have hw := hasDegree_one.divide hu h
  rwa [zero_sub] at hw

theorem power {p : Exponent} (hu : u.HasDegree δ) (h : u.power p = .ok w) :
    w.HasDegree (p.value • δ) := by
  refine ⟨.power hu.reachable trivial h, ?_⟩
  rw [(power_balanced hu.reachable.balanced h).2, hu.degree_eq]

theorem asUnit {p : Quantity α} {symbol : String} (hp : p.unit.HasDegree δ)
    (h : p.asUnit symbol = .ok v) : v.HasDegree δ :=
  hp.scaled (asUnit_eq_ok_iff.mp h)

/-- Units of one dimension have one degree. -/
theorem eq_of_dimension_eq (hu : u.HasDegree δ) (hv : v.HasDegree ε)
    (h : u.dimension = v.dimension) : δ = ε := by
  rw [← hu.degree_eq, ← hv.degree_eq, h]

end HasDegree

end UnitOfMeasure

namespace Quantity

/-- The result is in the unit of the first operand, and the operands have one dimension. -/
def Joins (p q r : Quantity α) : Prop :=
  p.dimension = q.dimension ∧ r.unit = p.unit

variable {p q r : Quantity α} {δ ε : Base → ℚ}

/-- The second operand in the unit of the first goes by way of base units. -/
theorem valueOf_eq_ok_iff {v : α} :
    p.valueOf q = .ok v ↔ p.dimension = q.dimension ∧ v = p.unit.fromBase q.toBaseValue := by
  unfold valueOf
  split
  · rename_i hd
    rw [convert_eq_ok_iff]
    exact and_congr_left' ⟨fun _ => hd, fun _ => hd.symm⟩
  · rename_i hd
    simp [hd]

theorem dimension_eq_of_valueOf {v : α} (h : p.valueOf q = .ok v) : p.dimension = q.dimension :=
  (valueOf_eq_ok_iff.mp h).1

theorem joins_of_add (h : p.add q = .ok r) : Joins p q r := by
  obtain ⟨v, hv, rfl⟩ := map_eq_ok.mp h
  exact ⟨dimension_eq_of_valueOf hv, rfl⟩

theorem joins_of_subtract (h : p.subtract q = .ok r) : Joins p q r := by
  obtain ⟨v, hv, rfl⟩ := map_eq_ok.mp h
  exact ⟨dimension_eq_of_valueOf hv, rfl⟩

theorem joins_of_remainder (h : p.remainder q = .ok r) : Joins p q r := by
  obtain ⟨parts, hparts, rfl⟩ := map_eq_ok.mp h
  obtain ⟨v, hv, hdiv⟩ := bind_eq_ok.mp hparts
  refine ⟨dimension_eq_of_valueOf hv, ?_⟩
  split at hdiv
  · cases hdiv
  · cases hdiv
    rfl

/-- An operation that joins its operands asks for one degree, and the result has it. -/
theorem Joins.hasDegree (h : Joins p q r) (hp : p.unit.HasDegree δ) (hq : q.unit.HasDegree ε) :
    δ = ε ∧ r.unit.HasDegree δ :=
  ⟨hp.eq_of_dimension_eq hq h.1, h.2 ▸ hp⟩

theorem dimension_eq_of_convertTo {target : UnitOfMeasure α} (h : p.convertTo target = .ok r) :
    p.dimension = r.dimension := by
  obtain ⟨v, hv, rfl⟩ := map_eq_ok.mp h
  exact (convert_eq_ok_iff.mp hv).1

theorem hasDegree_of_convertTo {target : UnitOfMeasure α} (hp : p.unit.HasDegree δ)
    (ht : target.HasDegree ε) (h : p.convertTo target = .ok r) : δ = ε ∧ r.unit.HasDegree ε := by
  obtain ⟨v, hv, rfl⟩ := map_eq_ok.mp h
  exact ⟨hp.eq_of_dimension_eq ht (convert_eq_ok_iff.mp hv).1, ht⟩

theorem hasDegree_of_multiply (hp : p.unit.HasDegree δ) (hq : q.unit.HasDegree ε)
    (h : p.multiply q = .ok r) : r.unit.HasDegree (δ + ε) := by
  obtain ⟨u, hu, rfl⟩ := map_eq_ok.mp h
  exact hp.multiply hq hu

theorem hasDegree_of_divide (hp : p.unit.HasDegree δ) (hq : q.unit.HasDegree ε)
    (h : p.divide q = .ok r) : r.unit.HasDegree (δ - ε) := by
  unfold divide at h
  split at h
  · cases h
  · obtain ⟨u, hu, rfl⟩ := map_eq_ok.mp h
    exact hp.divide hq hu

theorem hasDegree_of_divideFloor (hp : p.unit.HasDegree δ) (hq : q.unit.HasDegree ε)
    (h : p.divideFloor q = .ok r) : r.unit.HasDegree (δ - ε) := by
  obtain ⟨quotient, hquotient, rfl⟩ := map_eq_ok.mp h
  have hunit : quotient.floor.unit = quotient.unit := rfl
  rw [hunit]
  exact hasDegree_of_divide hp hq hquotient

theorem hasDegree_of_reciprocal (hp : p.unit.HasDegree δ) (h : p.reciprocal = .ok r) :
    r.unit.HasDegree (-δ) := by
  have hr := hasDegree_of_divide (p := number 1) UnitOfMeasure.hasDegree_one hp h
  rwa [zero_sub] at hr

theorem hasDegree_of_power {x : Exponent} (hp : p.unit.HasDegree δ) (h : p.power x = .ok r) :
    r.unit.HasDegree (x.value • δ) := by
  obtain ⟨u, hu, hv⟩ := bind_eq_ok.mp h
  obtain ⟨v, -, rfl⟩ := map_eq_ok.mp hv
  exact hp.power hu

theorem hasDegree_of_divideScalar {divisor : α} (hp : p.unit.HasDegree δ)
    (h : p.divideScalar divisor = .ok r) : r.unit.HasDegree δ := by
  unfold divideScalar at h
  split at h
  · cases h
  · cases h
    exact hp

end Quantity

end Metrology
