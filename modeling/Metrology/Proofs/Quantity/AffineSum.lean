import Metrology.Proofs.Quantity.BaseValue

/-!
# Sums in affine units

A sum is taken in the unit of the first operand: the second one is converted to that unit, and the two
values are added.  In an affine unit this counts the zero of the scale once and not twice, so over
exact scalars the base value of the sum is short of the sum of the base values by the offset of the
unit of the first operand (`toBaseValue_of_add`).  The second unit has no such part in it.

So the order of the operands matters exactly when the units have different offsets
(`add_comm_iff`): never among linear units, and always between a scale with a zero of its own and an
absolute one (`add_celsius_kelvin`).
-/

namespace Metrology.Quantity

open UnitOfMeasure Result
open scoped Exact

variable {K : Type} [Field K] [LinearOrder K] [IsStrictOrderedRing K] [FloorRing K] [RealPowers K]
  {p q r r' : Quantity K}

/-- The base value of a sum is that of the operands together, less the offset of the first unit. -/
theorem toBaseValue_of_add (hp : p.unit.scale ≠ 0) (h : p.add q = .ok r) :
    r.toBaseValue = p.toBaseValue + q.toBaseValue - p.unit.offset := by
  obtain ⟨v, hv, rfl⟩ := map_eq_ok.mp h
  obtain ⟨-, rfl⟩ := valueOf_eq_ok_iff.mp hv
  set v := p.unit.fromBase q.toBaseValue with hvdef
  have hq : p.unit.scale * v + p.unit.offset = q.toBaseValue := by
    rw [hvdef]
    exact toBase_fromBase hp _
  calc (p.withValue (p.value + v)).toBaseValue
      = p.unit.scale * (p.value + v) + p.unit.offset := rfl
    _ = p.unit.scale * p.value + p.unit.offset + (p.unit.scale * v + p.unit.offset) -
        p.unit.offset := by ring
    _ = p.toBaseValue + q.toBaseValue - p.unit.offset := by rw [hq]; rfl

theorem exists_add (hd : p.dimension = q.dimension) : ∃ r, p.add q = .ok r :=
  ⟨_, map_eq_ok.mpr ⟨_, valueOf_eq_ok_iff.mpr ⟨hd, rfl⟩, rfl⟩⟩

theorem toBaseValue_add_comm_iff (hp : p.unit.scale ≠ 0) (hq : q.unit.scale ≠ 0)
    (h : p.add q = .ok r) (h' : q.add p = .ok r') :
    r.toBaseValue = r'.toBaseValue ↔ p.unit.offset = q.unit.offset := by
  rw [toBaseValue_of_add hp h, toBaseValue_of_add hq h', add_comm q.toBaseValue]
  exact sub_right_inj

/-- **Sums in either order.**  Over exact scalars, two quantities of one dimension in reachable units,
affine or linear, have a sum in either order.  Its base value is that of the operands together, less
the offset of the unit of the first one.  So the two sums have one base value exactly when the units
have one offset; in particular when both are linear. -/
theorem add_comm_iff (hp : Reachable p.unit) (hq : Reachable q.unit)
    (hd : p.dimension = q.dimension) :
    ∃ r r', p.add q = .ok r ∧ q.add p = .ok r' ∧
      r.toBaseValue = p.toBaseValue + q.toBaseValue - p.unit.offset ∧
      r'.toBaseValue = p.toBaseValue + q.toBaseValue - q.unit.offset ∧
      (r.toBaseValue = r'.toBaseValue ↔ p.unit.offset = q.unit.offset) ∧
      (p.unit.isAffine = false → q.unit.isAffine = false → r.toBaseValue = r'.toBaseValue) := by
  obtain ⟨r, h⟩ := exists_add hd
  obtain ⟨r', h'⟩ := exists_add hd.symm
  have hps := hp.scale_ne_zero
  have hqs := hq.scale_ne_zero
  have hcomm := toBaseValue_add_comm_iff hps hqs h h'
  refine ⟨r, r', h, h', toBaseValue_of_add hps h, ?_, hcomm, fun hpl hql => hcomm.mpr ?_⟩
  · rw [toBaseValue_of_add hqs h', add_comm q.toBaseValue]
  · rw [isAffine_eq_false_iff.mp hpl, isAffine_eq_false_iff.mp hql]

/-- Ten degrees Celsius and twenty of a scale of half degrees with the same zero have one sum in either
order. -/
theorem add_comm_iff_half_degrees :
    ∃ c h : UnitOfMeasure ℚ, affine "°C" (base "K" (.of .temperature)) 1 (5463 / 20) = .ok c ∧
      affine "°h" (base "K" (.of .temperature)) (1 / 2) (5463 / 20) = .ok h ∧
      ∃ r r' : Quantity ℚ, Quantity.add ⟨10, c⟩ ⟨20, h⟩ = .ok r ∧
        Quantity.add ⟨20, h⟩ ⟨10, c⟩ = .ok r' ∧ r.toBaseValue = r'.toBaseValue ∧
        r.toBaseValue = 5863 / 20 := by
  let k : UnitOfMeasure ℚ := base "K" (.of .temperature)
  let c : UnitOfMeasure ℚ :=
    atom ⟨"°C", .of .temperature, 1 * 1, 1 * (5463 / 20), .affine k 1 (5463 / 20), 0⟩
  let h : UnitOfMeasure ℚ :=
    atom ⟨"°h", .of .temperature, 1 * (1 / 2), 1 * (5463 / 20), .affine k (1 / 2) (5463 / 20), 0⟩
  have hc : affine "°C" k 1 (5463 / 20) = .ok c :=
    affine_eq_ok_iff.mpr ⟨by decide +kernel, by decide +kernel, by decide +kernel, rfl⟩
  have hh : affine "°h" k (1 / 2) (5463 / 20) = .ok h :=
    affine_eq_ok_iff.mpr ⟨by decide +kernel, by decide +kernel, by decide +kernel, rfl⟩
  obtain ⟨r, r', hr, hr', hbase, -, hcomm, -⟩ :=
    add_comm_iff (p := ⟨10, c⟩) (q := ⟨20, h⟩) (.affine (.base _ _) hc) (.affine (.base _ _) hh) rfl
  refine ⟨c, h, hc, hh, r, r', hr, hr', hcomm.mpr rfl, hbase.trans ?_⟩
  decide +kernel

/-- Ten degrees Celsius and 273.15 kelvins make 283.15 kelvins, and 556.30 kelvins in the other
order. -/
theorem add_celsius_kelvin :
    ∃ (k c : UnitOfMeasure ℚ) (r r' : Quantity ℚ), k = base "K" (.of .temperature) ∧
      affine "°C" k 1 (5463 / 20) = .ok c ∧ Reachable k ∧ Reachable c ∧
      k.dimension = c.dimension ∧ Quantity.add ⟨10, c⟩ ⟨5463 / 20, k⟩ = .ok r ∧
      Quantity.add ⟨5463 / 20, k⟩ ⟨10, c⟩ = .ok r' ∧ r.toBaseValue = 5663 / 20 ∧
      r'.toBaseValue = 5563 / 10 ∧ r.toBaseValue ≠ r'.toBaseValue := by
  let k : UnitOfMeasure ℚ := base "K" (.of .temperature)
  let c : UnitOfMeasure ℚ :=
    atom ⟨"°C", .of .temperature, 1 * 1, 1 * (5463 / 20), .affine k 1 (5463 / 20), 0⟩
  have hc : affine "°C" k 1 (5463 / 20) = .ok c :=
    affine_eq_ok_iff.mpr ⟨by decide +kernel, by decide +kernel, by decide +kernel, rfl⟩
  obtain ⟨r, hr⟩ := exists_add (p := ⟨10, c⟩) (q := ⟨5463 / 20, k⟩) rfl
  obtain ⟨r', hr'⟩ := exists_add (p := ⟨5463 / 20, k⟩) (q := ⟨10, c⟩) rfl
  have hbase : r.toBaseValue = 5663 / 20 :=
    (toBaseValue_of_add (by decide +kernel) hr).trans (by decide +kernel)
  have hbase' : r'.toBaseValue = 5563 / 10 :=
    (toBaseValue_of_add (by decide +kernel) hr').trans (by decide +kernel)
  refine ⟨k, c, r, r', rfl, hc, .base _ _, .affine (.base _ _) hc, rfl, hr, hr', hbase, hbase', ?_⟩
  rw [hbase, hbase']
  norm_num

end Metrology.Quantity
