import Mathlib.Order.Compare
import Metrology.Proofs.Quantity.BaseValue

/-!
# The order of quantities

Quantities of one dimension are ordered by their base values, and that is what `compare?` and `==` go
by.  The comparison `compare` works in the unit of the first quantity instead.  Over exact scalars
the two agree as long as the scale of that unit is positive; a negative scale counts backwards, so
that its values come in the reverse order of their base values (`compare_eq`).

So `compare` is an order among quantities whose units have scales of one sign: it is reversed when
its operands change places, and it is transitive (`compare_laws`).  Across units of different signs it
is neither: each of two quantities can be the greater (`compare_of_backward_metre`).
-/

namespace Metrology

open UnitOfMeasure Result
open scoped Exact

/-- A comparison comes out the same backwards for equal elements only. -/
theorem cmp_eq_cmp_swap_iff {A : Type} [LinearOrder A] {x y : A} : cmp x y = cmp y x ↔ x = y := by
  rw [← cmp_swap x y]
  rcases lt_trichotomy x y with h | rfl | h
  · simp [(cmp_eq_lt_iff _ _).mpr h, h.ne]
  · simp
  · simp [(cmp_eq_gt_iff _ _).mpr h, h.ne']

/-- Two comparisons in a row decide the comparison of the ends, unless they are opposed. -/
theorem cmp_eq_then {A : Type} [LinearOrder A] {x y z : A}
    (h : cmp y z = (cmp x y).swap → cmp x y = .eq) :
    cmp x z = (cmp x y).then (cmp y z) := by
  rcases lt_trichotomy x y with hxy | rfl | hxy
  · have hlt := (cmp_eq_lt_iff _ _).mpr hxy
    have hyz : y ≤ z := by
      by_contra hzy
      simp [hlt, (cmp_eq_gt_iff _ _).mpr (not_le.mp hzy)] at h
    rw [hlt, (cmp_eq_lt_iff _ _).mpr (hxy.trans_le hyz)]
    rfl
  · rw [cmp_self_eq_eq]
    rfl
  · have hgt := (cmp_eq_gt_iff _ _).mpr hxy
    have hzy : z ≤ y := by
      by_contra hyz
      simp [hgt, (cmp_eq_lt_iff _ _).mpr (not_le.mp hyz)] at h
    rw [hgt, (cmp_eq_gt_iff _ _).mpr (hzy.trans_lt hxy)]
    rfl

variable {K : Type} [Field K] [LinearOrder K] [IsStrictOrderedRing K] [FloorRing K] [RealPowers K]

namespace UnitOfMeasure

variable {u : UnitOfMeasure K}

theorem toBase_strictMono (h : 0 < u.scale) : StrictMono u.toBase :=
  fun _ _ hxy => add_lt_add_left (mul_lt_mul_of_pos_left hxy h) u.offset

theorem toBase_strictAnti (h : u.scale < 0) : StrictAnti u.toBase :=
  fun _ _ hxy => add_lt_add_left (mul_lt_mul_of_neg_left hxy h) u.offset

end UnitOfMeasure

namespace Quantity

variable {p q r : Quantity K} {o o' : Ordering}

/-! ### The two comparisons -/

/-- A comparison takes place among base values, backwards when the scale of the first unit is
negative. -/
theorem compare_eq (hp : p.unit.scale ≠ 0) (hd : p.dimension = q.dimension) :
    p.compare q = .ok (if 0 < p.unit.scale then cmp p.toBaseValue q.toBaseValue
      else cmp q.toBaseValue p.toBaseValue) := by
  have hvalue : p.valueOf q = .ok (p.unit.fromBase q.toBaseValue) :=
    valueOf_eq_ok_iff.mpr ⟨hd, rfl⟩
  have hq : p.unit.toBase (p.unit.fromBase q.toBaseValue) = q.toBaseValue := toBase_fromBase hp _
  have hcompare : p.compare q = .ok (cmp p.value (p.unit.fromBase q.toBaseValue)) := by
    rw [cmp_eq_compare]
    exact map_eq_ok.mpr ⟨_, hvalue, rfl⟩
  rw [hcompare]
  split
  · rename_i hpos
    rw [← (toBase_strictMono hpos).cmp_map_eq, hq]
    rfl
  · rename_i hneg
    rw [← (toBase_strictAnti (hp.lt_of_le (not_lt.mp hneg))).cmp_map_eq, hq]
    rfl

/-- The partial comparison is that of the base values. -/
theorem compare?_eq (hd : p.dimension = q.dimension) :
    p.compare? q = some (cmp p.toBaseValue q.toBaseValue) := by
  rw [compare?, if_pos hd, Scalar.compare?]
  rcases lt_trichotomy p.toBaseValue q.toBaseValue with h | h | h
  · simp [h, (cmp_eq_lt_iff _ _).mpr h]
  · simp [h]
  · simp [h, h.not_gt, (cmp_eq_gt_iff _ _).mpr h]

theorem compare_eq_eq_iff (hp : p.unit.scale ≠ 0) (hd : p.dimension = q.dimension) :
    p.compare q = .ok .eq ↔ (p == q) = true := by
  rw [compare_eq hp hd, Except.ok.injEq, beq_iff, and_iff_right hd]
  split
  · exact cmp_eq_eq_iff _ _
  · exact (cmp_eq_eq_iff _ _).trans eq_comm

/-- Comparisons agree with the partial comparison in units of positive scale, and in others for equal
quantities only. -/
theorem compare_eq_compare?_iff (hp : p.unit.scale ≠ 0) (hd : p.dimension = q.dimension) :
    (∀ o, p.compare q = .ok o → p.compare? q = some o) ↔
      0 < p.unit.scale ∨ (p == q) = true := by
  rw [compare_eq hp hd, compare?_eq hd, beq_iff, and_iff_right hd]
  by_cases hpos : 0 < p.unit.scale
  · simp [hpos]
  · simp [hpos, cmp_eq_cmp_swap_iff]

/-- Comparisons are reversed with their operands when both scales have one sign, and across signs for
equal quantities only. -/
theorem compare_swap_iff (hp : p.unit.scale ≠ 0) (hq : q.unit.scale ≠ 0)
    (hd : p.dimension = q.dimension) :
    (∀ o, p.compare q = .ok o → q.compare p = .ok o.swap) ↔
      (0 < p.unit.scale ↔ 0 < q.unit.scale) ∨ (p == q) = true := by
  rw [compare_eq hp hd, compare_eq hq hd.symm, beq_iff, and_iff_right hd]
  by_cases hpos : 0 < p.unit.scale <;> by_cases hqpos : 0 < q.unit.scale
  · simp [hpos, hqpos]
  · simp [hpos, hqpos, ← cmp_eq_cmp_swap_iff]
  · simp [hpos, hqpos, ← cmp_eq_cmp_swap_iff, eq_comm]
  · simp [hpos, hqpos]

/-- Comparisons are transitive as long as the units compared in have scales of one sign. -/
theorem compare_trans (hp : p.unit.scale ≠ 0) (hq : q.unit.scale ≠ 0)
    (hsign : 0 < p.unit.scale ↔ 0 < q.unit.scale) (hpq : p.dimension = q.dimension)
    (hqr : q.dimension = r.dimension) (ho : p.compare q = .ok o) (ho' : q.compare r = .ok o')
    (h : o' = o.swap → o = .eq) : p.compare r = .ok (o.then o') := by
  rw [compare_eq hp hpq] at ho
  rw [compare_eq hq hqr] at ho'
  rw [compare_eq hp (hpq.trans hqr)]
  cases ho
  cases ho'
  by_cases hpos : 0 < p.unit.scale
  · simp only [hpos, ← hsign, if_true] at h ⊢
    rw [cmp_eq_then h]
  · simp only [hpos, ← hsign, if_false] at h ⊢
    exact congrArg Except.ok (cmp_eq_then (A := Kᵒᵈ) h)

/-! ### The laws -/

/-- **Comparison over exact scalars.**  For quantities of one dimension in reachable units, affine or
linear and with scales of any sign, the partial comparison orders the base values, and so does the
comparison when the scale of the first unit is positive; when it is negative the order is the reverse.
Equality comes out the same.  So the two agree exactly for a positive scale or equal quantities,
the comparison is reversed with its operands exactly for scales of one sign or equal quantities, and
for scales of one sign it is transitive. -/
theorem compare_laws (hp : Reachable p.unit) (hq : Reachable q.unit)
    (hpq : p.dimension = q.dimension) (hqr : q.dimension = r.dimension) :
    p.compare? q = some (cmp p.toBaseValue q.toBaseValue) ∧
    p.compare q = .ok (if 0 < p.unit.scale then cmp p.toBaseValue q.toBaseValue
      else cmp q.toBaseValue p.toBaseValue) ∧
    (p.compare q = .ok .eq ↔ (p == q) = true) ∧
    ((∀ o, p.compare q = .ok o → p.compare? q = some o) ↔
      0 < p.unit.scale ∨ (p == q) = true) ∧
    ((∀ o, p.compare q = .ok o → q.compare p = .ok o.swap) ↔
      (0 < p.unit.scale ↔ 0 < q.unit.scale) ∨ (p == q) = true) ∧
    ((0 < p.unit.scale ↔ 0 < q.unit.scale) → ∀ o o', p.compare q = .ok o → q.compare r = .ok o' →
      (o' = o.swap → o = .eq) → p.compare r = .ok (o.then o')) := by
  have hps := hp.scale_ne_zero
  have hqs := hq.scale_ne_zero
  exact ⟨compare?_eq hpq, compare_eq hps hpq, compare_eq_eq_iff hps hpq,
    compare_eq_compare?_iff hps hpq, compare_swap_iff hps hqs hpq,
    fun hsign _ _ => compare_trans hps hqs hsign hpq hqr⟩

/-- Temperatures on a scale that falls from a hundred kelvin and in a negative multiple of a kelvin:
they are compared backwards, with the base values of 80, -60 and -100 in the order of their fall. -/
theorem compare_laws_falling_scale :
    ∃ p q r : Quantity ℚ, Reachable p.unit ∧ Reachable q.unit ∧ p.unit.isAffine = true ∧
      p.unit.scale < 0 ∧ q.unit.scale < 0 ∧ p.compare? q = some (cmp p.toBaseValue q.toBaseValue) ∧
      p.compare? q = some .gt ∧ p.compare q = .ok .lt ∧ q.compare p = .ok .gt ∧
      q.compare r = .ok .lt ∧ p.compare r = .ok .lt := by
  let k : UnitOfMeasure ℚ := base "K" (.of .temperature)
  let c : UnitOfMeasure ℚ :=
    atom ⟨"c", .of .temperature, 1 * -2, 1 * 100, .affine k (-2) 100, 0⟩
  let d : UnitOfMeasure ℚ := atom ⟨"d", .of .temperature, 1 * -3, 0, .scaled k (-3), 0⟩
  have hc : affine "c" k (-2) 100 = .ok c :=
    affine_eq_ok_iff.mpr ⟨by decide +kernel, by decide +kernel, by decide +kernel, rfl⟩
  have hd : scaled "d" k (-3) = .ok d :=
    scaled_eq_ok_iff.mpr ⟨by decide +kernel, by decide +kernel, rfl⟩
  let p : Quantity ℚ := ⟨10, c⟩
  let q : Quantity ℚ := ⟨20, d⟩
  let r : Quantity ℚ := ⟨-100, k⟩
  have hp : Reachable p.unit := .affine (.base _ _) hc
  have hq : Reachable q.unit := .scaled (.base _ _) hd
  have hps : p.unit.scale < 0 := by decide +kernel
  have hqs : q.unit.scale < 0 := by decide +kernel
  have hsign : 0 < p.unit.scale ↔ 0 < q.unit.scale := iff_of_false hps.not_gt hqs.not_gt
  have hpq : p.compare q = .ok .lt := eq_ok_of_toOption (by decide +kernel)
  have hqr : q.compare r = .ok .lt := eq_ok_of_toOption (by decide +kernel)
  obtain ⟨hpartial, -, -, -, hswap, htrans⟩ :=
    compare_laws (p := p) (q := q) (r := r) hp hq rfl rfl
  exact ⟨p, q, r, hp, hq, by decide +kernel, hps, hqs, hpartial, by decide +kernel, hpq,
    hswap.mpr (.inl hsign) _ hpq, hqr, htrans hsign _ _ hpq hqr (by decide)⟩

/-- With the metre and the metre counted backwards, comparisons are no order: each of two lengths is
greater than the other where the partial comparison has one of them less, and three lengths follow one
another of which the last is less than the first. -/
theorem compare_of_backward_metre :
    ∃ m r : UnitOfMeasure ℚ, m = base "m" (.of .length) ∧ scaled "r" m (-1) = .ok r ∧
      Quantity.compare ⟨1, r⟩ ⟨2, m⟩ = .ok .gt ∧ Quantity.compare ⟨2, m⟩ ⟨1, r⟩ = .ok .gt ∧
      Quantity.compare? ⟨1, r⟩ ⟨2, m⟩ = some .lt ∧
      Quantity.compare ⟨0, m⟩ ⟨-1, r⟩ = .ok .lt ∧ Quantity.compare ⟨-1, r⟩ ⟨-5, m⟩ = .ok .lt ∧
      Quantity.compare ⟨0, m⟩ ⟨-5, m⟩ = .ok .gt := by
  let m : UnitOfMeasure ℚ := base "m" (.of .length)
  have hr : scaled "r" m (-1) = .ok (atom ⟨"r", .of .length, 1 * -1, 0, .scaled m (-1), 0⟩) :=
    scaled_eq_ok_iff.mpr ⟨by decide +kernel, by decide +kernel, rfl⟩
  exact ⟨m, _, rfl, hr, eq_ok_of_toOption (by decide +kernel),
    eq_ok_of_toOption (by decide +kernel),
    by decide +kernel, eq_ok_of_toOption (by decide +kernel), eq_ok_of_toOption (by decide +kernel),
    eq_ok_of_toOption (by decide +kernel)⟩

end Quantity

end Metrology
