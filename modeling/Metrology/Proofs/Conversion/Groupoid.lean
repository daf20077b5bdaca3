import Metrology.Proofs.Quantity.BaseValue

/-!
# Conversion over exact scalars

Over exact scalars every unit with a scale other than zero maps values to base units and back without
loss.  So conversions compose and can be undone, whatever the units they go through: the compatible
units form a groupoid (`convert_self`, `convert_trans`).  A `Conversion` is computed from the two units
by formulas of its own, its inverse by formulas on the coefficients; both agree with the way by base
units (`map_apply_between`, `map_inverse_between`).  A conversion is the identity exactly between equal
units (`between_eq_identity_iff`).

Units that can be built have scales other than zero, so these laws hold of all of them, affine ones
included (`conversion_laws`).
-/

namespace Metrology

open UnitOfMeasure Result
open scoped Exact

/-! ### When conversions fail -/

section Failure

variable {α : Type} [Scalar α] {a b : UnitOfMeasure α}

theorem convert_of_dimension_eq (h : a.dimension = b.dimension) (x : α) :
    convert x a b = .ok (b.fromBase (a.toBase x)) :=
  convert_eq_ok_iff.mpr ⟨h, rfl⟩

theorem convert_eq_error_iff {x : α} {e : MeasureError α} :
    convert x a b = .error e ↔ a.dimension ≠ b.dimension ∧ e = incompatible a b := by
  by_cases h : a.dimension = b.dimension <;>
    simp [convert, isCompatible, h, @eq_comm _ e]

namespace Conversion

/-- The coefficients of the map between two units, whatever their dimensions. -/
def ofUnits (a b : UnitOfMeasure α) : Conversion α :=
  ⟨a.scale / b.scale, (a.offset - b.offset) / b.scale⟩

theorem between_eq_ok_iff {c : Conversion α} :
    between a b = .ok c ↔ a.dimension = b.dimension ∧ c = ofUnits a b := by
  by_cases h : a.dimension = b.dimension <;>
    simp [between, isCompatible, h, ofUnits, @eq_comm _ c]

theorem between_eq_error_iff {e : MeasureError α} :
    between a b = .error e ↔ a.dimension ≠ b.dimension ∧ e = incompatible a b := by
  by_cases h : a.dimension = b.dimension <;>
    simp [between, isCompatible, h, @eq_comm _ e]

end Conversion

end Failure

/-! ### Composition -/

variable {K : Type} [Field K] [LinearOrder K] [IsStrictOrderedRing K] [FloorRing K] [RealPowers K]
  {a b c : UnitOfMeasure K}

theorem UnitOfMeasure.fromBase_toBase (h : a.scale ≠ 0) (x : K) : a.fromBase (a.toBase x) = x := by
  change (a.scale * x + a.offset - a.offset) / a.scale = x
  rw [add_sub_cancel_right, mul_div_cancel_left₀ _ h]

theorem convert_self (h : a.scale ≠ 0) (x : K) : convert x a a = .ok x := by
  rw [convert_of_dimension_eq rfl, fromBase_toBase h]

/-- A conversion by way of a third unit is the direct one. -/
theorem convert_trans (hb : b.scale ≠ 0) (hab : a.dimension = b.dimension)
    (hbc : b.dimension = c.dimension) (x : K) :
    (convert x a b).bind (fun y => convert y b c) = convert x a c := by
  have hbase : b.toBase (b.fromBase (a.toBase x)) = a.toBase x := toBase_fromBase hb _
  calc (convert x a b).bind (fun y => convert y b c)
      = convert (b.fromBase (a.toBase x)) b c := by rw [convert_of_dimension_eq hab]; rfl
    _ = .ok (c.fromBase (b.toBase (b.fromBase (a.toBase x)))) := convert_of_dimension_eq hbc _
    _ = convert x a c := by rw [hbase, convert_of_dimension_eq (hab.trans hbc)]

theorem convert_back (ha : a.scale ≠ 0) (hb : b.scale ≠ 0) (h : a.dimension = b.dimension) (x : K) :
    (convert x a b).bind (fun y => convert y b a) = .ok x := by
  rw [convert_trans hb h h.symm, convert_self ha]

namespace Conversion

/-! ### Coefficients -/

theorem apply_ofUnits (a b : UnitOfMeasure K) (x : K) :
    (ofUnits a b).apply x = b.fromBase (a.toBase x) := by
  change a.scale / b.scale * x + (a.offset - b.offset) / b.scale =
    (a.scale * x + a.offset - b.offset) / b.scale
  ring

/-- The coefficients give the values of the conversion, and fail with it. -/
theorem map_apply_between (a b : UnitOfMeasure K) (x : K) :
    (between a b).map (·.apply x) = convert x a b := by
  by_cases h : a.dimension = b.dimension
  · rw [between_eq_ok_iff.mpr ⟨h, rfl⟩, convert_of_dimension_eq h, ← apply_ofUnits]
    rfl
  · rw [between_eq_error_iff.mpr ⟨h, rfl⟩, convert_eq_error_iff.mpr ⟨h, rfl⟩]
    rfl

theorem inverse_ofUnits (hb : b.scale ≠ 0) : (ofUnits a b).inverse = ofUnits b a := by
  have hfactor : 1 / (a.scale / b.scale) = b.scale / a.scale := one_div_div _ _
  have hoffset : -((a.offset - b.offset) / b.scale) / (a.scale / b.scale) =
      (b.offset - a.offset) / a.scale := by
    rw [← neg_div, neg_sub, div_div_div_cancel_right₀ hb]
  exact congrArg₂ Conversion.mk hfactor hoffset

/-- The inverse of the coefficients is computed from them alone, and fits the units in reverse. -/
theorem map_inverse_between (hb : b.scale ≠ 0) (h : a.dimension = b.dimension) :
    (between a b).map inverse = between b a := by
  rw [between_eq_ok_iff.mpr ⟨h, rfl⟩, between_eq_ok_iff.mpr ⟨h.symm, inverse_ofUnits hb⟩]
  rfl

/-- Units are equal exactly when the conversion between them does nothing. -/
theorem between_eq_identity_iff (hb : b.scale ≠ 0) :
    between a b = .ok identity ↔ (a == b) = true := by
  have hfactor : 1 = a.scale / b.scale ↔ a.scale = b.scale := by
    rw [eq_comm, div_eq_one_iff_eq hb]
  have hoffset : 0 = (a.offset - b.offset) / b.scale ↔ a.offset = b.offset := by
    rw [eq_comm, div_eq_zero_iff, or_iff_left hb, sub_eq_zero]
  rw [between_eq_ok_iff, beq_iff, identity, ofUnits, Conversion.mk.injEq, hfactor, hoffset]

/-! ### The laws -/

/-- **Conversion is a groupoid.**  Over exact scalars, for reachable units, affine ones included: a
conversion by way of a third unit is the direct one, a conversion to the same unit changes nothing,
and a conversion and the one back undo each other.  The precomputed map has the values of the
conversion, its inverse is the map of the units in reverse, and it is the identity exactly between
equal units.  Conversions and maps fail exactly between units of different dimensions, and only
because of them. -/
theorem conversion_laws (ha : Reachable a) (hb : Reachable b) (x : K) :
    (∀ c, a.dimension = b.dimension → b.dimension = c.dimension →
      (convert x a b).bind (fun y => convert y b c) = convert x a c) ∧
    convert x a a = .ok x ∧
    (a.dimension = b.dimension → (convert x a b).bind (fun y => convert y b a) = .ok x) ∧
    (between a b).map (·.apply x) = convert x a b ∧
    (a.dimension = b.dimension → (between a b).map inverse = between b a) ∧
    (between a b = .ok identity ↔ (a == b) = true) ∧
    (∀ e, convert x a b = .error e ↔ a.dimension ≠ b.dimension ∧ e = incompatible a b) ∧
    (∀ e, between a b = .error e ↔ a.dimension ≠ b.dimension ∧ e = incompatible a b) := by
  have has := ha.scale_ne_zero
  have hbs := hb.scale_ne_zero
  exact ⟨fun _ hab hbc => convert_trans hbs hab hbc x, convert_self has x,
    fun hab => convert_back has hbs hab x, map_apply_between a b x,
    fun hab => map_inverse_between hbs hab, between_eq_identity_iff hbs,
    fun _ => convert_eq_error_iff, fun _ => between_eq_error_iff⟩

/-- From a falling affine scale by way of the Celsius scale to a multiple of the kelvin, back again,
and no way to the metre. -/
theorem conversion_laws_temperatures :
    ∃ k c d f : UnitOfMeasure ℚ, k = base "K" (.of .temperature) ∧
      affine "°C" k 1 (5463 / 20) = .ok c ∧ affine "°D" k (-2 / 3) (7463 / 20) = .ok d ∧
      scaled "°R" k (5 / 9) = .ok f ∧
      (convert 30 d c).bind (fun y => convert y c f) = convert 30 d f ∧
      convert 30 d c = .ok 80 ∧ (convert 30 d c).bind (fun y => convert y c d) = .ok 30 ∧
      (between d c).map (·.apply 30) = .ok 80 ∧ (between d c).map inverse = between c d ∧
      between d c ≠ .ok identity ∧ between d d = .ok identity ∧
      (convert 30 d (base "m" (.of .length))).isOk = false := by
  let k : UnitOfMeasure ℚ := base "K" (.of .temperature)
  let c : UnitOfMeasure ℚ :=
    atom ⟨"°C", .of .temperature, 1 * 1, 1 * (5463 / 20), .affine k 1 (5463 / 20), 0⟩
  let d : UnitOfMeasure ℚ :=
    atom ⟨"°D", .of .temperature, 1 * (-2 / 3), 1 * (7463 / 20), .affine k (-2 / 3) (7463 / 20), 0⟩
  let f : UnitOfMeasure ℚ := atom ⟨"°R", .of .temperature, 1 * (5 / 9), 0, .scaled k (5 / 9), 0⟩
  have hc : affine "°C" k 1 (5463 / 20) = .ok c :=
    affine_eq_ok_iff.mpr ⟨by decide +kernel, by decide +kernel, by decide +kernel, rfl⟩
  have hd : affine "°D" k (-2 / 3) (7463 / 20) = .ok d :=
    affine_eq_ok_iff.mpr ⟨by decide +kernel, by decide +kernel, by decide +kernel, rfl⟩
  have hf : scaled "°R" k (5 / 9) = .ok f :=
    scaled_eq_ok_iff.mpr ⟨by decide +kernel, by decide +kernel, rfl⟩
  have hcr : Reachable c := .affine (.base _ _) hc
  have hdr : Reachable d := .affine (.base _ _) hd
  have h80 : convert 30 d c = .ok 80 := convert_eq_ok_iff.mpr ⟨rfl, by decide +kernel⟩
  obtain ⟨htrans, -, hback, happly, hinverse, hidentity, -⟩ := conversion_laws hdr hcr 30
  obtain ⟨-, -, -, -, -, hself, -⟩ := conversion_laws hdr hdr 30
  obtain ⟨-, -, -, -, -, -, hfail, -⟩ :=
    conversion_laws hdr (.base "m" (.of .length)) (30 : ℚ)
  have hmetre := (hfail _).mpr ⟨by decide +kernel, rfl⟩
  exact ⟨k, c, d, f, rfl, hc, hd, hf, htrans f rfl rfl, h80, hback rfl, happly.trans h80,
    hinverse rfl, mt hidentity.mp (by decide +kernel), hself.mpr (by decide +kernel),
    by rw [hmetre]; rfl⟩

end Conversion

end Metrology
