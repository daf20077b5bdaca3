import Metrology.Proofs.Binary64.Factor
import Metrology.Proofs.UnitOfMeasure.Built

/-!
# Units that values can be converted with

Values are multiplied and divided by the scale of their unit, and its offset is added to them.  A unit
is *usable* when its scale is finite and not zero and its offset is finite (`Usable`).  Among the
doubles not all units are: scaling, prefixing and shifting check the factor they are given and not
the scale they compute from it, which can overflow or vanish (`exists_unusable`).  Composition checks
what it computes.

* `usable_of_multiply`, `usable_of_divide`, `usable_of_power`: what is composed is usable, and so is
  what it is composed of, for a scale that is not usable makes every product with it unusable.
* `usable_laws`: a unit is usable exactly when its own definition stayed in range
  (`Origin.InRange`), whatever it was built from.  A conversion between usable units never divides by
  zero, and its result is defined.
-/

namespace Metrology

open Binary64 Result

/-- The scale and the offset that the definition of a unit computes are finite, and the scale is not
zero. -/
def Origin.InRange {α : Type} [Scalar α] : Origin α → Prop
  | .base => True
  | .scaled u factor => Scalar.isFactor (u.scale * factor) = true
  | .prefixed p u => Scalar.isFactor (u.scale * p.factor) = true
  | .affine u factor offset =>
    Scalar.isFactor (u.scale * factor) = true ∧ Scalar.isFinite (u.scale * offset) = true
  | .product _ => True

namespace UnitOfMeasure

/-- A unit that values can be converted with. -/
structure Usable {α : Type} [Scalar α] (u : UnitOfMeasure α) : Prop where
  isFactor_scale : Scalar.isFactor u.scale = true
  isFinite_offset : Scalar.isFinite u.offset = true

variable {u v w : UnitOfMeasure Float}

/-- A linear unit is usable when its scale is. -/
theorem usable_of_isFactor (hl : u.isAffine = false) (h : Scalar.isFactor u.scale = true) :
    u.Usable :=
  ⟨h, isFinite_of_beq_zero (by simpa [isAffine] using hl)⟩

/-! ### Composition -/

/-- A product is usable, and so are the atoms among its factors. -/
def SoundRecord : UnitOfMeasure Float → Prop
  | atom _ => True
  | product factors _ s => Scalar.isFactor s = true ∧ ∀ f ∈ factors, (atom f.1).Usable

theorem soundRecord_one : (one : UnitOfMeasure Float).SoundRecord :=
  ⟨isFactor_one, fun f hf => by cases hf⟩

theorem SoundRecord.usable_factor (h : u.SoundRecord) (hu : u.Usable) :
    ∀ f ∈ u.factors, (atom f.1).Usable := by
  cases u with
  | atom a =>
    intro f hf
    cases List.mem_singleton.mp hf
    exact hu
  | product factors d s => exact h.2

theorem usable_of_compose {factors : List (Atom Float × Exponent)} {d : Dimension} {s : Float}
    (h : compose factors d s = .ok w) (hf : ∀ f ∈ factors, (atom f.1).Usable) :
    w.Usable ∧ w.SoundRecord := by
  obtain ⟨hs, hm, hw⟩ := composed_of_compose h
  have hfw := hm.invariant_atom (P := fun a => (atom a).Usable) hf
  rcases hw with ⟨a, rfl⟩ | hw
  · exact ⟨hfw (a, 1) (List.mem_singleton.mpr rfl), trivial⟩
  · rw [hw]
    exact ⟨⟨hs, isFinite_zero⟩, hs, hfw⟩

/-- The product of two units is refused unless both are usable. -/
theorem usable_of_multiply (hu : u.SoundRecord) (hv : v.SoundRecord) (h : u.multiply v = .ok w) :
    u.Usable ∧ v.Usable ∧ w.Usable ∧ w.SoundRecord := by
  obtain ⟨hlu, hlv, d, -, hc⟩ := multiply_eq_ok_iff.mp h
  obtain ⟨hsu, hsv⟩ := isFactor_of_mul (composed_of_compose hc).1
  have huu := usable_of_isFactor hlu hsu
  have hvu := usable_of_isFactor hlv hsv
  exact ⟨huu, hvu, usable_of_compose hc fun f hf =>
    (List.mem_append.mp hf).elim (hu.usable_factor huu f) (hv.usable_factor hvu f)⟩

/-- The quotient of two units is refused unless both are usable. -/
theorem usable_of_divide (hu : u.SoundRecord) (hv : v.SoundRecord) (h : u.divide v = .ok w) :
    u.Usable ∧ v.Usable ∧ w.Usable ∧ w.SoundRecord := by
  obtain ⟨hlu, hlv, -, d, inverted, -, hi, hc⟩ := divide_eq_ok_iff.mp h
  obtain ⟨hsu, hsv⟩ := isFactor_of_div (composed_of_compose hc).1
  have huu := usable_of_isFactor hlu hsu
  have hvu := usable_of_isFactor hlv hsv
  have hfi := forall_atom_of_mapExponents? (P := fun a => (atom a).Usable) hi
    (hv.usable_factor hvu)
  exact ⟨huu, hvu, usable_of_compose hc fun f hf =>
    (List.mem_append.mp hf).elim (hu.usable_factor huu f) (hfi f)⟩

/-- A power of a unit is refused unless the unit is usable, but for the first power, which is the
unit, and the zeroth, which is the unit `one`. -/
theorem usable_of_power {p : Exponent} (hu : u.SoundRecord) (h : u.power p = .ok w) (hp : p ≠ 1) :
    (p ≠ 0 → u.Usable) ∧ w.Usable ∧ w.SoundRecord := by
  rcases power_eq_ok_iff.mp h with
    ⟨h1, -⟩ | ⟨h0, -, rfl⟩ | ⟨-, h0, hl, d, raised, s, -, hr, hraise, hc⟩
  · exact absurd h1 hp
  · exact ⟨fun hne => absurd h0 hne, ⟨isFactor_one, isFinite_zero⟩, soundRecord_one⟩
  · have huu := usable_of_isFactor hl
      (Scalar.isFactor_of_raise h0 hraise (composed_of_compose hc).1)
    exact ⟨fun _ => huu, usable_of_compose hc
      (forall_atom_of_mapExponents? (P := fun a => (atom a).Usable) hr (hu.usable_factor huu))⟩

theorem Built.soundRecord {powers : Exponent → Prop} (h : Built powers u) : u.SoundRecord := by
  induction h with
  | base symbol d => trivial
  | one => exact soundRecord_one
  | scaled _ h =>
    obtain ⟨-, -, rfl⟩ := scaled_eq_ok_iff.mp h
    trivial
  | prefixed _ h =>
    obtain ⟨-, rfl⟩ := prefixed_eq_ok_iff.mp h
    trivial
  | affine _ h =>
    obtain ⟨-, -, -, rfl⟩ := affine_eq_ok_iff.mp h
    trivial
  | withSymbol _ symbol ih => trivial
  | @tagged u _ tag ih =>
    cases u with
    | atom a => trivial
    | product factors d s => exact ih
  | multiply _ _ h ihu ihv => exact (usable_of_multiply ihu ihv h).2.2.2
  | divide _ _ h ihu ihv => exact (usable_of_divide ihu ihv h).2.2.2
  | @power u w p _ _ h ih =>
    by_cases h1 : p = 1
    · rcases power_eq_ok_iff.mp h with ⟨-, rfl⟩ | ⟨h0, -⟩ | ⟨hne, -⟩
      · exact ih
      · exact absurd (h1.symm.trans h0) (by decide)
      · exact absurd h1 hne
    · exact (usable_of_power ih h h1).2.2

/-! ### Definition -/

/-- A unit that is built is usable exactly when its own definition stayed in range, whatever became of
the units that it was built from. -/
theorem Built.usable_iff_inRange {powers : Exponent → Prop} (h : Built powers u) :
    u.Usable ↔ u.origin.InRange := by
  refine (h.invariant (P := fun u => u.Usable ↔ u.origin.InRange) ?_ ?_ ?_ ?_ ?_ ?_ ?_ ?_).1
  · exact fun _ _ => iff_of_true ⟨isFactor_one, isFinite_zero⟩ trivial
  · intro symbol u v factor _ h
    obtain ⟨-, -, rfl⟩ := scaled_eq_ok_iff.mp h
    exact ⟨fun hv => hv.isFactor_scale, fun hs => ⟨hs, isFinite_zero⟩⟩
  · intro p u v _ h
    obtain ⟨-, rfl⟩ := prefixed_eq_ok_iff.mp h
    exact ⟨fun hv => hv.isFactor_scale, fun hs => ⟨hs, isFinite_zero⟩⟩
  · intro symbol u v factor offset _ h
    obtain ⟨-, -, -, rfl⟩ := affine_eq_ok_iff.mp h
    exact ⟨fun hv => ⟨hv.isFactor_scale, hv.isFinite_offset⟩, fun hs => ⟨hs.1, hs.2⟩⟩
  · exact fun _ hu => ⟨fun hv => hu.mp ⟨hv.isFactor_scale, hv.isFinite_offset⟩,
      fun hs => ⟨(hu.mpr hs).isFactor_scale, (hu.mpr hs).isFinite_offset⟩⟩
  · intro u tag hu
    cases u with
    | atom a => exact ⟨fun hv => hu.mp ⟨hv.isFactor_scale, hv.isFinite_offset⟩,
        fun hs => ⟨(hu.mpr hs).isFactor_scale, (hu.mpr hs).isFinite_offset⟩⟩
    | product factors d s => exact hu
  · exact iff_of_true ⟨isFactor_one, isFinite_zero⟩ trivial
  · exact fun _ _ _ hs => iff_of_true ⟨hs, isFinite_zero⟩ trivial

/-! ### Conversion -/

/-- A finite value converts between usable units to a defined one, which may have overflowed. -/
theorem beq_self_of_convert {x y : Float} (hu : u.Usable) (hv : v.Usable)
    (hx : Scalar.isFinite x = true) (h : convert x u v = .ok y) : (y == y) = true := by
  obtain ⟨-, rfl⟩ := convert_eq_ok_iff.mp h
  have hscale : Scalar.isFinite u.scale = true := (Bool.and_eq_true_iff.mp hu.isFactor_scale).2
  have hproduct : (u.scale * x == u.scale * x) = true := beq_self_mul hscale hx
  have hbase : (u.toBase x == u.toBase x) = true := beq_self_add hproduct hu.isFinite_offset
  exact beq_self_div (beq_self_sub hbase hv.isFinite_offset) hv.isFactor_scale

theorem Usable.scale_beq_zero (hu : u.Usable) : (u.scale == 0) = false := by
  have hscale := (Bool.and_eq_true_iff.mp hu.isFactor_scale).1
  simpa using hscale

/-! ### The laws -/

/-- **Usable units.**  A reachable unit of doubles is usable exactly when its own definition stayed in
range; so products and base units are, and a scaled, a prefixed or an affine unit is unless the scale
or the offset that was computed for it overflowed or vanished.  Composition refuses units that are not
usable and gives usable ones; the first power alone is taken of every unit, and is the unit.  Between
units whose definitions stayed in range the conversion of a finite value never divides by zero and is
defined. -/
theorem usable_laws (hu : Reachable u) :
    (u.Usable ↔ u.origin.InRange) ∧
    (∀ family, u.metricFamily = .ok family → ∀ v ∈ family, v.Usable ↔ v.origin.InRange) ∧
    (∀ (value : Float) (symbol : String) (v : UnitOfMeasure Float),
      Quantity.asUnit ⟨value, u⟩ symbol = .ok v →
        (v.Usable ↔ Scalar.isFactor (u.scale * value) = true)) ∧
    (∀ v w, Reachable v → u.multiply v = .ok w → u.Usable ∧ v.Usable ∧ w.Usable) ∧
    (∀ v w, Reachable v → u.divide v = .ok w → u.Usable ∧ v.Usable ∧ w.Usable) ∧
    (∀ w, u.invert = .ok w → u.Usable ∧ w.Usable) ∧
    (∀ (p : Exponent) w, u.power p = .ok w → p ≠ 1 → (p ≠ 0 → u.Usable) ∧ w.Usable) ∧
    (∀ (v : UnitOfMeasure Float) (x y : Float), Reachable v → u.origin.InRange → v.origin.InRange →
      Scalar.isFinite x = true → convert x u v = .ok y →
        (v.scale == 0) = false ∧ (y == y) = true) := by
  refine ⟨hu.usable_iff_inRange, ?_, ?_, ?_, ?_, ?_, ?_, ?_⟩
  · exact fun family h v hv => (hu.metricFamily h v hv).usable_iff_inRange
  · intro value symbol v h
    obtain ⟨-, -, rfl⟩ := scaled_eq_ok_iff.mp (asUnit_eq_ok_iff.mp h)
    exact ⟨fun hv => hv.isFactor_scale, fun hs => ⟨hs, isFinite_zero⟩⟩
  · intro v w hv h
    obtain ⟨huu, hvu, hwu, -⟩ := usable_of_multiply hu.soundRecord hv.soundRecord h
    exact ⟨huu, hvu, hwu⟩
  · intro v w hv h
    obtain ⟨huu, hvu, hwu, -⟩ := usable_of_divide hu.soundRecord hv.soundRecord h
    exact ⟨huu, hvu, hwu⟩
  · intro w h
    obtain ⟨-, huu, hwu, -⟩ := usable_of_divide soundRecord_one hu.soundRecord h
    exact ⟨huu, hwu⟩
  · intro p w h hp
    obtain ⟨huu, hwu, -⟩ := usable_of_power hu.soundRecord h hp
    exact ⟨huu, hwu⟩
  · intro v x y hv hin hin' hx h
    have huu := hu.usable_iff_inRange.mpr hin
    have hvu := hv.usable_iff_inRange.mpr hin'
    exact ⟨hvu.scale_beq_zero, beq_self_of_convert huu hvu hx h⟩

/-- A multiple of the metre of scale 1e200 is usable, and so are its product with the second and its
square root; the multiple of that multiple is not. -/
theorem usable_laws_large_lengths :
    ∃ (a b product root : UnitOfMeasure Float) (y : Float),
      scaled "a" (base "m" (.of .length)) 1e200 = .ok a ∧ scaled "b" a 1e200 = .ok b ∧
      a.Usable ∧ ¬b.Usable ∧ a.multiply (base "s" (.of .time)) = .ok product ∧ product.Usable ∧
      a.power .half = .ok root ∧ root.Usable ∧ convert 3 a (base "m" (.of .length)) = .ok y ∧
      (y == y) = true := by
  let m : UnitOfMeasure Float := base "m" (.of .length)
  let s : UnitOfMeasure Float := base "s" (.of .time)
  let a : UnitOfMeasure Float := atom ⟨"a", .of .length, 1 * 1e200, 0, .scaled m 1e200, 0⟩
  let b : UnitOfMeasure Float := atom ⟨"b", .of .length, 1 * 1e200 * 1e200, 0, .scaled a 1e200, 0⟩
  have ha : scaled "a" m 1e200 = .ok a :=
    scaled_eq_ok_iff.mpr ⟨by decide +kernel, by decide +kernel, rfl⟩
  have hb : scaled "b" a 1e200 = .ok b :=
    scaled_eq_ok_iff.mpr ⟨by decide +kernel, by decide +kernel, rfl⟩
  have har : Reachable a := .scaled (.base _ _) ha
  have hbr : Reachable b := .scaled har hb
  have hain : a.origin.InRange := by
    change Scalar.isFactor (1 * 1e200 : Float) = true
    decide +kernel
  have hbout : ¬b.origin.InRange := by
    change ¬Scalar.isFactor (1 * 1e200 * 1e200 : Float) = true
    decide +kernel
  obtain ⟨product, hproduct⟩ := exists_of_isOk (x := a.multiply s) (by decide +kernel)
  obtain ⟨root, hroot⟩ := exists_of_isOk (x := a.power .half) (by decide +kernel)
  obtain ⟨y, hy⟩ := exists_of_isOk (x := convert 3 a m) (by decide +kernel)
  obtain ⟨hin, -, -, hmul, -, -, hpow, hconvert⟩ := usable_laws har
  exact ⟨a, b, product, root, y, ha, hb, hin.mpr hain, mt (usable_laws hbr).1.mp hbout, hproduct,
    (hmul s product (.base _ _) hproduct).2.2, hroot, (hpow .half root hroot (by decide)).2, hy,
    (hconvert m 3 y (.base _ _) hain trivial (by decide +kernel) hy).2⟩

/-- Multiples of multiples overflow and vanish: a unit of infinite scale, whose values become
undefined when they are converted to the unit itself, and a unit of scale zero, by which the
conversion of a metre divides. -/
theorem exists_unusable :
    ∃ (a b c z : UnitOfMeasure Float) (x y : Float),
      scaled "a" (base "m" (.of .length)) 1e200 = .ok a ∧ scaled "b" a 1e200 = .ok b ∧
      scaled "c" (base "m" (.of .length)) 1e-200 = .ok c ∧ scaled "z" c 1e-200 = .ok z ∧
      Reachable b ∧ Reachable z ∧ Scalar.isFinite b.scale = false ∧ (z.scale == 0) = true ∧
      convert 1 b b = .ok x ∧ (x == x) = false ∧
      convert 1 (base "m" (.of .length)) z = .ok y ∧ Scalar.isFinite y = false := by
  let m : UnitOfMeasure Float := base "m" (.of .length)
  let a : UnitOfMeasure Float := atom ⟨"a", .of .length, 1 * 1e200, 0, .scaled m 1e200, 0⟩
  let b : UnitOfMeasure Float := atom ⟨"b", .of .length, 1 * 1e200 * 1e200, 0, .scaled a 1e200, 0⟩
  let c : UnitOfMeasure Float := atom ⟨"c", .of .length, 1 * 1e-200, 0, .scaled m 1e-200, 0⟩
  let z : UnitOfMeasure Float :=
    atom ⟨"z", .of .length, 1 * 1e-200 * 1e-200, 0, .scaled c 1e-200, 0⟩
  have ha : scaled "a" m 1e200 = .ok a :=
    scaled_eq_ok_iff.mpr ⟨by decide +kernel, by decide +kernel, rfl⟩
  have hb : scaled "b" a 1e200 = .ok b :=
    scaled_eq_ok_iff.mpr ⟨by decide +kernel, by decide +kernel, rfl⟩
  have hc : scaled "c" m 1e-200 = .ok c :=
    scaled_eq_ok_iff.mpr ⟨by decide +kernel, by decide +kernel, rfl⟩
  have hz : scaled "z" c 1e-200 = .ok z :=
    scaled_eq_ok_iff.mpr ⟨by decide +kernel, by decide +kernel, rfl⟩
  have hbr : Reachable b := .scaled (.scaled (.base _ _) ha) hb
  have hzr : Reachable z := .scaled (.scaled (.base _ _) hc) hz
  exact ⟨a, b, c, z, b.fromBase (b.toBase 1), z.fromBase (m.toBase 1), ha, hb, hc, hz, hbr, hzr,
    by decide +kernel, by decide +kernel, convert_eq_ok_iff.mpr ⟨rfl, rfl⟩, by decide +kernel,
    convert_eq_ok_iff.mpr ⟨rfl, rfl⟩, by decide +kernel⟩

end UnitOfMeasure

end Metrology
