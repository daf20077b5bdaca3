import Metrology.Proofs.UnitOfMeasure.Built

/-!
# Affine units stand alone

An offset makes sense for a unit by itself only: in a product it would have to be dropped, and a scale
on top of an affine scale would have to carry it along.  So affine units are nowhere operands.  The
*parts* of a unit are the units that its definition refers to, at any depth (`IsPart`).

* `Built.allParts`: the parts of a unit that is built are built and linear.
* `Built.origin_of_isAffine`: a unit that is affine was defined as an affine scale on a linear unit.
* `isRefused_scaled_iff` and its like: an operation is refused for an affine operand exactly when it
  has one.  The check comes before all others, so that no other fault hides it; the first power alone
  is taken of affine units too.
-/

namespace Metrology

open Result

variable {α : Type}

/-- The units that a definition refers to. -/
def Origin.components : Origin α → List (UnitOfMeasure α)
  | .base => []
  | .scaled u _ => [u]
  | .prefixed _ u => [u]
  | .affine u _ _ => [u]
  | .product factors => factors.map fun f => .atom f.1

/-- A result is refused because of an affine operand. -/
def IsRefused {β : Type} (x : Except (MeasureError α) β) : Prop :=
  ∃ use, x = .error (.affineComposition use)

namespace UnitOfMeasure

/-! ### Parts -/

/-- A unit occurs in the definition of another one, at some depth. -/
inductive IsPart : UnitOfMeasure α → UnitOfMeasure α → Prop
  | component {v u : UnitOfMeasure α} (h : v ∈ u.origin.components) : IsPart v u
  | deeper {v w u : UnitOfMeasure α} (h : w ∈ u.origin.components) (hv : IsPart v w) : IsPart v u

/-- A property holds of all parts of a unit. -/
def AllParts (P : UnitOfMeasure α → Prop) (u : UnitOfMeasure α) : Prop :=
  ∀ v, IsPart v u → P v

variable {P : UnitOfMeasure α → Prop} {u v w : UnitOfMeasure α}

/-- The parts of a unit are its components and their parts. -/
theorem allParts_iff :
    AllParts P u ↔ ∀ w ∈ u.origin.components, P w ∧ AllParts P w := by
  constructor
  · exact fun h w hw => ⟨h w (.component hw), fun v hv => h v (.deeper hw hv)⟩
  · intro h v hv
    cases hv with
    | component hv => exact (h v hv).1
    | deeper hw hv => exact (h _ hw).2 v hv

/-- Units of one definition have the same parts. -/
theorem AllParts.of_origin_eq (h : AllParts P u) (ho : v.origin = u.origin) : AllParts P v :=
  allParts_iff.mpr fun w hw => allParts_iff.mp h w (ho ▸ hw)

/-- What holds of a unit and its parts holds of its factors and theirs. -/
theorem AllParts.factor (h : AllParts P u) (hu : P u) :
    ∀ f ∈ u.factors, P (atom f.1) ∧ AllParts P (atom f.1) := by
  cases u with
  | atom a =>
    intro f hf
    cases List.mem_singleton.mp hf
    exact ⟨hu, h⟩
  | product factors d s =>
    exact fun f hf => allParts_iff.mp h _ (List.mem_map.mpr ⟨f, hf, rfl⟩)

variable [Scalar α]

theorem allParts_of_compose {factors : List (Atom α × Exponent)} {d : Dimension} {s : α}
    (h : compose factors d s = .ok w)
    (hf : ∀ f ∈ factors, P (atom f.1) ∧ AllParts P (atom f.1)) : AllParts P w := by
  obtain ⟨-, hm, hw⟩ := composed_of_compose h
  have hfw := hm.invariant_atom (P := fun a => P (atom a) ∧ AllParts P (atom a)) hf
  rcases hw with ⟨a, rfl⟩ | hw
  · exact (hfw (a, 1) (List.mem_singleton.mpr rfl)).2
  · refine allParts_iff.mpr fun v hv => ?_
    rw [hw] at hv
    obtain ⟨f, hf, rfl⟩ := List.mem_map.mp hv
    exact hfw f hf

/-- The parts of a unit that is built are built and linear: every operation checks that its operands
are linear before it refers to them. -/
theorem Built.allParts {powers : Exponent → Prop} (h : Built powers u) :
    AllParts (fun v => Built powers v ∧ v.isAffine = false) u := by
  induction h with
  | base symbol d => exact allParts_iff.mpr fun w hw => by cases hw
  | one => exact allParts_iff.mpr fun w hw => by cases hw
  | scaled hu h ih =>
    obtain ⟨hl, -, rfl⟩ := scaled_eq_ok_iff.mp h
    refine allParts_iff.mpr fun w hw => ?_
    cases List.mem_singleton.mp hw
    exact ⟨⟨hu, hl⟩, ih⟩
  | prefixed hu h ih =>
    obtain ⟨hl, rfl⟩ := prefixed_eq_ok_iff.mp h
    refine allParts_iff.mpr fun w hw => ?_
    cases List.mem_singleton.mp hw
    exact ⟨⟨hu, hl⟩, ih⟩
  | affine hu h ih =>
    obtain ⟨hl, -, -, rfl⟩ := affine_eq_ok_iff.mp h
    refine allParts_iff.mpr fun w hw => ?_
    cases List.mem_singleton.mp hw
    exact ⟨⟨hu, hl⟩, ih⟩
  | withSymbol _ symbol ih => exact ih.of_origin_eq rfl
  | @tagged u _ tag ih => cases u <;> exact ih.of_origin_eq rfl
  | multiply hu hv h ihu ihv =>
    obtain ⟨hlu, hlv, d, -, hc⟩ := multiply_eq_ok_iff.mp h
    exact allParts_of_compose hc fun f hf =>
      (List.mem_append.mp hf).elim (ihu.factor ⟨hu, hlu⟩ f) (ihv.factor ⟨hv, hlv⟩ f)
  | @divide u v w hu hv h ihu ihv =>
    obtain ⟨hlu, hlv, -, d, inverted, -, hi, hc⟩ := divide_eq_ok_iff.mp h
    have hfi := forall_atom_of_mapExponents? (P := fun a =>
      (Built powers (atom a) ∧ (atom a).isAffine = false) ∧
        AllParts (fun v => Built powers v ∧ v.isAffine = false) (atom a)) hi (ihv.factor ⟨hv, hlv⟩)
    exact allParts_of_compose hc fun f hf =>
      (List.mem_append.mp hf).elim (ihu.factor ⟨hu, hlu⟩ f) (hfi f)
  | power hu _ h ih =>
    rcases power_eq_ok_iff.mp h with
      ⟨-, rfl⟩ | ⟨-, -, rfl⟩ | ⟨-, -, hl, d, raised, s, -, hr, -, hc⟩
    · exact ih
    · exact allParts_iff.mpr fun w hw => by cases hw
    · exact allParts_of_compose hc (forall_atom_of_mapExponents? (P := fun a =>
        (Built powers (atom a) ∧ (atom a).isAffine = false) ∧
          AllParts (fun v => Built powers v ∧ v.isAffine = false) (atom a)) hr (ih.factor ⟨hu, hl⟩))

/-! ### The root -/

/-- A unit whose definition is an affine scale on a linear unit, and which is worth what that
definition computes. -/
def IsAffineScale (u : UnitOfMeasure α) : Prop :=
  ∃ (w : UnitOfMeasure α) (factor offset : α), u.origin = .affine w factor offset ∧
    w.isAffine = false ∧ u.scale = w.scale * factor ∧ u.offset = w.scale * offset

/-- Only affine scales on linear units are affine, under whatever symbol. -/
theorem Built.origin_of_isAffine {powers : Exponent → Prop} (hzero : ((0 : α) == 0) = true)
    (h : Built powers u) : u.isAffine = true → u.IsAffineScale := by
  have hlinear : ∀ {v : UnitOfMeasure α}, v.offset = 0 → v.isAffine = true → v.IsAffineScale := by
    intro v hv ha
    rw [isAffine, hv, hzero] at ha
    cases ha
  refine (h.invariant (P := fun u => u.isAffine = true → u.IsAffineScale) ?_ ?_ ?_ ?_ ?_ ?_ ?_ ?_).1
  · exact fun _ _ => hlinear rfl
  · intro symbol u v factor _ h
    obtain ⟨-, -, rfl⟩ := scaled_eq_ok_iff.mp h
    exact hlinear rfl
  · intro p u v _ h
    obtain ⟨-, rfl⟩ := prefixed_eq_ok_iff.mp h
    exact hlinear rfl
  · intro symbol u v factor offset _ h _
    obtain ⟨hl, -, -, rfl⟩ := affine_eq_ok_iff.mp h
    exact ⟨u, factor, offset, rfl, hl, rfl, rfl⟩
  · exact fun _ hu => hu
  · intro u tag hu
    cases u <;> exact hu
  · exact hlinear rfl
  · exact fun _ _ _ _ => hlinear rfl

/-! ### Refusals -/

omit [Scalar α] in
theorem not_isRefused_ok {β : Type} (x : β) : ¬IsRefused (.ok x : Except (MeasureError α) β) := by
  rintro ⟨use, h⟩
  cases h

theorem not_isRefused_compose (factors : List (Atom α × Exponent)) (d : Dimension) (s : α) :
    ¬IsRefused (compose factors d s) := by
  rintro ⟨use, h⟩
  rcases error_of_compose h with he | ⟨overflow, he⟩ <;> cases he

theorem not_isRefused_raise (x : α) (p : Exponent) : ¬IsRefused (Scalar.raise x p) := by
  rintro ⟨use, h⟩
  unfold Scalar.raise at h
  split_ifs at h <;> cases h

theorem isRefused_scaled_iff {symbol : String} {factor : α} :
    IsRefused (scaled symbol u factor) ↔ u.isAffine = true := by
  cases ha : u.isAffine <;> cases hf : Scalar.isFactor factor <;> simp [IsRefused, scaled, ha, hf]

theorem isRefused_prefixed_iff {p : Prefix} : IsRefused (prefixed p u) ↔ u.isAffine = true := by
  cases ha : u.isAffine <;> simp [IsRefused, prefixed, ha]

theorem isRefused_affine_iff {symbol : String} {factor offset : α} :
    IsRefused (affine symbol u factor offset) ↔ u.isAffine = true := by
  cases ha : u.isAffine <;> cases hf : Scalar.isFactor factor <;>
    cases ho : Scalar.isFinite offset <;> simp [IsRefused, affine, ha, hf, ho]

/-- A metric family is refused with its first member, and never else. -/
theorem isRefused_metricFamily_iff : IsRefused u.metricFamily ↔ u.isAffine = true := by
  constructor
  · rintro ⟨use, h⟩
    obtain ⟨p, -, hp⟩ := exists_of_mapM_eq_error h
    exact isRefused_prefixed_iff.mp ⟨use, hp⟩
  · intro ha
    obtain ⟨use, hp⟩ := isRefused_prefixed_iff (p := .quetta).mpr ha
    refine ⟨use, ?_⟩
    rw [metricFamily, Prefix.all, List.mapM_cons, hp]
    rfl

theorem isRefused_asUnit_iff {p : Quantity α} {symbol : String} :
    IsRefused (p.asUnit symbol) ↔ p.unit.isAffine = true := by
  cases ha : p.unit.isAffine
  · have hs : IsRefused (scaled symbol p.unit p.value) ↔ p.unit.isAffine = true :=
      isRefused_scaled_iff
    simp only [ha] at hs
    simpa [Quantity.asUnit, ha] using hs
  · simp [IsRefused, Quantity.asUnit, ha]

theorem isRefused_multiply_iff :
    IsRefused (u.multiply v) ↔ u.isAffine = true ∨ v.isAffine = true := by
  cases hu : u.isAffine
  · cases hv : v.isAffine
    · cases hd : u.dimension.multiply? v.dimension
      · simp [IsRefused, multiply, hu, hv, hd]
      · simpa [multiply, hu, hv, hd] using not_isRefused_compose _ _ _
    · simp [IsRefused, multiply, hu, hv]
  · simp [IsRefused, multiply, hu]

theorem isRefused_divide_iff :
    IsRefused (u.divide v) ↔ u.isAffine = true ∨ v.isAffine = true := by
  cases hu : u.isAffine
  · cases hv : v.isAffine
    · cases hs : v.scale == 0
      · cases hd : u.dimension.divide? v.dimension <;>
          cases hf : mapExponents? Exponent.neg? v.factors
        case some.some => simpa [divide, hu, hv, hs, hd, hf] using not_isRefused_compose _ _ _
        all_goals simp [IsRefused, divide, hu, hv, hs, hd, hf]
      · simp [IsRefused, divide, hu, hv, hs]
    · simp [IsRefused, divide, hu, hv]
  · simp [IsRefused, divide, hu]

/-- The first power is taken of affine units too. -/
theorem isRefused_power_iff {p : Exponent} :
    IsRefused (u.power p) ↔ u.isAffine = true ∧ p ≠ 1 := by
  by_cases h1 : p = 1
  · simpa [power, h1] using not_isRefused_ok u
  cases hu : u.isAffine
  · by_cases h0 : p = 0
    · have h01 : (0 : Exponent) ≠ 1 := by decide
      simpa [power, h0, h01, hu] using not_isRefused_ok (one : UnitOfMeasure α)
    · cases hd : u.dimension.power? p <;> cases hf : mapExponents? (·.mul? p) u.factors
      case some.some d factors =>
        have hbind : ¬IsRefused ((Scalar.raise u.scale p).bind (compose factors d)) := by
          rintro ⟨use, h⟩
          rcases bind_eq_error.mp h with hr | ⟨s, -, hc⟩
          · exact not_isRefused_raise _ _ ⟨use, hr⟩
          · exact not_isRefused_compose _ _ _ ⟨use, hc⟩
        simpa [power, h1, h0, hu, hd, hf] using hbind
      all_goals simp [IsRefused, power, h1, h0, hu, hd, hf]
  · simp [IsRefused, power, h1, hu]

/-! ### The laws -/

/-- **Affine units stand alone.**  Among the parts of a reachable unit of doubles, at any depth, all
are linear; so an offset occurs at the root only, and there the unit is an affine scale on a linear
unit.  Whatever else is wrong with its operands, a definition, a product, a quotient or a power is
refused for an affine operand exactly when it has one, but for the first power, which is the unit
itself. -/
theorem affine_isolation (u : UnitOfMeasure Float) :
    (Reachable u → AllParts (fun v => Reachable v ∧ v.isAffine = false) u ∧
      (u.isAffine = true → u.IsAffineScale)) ∧
    (∀ symbol factor, IsRefused (scaled symbol u factor) ↔ u.isAffine = true) ∧
    (∀ p, IsRefused (prefixed p u) ↔ u.isAffine = true) ∧
    (∀ symbol factor offset, IsRefused (affine symbol u factor offset) ↔ u.isAffine = true) ∧
    (IsRefused u.metricFamily ↔ u.isAffine = true) ∧
    (∀ value symbol, IsRefused (Quantity.asUnit ⟨value, u⟩ symbol) ↔ u.isAffine = true) ∧
    (∀ v, IsRefused (u.multiply v) ↔ u.isAffine = true ∨ v.isAffine = true) ∧
    (∀ v, IsRefused (u.divide v) ↔ u.isAffine = true ∨ v.isAffine = true) ∧
    (IsRefused u.invert ↔ u.isAffine = true) ∧
    (∀ p, IsRefused (u.power p) ↔ u.isAffine = true ∧ p ≠ 1) ∧
    u.power 1 = .ok u := by
  have hzero : ((0 : Float) == 0) = true := by decide +kernel
  have hone : (one : UnitOfMeasure Float).isAffine = false := by decide +kernel
  refine ⟨fun hu => ⟨hu.allParts, hu.origin_of_isAffine hzero⟩, ?_, ?_, ?_, ?_, ?_, ?_, ?_, ?_, ?_, ?_⟩
  · exact fun _ _ => isRefused_scaled_iff
  · exact fun _ => isRefused_prefixed_iff
  · exact fun _ _ _ => isRefused_affine_iff
  · exact isRefused_metricFamily_iff
  · exact fun _ _ => isRefused_asUnit_iff
  · exact fun _ => isRefused_multiply_iff
  · exact fun _ => isRefused_divide_iff
  · have hinvert : IsRefused u.invert ↔ one.isAffine = true ∨ u.isAffine = true :=
      isRefused_divide_iff
    simpa [hone] using hinvert
  · exact fun _ => isRefused_power_iff
  · exact power_eq_ok_iff.mpr (.inl ⟨rfl, rfl⟩)

/-- The Celsius scale under another symbol is an affine scale, on the kelvin; it
has no products, no reciprocal and no multiples, and only its first power.  The kelvin has all. -/
theorem affine_isolation_celsius :
    ∃ k c t : UnitOfMeasure Float, k = base "K" (.of .temperature) ∧
      affine "°C" k 1 273.15 = .ok c ∧ t = c.withSymbol "t" ∧ Reachable t ∧ t.isAffine = true ∧
      t.IsAffineScale ∧ IsPart k t ∧ k.isAffine = false ∧ IsRefused (t.multiply k) ∧
      IsRefused (k.divide t) ∧ IsRefused t.invert ∧ IsRefused (scaled "x" t 0) ∧
      IsRefused (t.power 0) ∧ t.power 1 = .ok t ∧ ¬IsRefused (k.multiply k) := by
  let k : UnitOfMeasure Float := base "K" (.of .temperature)
  let c : UnitOfMeasure Float :=
    atom ⟨"°C", .of .temperature, 1 * 1, 1 * 273.15, .affine k 1 273.15, 0⟩
  have hc : affine "°C" k 1 273.15 = .ok c :=
    affine_eq_ok_iff.mpr ⟨by decide +kernel, by decide +kernel, by decide +kernel, rfl⟩
  let t : UnitOfMeasure Float := c.withSymbol "t"
  have ht : Reachable t := .withSymbol (.affine (.base _ _) hc) "t"
  have ha : t.isAffine = true := by decide +kernel
  have hk : IsPart k t := .component (List.mem_singleton.mpr rfl)
  obtain ⟨htree, hscaled, -, -, -, -, hmul, -, hinvert, hpow, hfirst⟩ := affine_isolation t
  obtain ⟨-, -, -, -, -, -, hmulk, hdivk, -⟩ := affine_isolation k
  have hlinear : k.isAffine = false := ((htree ht).1 k hk).2
  refine ⟨k, c, t, rfl, hc, rfl, ht, ha, (htree ht).2 ha, hk, hlinear, (hmul k).mpr (.inl ha),
    (hdivk t).mpr (.inr ha), hinvert.mpr ha, (hscaled _ _).mpr ha,
    (hpow 0).mpr ⟨ha, by decide⟩, hfirst, fun h => ?_⟩
  rcases (hmulk k).mp h with h | h <;> simp [hlinear] at h

end UnitOfMeasure

end Metrology
