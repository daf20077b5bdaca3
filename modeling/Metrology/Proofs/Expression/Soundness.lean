import Metrology.Expression
import Metrology.Proofs.Quantity.Degree

/-!
# Dimensions of expressions

The degree of an expression is computed from the expression alone, given the dimensions of the units
that its names stand for: products add the degrees of their factors, quotients subtract them, powers
multiply them by the exponent, and everything else passes on the degree of the operand that gives the
unit (`QuantityExpr.degree`).  An expression is *well formed* when the two sides of every sum,
difference and remainder in it have one degree, and so have the two sides of every conversion.

Evaluation is sound: when it gives a result, the expression is well formed and the result has the
degree of the expression (`QuantityExpr.sound`).  The three kinds of expressions contain each other,
so soundness is proved of all three at once, by recursion on the expression.
-/

namespace Metrology

open Result

variable {α : Type}

/-! ### Degrees and well-formed expressions -/

/-- The degree of the unit that a look-up finds. -/
def degreeOfLookup (found : Except (MeasureError α) (UnitOfMeasure α)) : Base → ℚ :=
  match found with
  | .ok u => u.dimension.degree
  | .error _ => 0

mutual

/-- The exponents of a dimension as its expression says. -/
def DimensionExpr.degree (s : Scope α) : DimensionExpr α → Base → ℚ
  | .known d => d.degree
  | .ofPairs pairs => Dimension.degreeOf pairs
  | .ofUnit u => u.degree s
  | .multiply _ a b => a.degree s + b.degree s
  | .divide _ a b => a.degree s - b.degree s
  | .invert _ a => -a.degree s
  | .power _ a exponent => exponent.value • a.degree s

/-- The exponents of the dimension of a unit as its expression says. -/
def UnitExpr.degree (s : Scope α) : UnitExpr α → Base → ℚ
  | .named name => degreeOfLookup (s.registry.lookup name)
  | .bound name => degreeOfLookup (s.lookupLocal name)
  | .one => 0
  | .base _ d => d.degree s
  | .scaled _ u _ => u.degree s
  | .prefixed _ u => u.degree s
  | .affine _ u _ _ => u.degree s
  | .withSymbol u _ => u.degree s
  | .tagged _ u => u.degree s
  | .multiply u v => u.degree s + v.degree s
  | .divide u v => u.degree s - v.degree s
  | .invert u => -u.degree s
  | .power u exponent => exponent.value • u.degree s
  | .asUnit p _ => p.degree s
  | .ofQuantity p => p.degree s

/-- The exponents of the dimension of a quantity as its expression says. -/
def QuantityExpr.degree (s : Scope α) : QuantityExpr α → Base → ℚ
  | .number _ => 0
  | .value _ u => u.degree s
  | .add p _ => p.degree s
  | .subtract p _ => p.degree s
  | .multiply p q => p.degree s + q.degree s
  | .divide p q => p.degree s - q.degree s
  | .divideFloor p q => p.degree s - q.degree s
  | .remainder p _ => p.degree s
  | .power p exponent => exponent.value • p.degree s
  | .reciprocal p => -p.degree s
  | .convertTo _ u => u.degree s
  | .scale p _ => p.degree s
  | .divideScalar p _ => p.degree s
  | .negate p => p.degree s
  | .abs p => p.degree s
  | .floor p => p.degree s
  | .ceil p => p.degree s
  | .round p => p.degree s

end

mutual

/-- Whether the quantities inside an expression for a dimension are well formed. -/
def DimensionExpr.WellFormed (s : Scope α) : DimensionExpr α → Prop
  | .known _ => True
  | .ofPairs _ => True
  | .ofUnit u => u.WellFormed s
  | .multiply _ a b => a.WellFormed s ∧ b.WellFormed s
  | .divide _ a b => a.WellFormed s ∧ b.WellFormed s
  | .invert _ a => a.WellFormed s
  | .power _ a _ => a.WellFormed s

/-- Whether the quantities inside an expression for a unit are well formed. -/
def UnitExpr.WellFormed (s : Scope α) : UnitExpr α → Prop
  | .named _ => True
  | .bound _ => True
  | .one => True
  | .base _ d => d.WellFormed s
  | .scaled _ u _ => u.WellFormed s
  | .prefixed _ u => u.WellFormed s
  | .affine _ u _ _ => u.WellFormed s
  | .withSymbol u _ => u.WellFormed s
  | .tagged _ u => u.WellFormed s
  | .multiply u v => u.WellFormed s ∧ v.WellFormed s
  | .divide u v => u.WellFormed s ∧ v.WellFormed s
  | .invert u => u.WellFormed s
  | .power u _ => u.WellFormed s
  | .asUnit p _ => p.WellFormed s
  | .ofQuantity p => p.WellFormed s

/-- Whether both sides of every sum, difference, remainder and conversion have one degree. -/
def QuantityExpr.WellFormed (s : Scope α) : QuantityExpr α → Prop
  | .number _ => True
  | .value _ u => u.WellFormed s
  | .add p q => p.WellFormed s ∧ q.WellFormed s ∧ p.degree s = q.degree s
  | .subtract p q => p.WellFormed s ∧ q.WellFormed s ∧ p.degree s = q.degree s
  | .multiply p q => p.WellFormed s ∧ q.WellFormed s
  | .divide p q => p.WellFormed s ∧ q.WellFormed s
  | .divideFloor p q => p.WellFormed s ∧ q.WellFormed s
  | .remainder p q => p.WellFormed s ∧ q.WellFormed s ∧ p.degree s = q.degree s
  | .power p _ => p.WellFormed s
  | .reciprocal p => p.WellFormed s
  | .convertTo p u => p.WellFormed s ∧ u.WellFormed s ∧ p.degree s = u.degree s
  | .scale p _ => p.WellFormed s
  | .divideScalar p _ => p.WellFormed s
  | .negate p => p.WellFormed s
  | .abs p => p.WellFormed s
  | .floor p => p.WellFormed s
  | .ceil p => p.WellFormed s
  | .round p => p.WellFormed s

end

/-! ### Soundness -/

variable [Scalar α]

/-- All names stand for units that can be built. -/
structure Scope.Reachable (s : Scope α) : Prop where
  registry : ∀ name u, s.registry.lookup name = .ok u → u.Reachable
  locals : ∀ name u, s.lookupLocal name = .ok u → u.Reachable

omit [Scalar α] in
theorem demand_eq_ok {checking : Checking} {operation : Dimension.Operation} {x : Option Dimension}
    {d : Dimension} (h : (checking.demand operation x : Except (Failure α) Dimension) = .ok d) :
    x = some d := by
  cases x with
  | none => cases checking <;> cases h
  | some e => exact congrArg some (Except.ok.inj h)

theorem hasDegree_of_lookup {found : Except (MeasureError α) (UnitOfMeasure α)}
    {u : UnitOfMeasure α} (hr : ∀ u, found = .ok u → u.Reachable) (h : found = .ok u) :
    u.HasDegree (degreeOfLookup found) := by
  subst h
  exact ⟨hr u rfl, rfl⟩

variable {s : Scope α}

mutual

theorem DimensionExpr.sound (hs : s.Reachable) {d : Dimension} :
    ∀ e : DimensionExpr α, e.eval s = .ok d → e.WellFormed s ∧ d.degree = e.degree s
  | .known d, h => by
    cases h
    exact ⟨trivial, rfl⟩
  | .ofPairs pairs, h => by
    rw [DimensionExpr.eval] at h
    exact ⟨trivial, Dimension.degree_ofPairs? (demand_eq_ok h)⟩
  | .ofUnit u, h => by
    rw [DimensionExpr.eval] at h
    obtain ⟨v, hv, h⟩ := bind_eq_ok.mp h
    cases h
    obtain ⟨hw, hd⟩ := UnitExpr.sound hs u hv
    exact ⟨hw, hd.degree_eq⟩
  | .multiply checking a b, h => by
    rw [DimensionExpr.eval] at h
    obtain ⟨x, y, hx, hy, h⟩ := bind_bind_eq_ok.mp h
    obtain ⟨ha, hxd⟩ := DimensionExpr.sound hs a hx
    obtain ⟨hb, hyd⟩ := DimensionExpr.sound hs b hy
    refine ⟨⟨ha, hb⟩, ?_⟩
    rw [Dimension.degree_multiply? (demand_eq_ok h), hxd, hyd, DimensionExpr.degree]
  | .divide checking a b, h => by
    rw [DimensionExpr.eval] at h
    obtain ⟨x, y, hx, hy, h⟩ := bind_bind_eq_ok.mp h
    obtain ⟨ha, hxd⟩ := DimensionExpr.sound hs a hx
    obtain ⟨hb, hyd⟩ := DimensionExpr.sound hs b hy
    refine ⟨⟨ha, hb⟩, ?_⟩
    rw [Dimension.degree_divide? (demand_eq_ok h), hxd, hyd, DimensionExpr.degree]
  | .invert checking a, h => by
    rw [DimensionExpr.eval] at h
    obtain ⟨x, hx, h⟩ := bind_eq_ok.mp h
    obtain ⟨ha, hxd⟩ := DimensionExpr.sound hs a hx
    refine ⟨ha, ?_⟩
    rw [Dimension.degree_invert? (demand_eq_ok h), hxd, DimensionExpr.degree]
  | .power checking a exponent, h => by
    rw [DimensionExpr.eval] at h
    obtain ⟨x, hx, h⟩ := bind_eq_ok.mp h
    obtain ⟨ha, hxd⟩ := DimensionExpr.sound hs a hx
    refine ⟨ha, ?_⟩
    rw [Dimension.degree_power? (demand_eq_ok h), hxd, DimensionExpr.degree]

theorem UnitExpr.sound (hs : s.Reachable) {v : UnitOfMeasure α} :
    ∀ e : UnitExpr α, e.eval s = .ok v → e.WellFormed s ∧ v.HasDegree (e.degree s)
  | .named name, h => by
    rw [UnitExpr.eval] at h
    exact ⟨trivial, hasDegree_of_lookup (hs.registry name) (mapError_eq_ok.mp h)⟩
  | .bound name, h => by
    rw [UnitExpr.eval] at h
    exact ⟨trivial, hasDegree_of_lookup (hs.locals name) (mapError_eq_ok.mp h)⟩
  | .one, h => by
    cases h
    exact ⟨trivial, UnitOfMeasure.hasDegree_one⟩
  | .base symbol d, h => by
    rw [UnitExpr.eval] at h
    obtain ⟨x, hx, h⟩ := bind_eq_ok.mp h
    cases h
    obtain ⟨hw, hd⟩ := DimensionExpr.sound hs d hx
    exact ⟨hw, UnitOfMeasure.hasDegree_base hd symbol⟩
  | .scaled symbol u factor, h => by
    rw [UnitExpr.eval] at h
    obtain ⟨x, hx, h⟩ := bind_eq_ok.mp h
    obtain ⟨hw, hd⟩ := UnitExpr.sound hs u hx
    exact ⟨hw, hd.scaled (mapError_eq_ok.mp h)⟩
  | .prefixed p u, h => by
    rw [UnitExpr.eval] at h
    obtain ⟨x, hx, h⟩ := bind_eq_ok.mp h
    obtain ⟨hw, hd⟩ := UnitExpr.sound hs u hx
    exact ⟨hw, hd.prefixed (mapError_eq_ok.mp h)⟩
  | .affine symbol u factor offset, h => by
    rw [UnitExpr.eval] at h
    obtain ⟨x, hx, h⟩ := bind_eq_ok.mp h
    obtain ⟨hw, hd⟩ := UnitExpr.sound hs u hx
    exact ⟨hw, hd.affine (mapError_eq_ok.mp h)⟩
  | .withSymbol u symbol, h => by
    rw [UnitExpr.eval] at h
    obtain ⟨x, hx, h⟩ := bind_eq_ok.mp h
    cases h
    obtain ⟨hw, hd⟩ := UnitExpr.sound hs u hx
    exact ⟨hw, hd.withSymbol symbol⟩
  | .tagged tag u, h => by
    rw [UnitExpr.eval] at h
    obtain ⟨x, hx, h⟩ := bind_eq_ok.mp h
    cases h
    obtain ⟨hw, hd⟩ := UnitExpr.sound hs u hx
    exact ⟨hw, hd.tagged tag⟩
  | .multiply u v, h => by
    rw [UnitExpr.eval] at h
    obtain ⟨x, y, hx, hy, h⟩ := bind_bind_eq_ok.mp h
    obtain ⟨hu, hxd⟩ := UnitExpr.sound hs u hx
    obtain ⟨hv, hyd⟩ := UnitExpr.sound hs v hy
    exact ⟨⟨hu, hv⟩, hxd.multiply hyd (mapError_eq_ok.mp h)⟩
  | .divide u v, h => by
    rw [UnitExpr.eval] at h
    obtain ⟨x, y, hx, hy, h⟩ := bind_bind_eq_ok.mp h
    obtain ⟨hu, hxd⟩ := UnitExpr.sound hs u hx
    obtain ⟨hv, hyd⟩ := UnitExpr.sound hs v hy
    exact ⟨⟨hu, hv⟩, hxd.divide hyd (mapError_eq_ok.mp h)⟩
  | .invert u, h => by
    rw [UnitExpr.eval] at h
    obtain ⟨x, hx, h⟩ := bind_eq_ok.mp h
    obtain ⟨hw, hd⟩ := UnitExpr.sound hs u hx
    exact ⟨hw, hd.invert (mapError_eq_ok.mp h)⟩
  | .power u exponent, h => by
    rw [UnitExpr.eval] at h
    obtain ⟨x, hx, h⟩ := bind_eq_ok.mp h
    obtain ⟨hw, hd⟩ := UnitExpr.sound hs u hx
    exact ⟨hw, hd.power (mapError_eq_ok.mp h)⟩
  | .asUnit p symbol, h => by
    rw [UnitExpr.eval] at h
    obtain ⟨x, hx, h⟩ := bind_eq_ok.mp h
    obtain ⟨hw, hd⟩ := QuantityExpr.sound hs p hx
    exact ⟨hw, hd.asUnit (mapError_eq_ok.mp h)⟩
  | .ofQuantity p, h => by
    rw [UnitExpr.eval] at h
    obtain ⟨x, hx, h⟩ := bind_eq_ok.mp h
    cases h
    exact QuantityExpr.sound hs p hx

theorem QuantityExpr.sound (hs : s.Reachable) {r : Quantity α} :
    ∀ e : QuantityExpr α, e.eval s = .ok r → e.WellFormed s ∧ r.unit.HasDegree (e.degree s)
  | .number value, h => by
    cases h
    exact ⟨trivial, UnitOfMeasure.hasDegree_one⟩
  | .value value u, h => by
    rw [QuantityExpr.eval] at h
    obtain ⟨x, hx, h⟩ := bind_eq_ok.mp h
    cases h
    exact UnitExpr.sound hs u hx
  | .add p q, h => by
    rw [QuantityExpr.eval] at h
    obtain ⟨x, y, hx, hy, h⟩ := bind_bind_eq_ok.mp h
    obtain ⟨hp, hxd⟩ := QuantityExpr.sound hs p hx
    obtain ⟨hq, hyd⟩ := QuantityExpr.sound hs q hy
    obtain ⟨heq, hd⟩ := (Quantity.joins_of_add (mapError_eq_ok.mp h)).hasDegree hxd hyd
    exact ⟨⟨hp, hq, heq⟩, hd⟩
  | .subtract p q, h => by
    rw [QuantityExpr.eval] at h
    obtain ⟨x, y, hx, hy, h⟩ := bind_bind_eq_ok.mp h
    obtain ⟨hp, hxd⟩ := QuantityExpr.sound hs p hx
    obtain ⟨hq, hyd⟩ := QuantityExpr.sound hs q hy
    obtain ⟨heq, hd⟩ := (Quantity.joins_of_subtract (mapError_eq_ok.mp h)).hasDegree hxd hyd
    exact ⟨⟨hp, hq, heq⟩, hd⟩
  | .multiply p q, h => by
    rw [QuantityExpr.eval] at h
    obtain ⟨x, y, hx, hy, h⟩ := bind_bind_eq_ok.mp h
    obtain ⟨hp, hxd⟩ := QuantityExpr.sound hs p hx
    obtain ⟨hq, hyd⟩ := QuantityExpr.sound hs q hy
    exact ⟨⟨hp, hq⟩, Quantity.hasDegree_of_multiply hxd hyd (mapError_eq_ok.mp h)⟩
  | .divide p q, h => by
    rw [QuantityExpr.eval] at h
    obtain ⟨x, y, hx, hy, h⟩ := bind_bind_eq_ok.mp h
    obtain ⟨hp, hxd⟩ := QuantityExpr.sound hs p hx
    obtain ⟨hq, hyd⟩ := QuantityExpr.sound hs q hy
    exact ⟨⟨hp, hq⟩, Quantity.hasDegree_of_divide hxd hyd (mapError_eq_ok.mp h)⟩
  | .divideFloor p q, h => by
    rw [QuantityExpr.eval] at h
    obtain ⟨x, y, hx, hy, h⟩ := bind_bind_eq_ok.mp h
    obtain ⟨hp, hxd⟩ := QuantityExpr.sound hs p hx
    obtain ⟨hq, hyd⟩ := QuantityExpr.sound hs q hy
    exact ⟨⟨hp, hq⟩, Quantity.hasDegree_of_divideFloor hxd hyd (mapError_eq_ok.mp h)⟩
  | .remainder p q, h => by
    rw [QuantityExpr.eval] at h
    obtain ⟨x, y, hx, hy, h⟩ := bind_bind_eq_ok.mp h
    obtain ⟨hp, hxd⟩ := QuantityExpr.sound hs p hx
    obtain ⟨hq, hyd⟩ := QuantityExpr.sound hs q hy
    obtain ⟨heq, hd⟩ := (Quantity.joins_of_remainder (mapError_eq_ok.mp h)).hasDegree hxd hyd
    exact ⟨⟨hp, hq, heq⟩, hd⟩
  | .power p exponent, h => by
    rw [QuantityExpr.eval] at h
    obtain ⟨x, hx, h⟩ := bind_eq_ok.mp h
    obtain ⟨hw, hd⟩ := QuantityExpr.sound hs p hx
    exact ⟨hw, Quantity.hasDegree_of_power hd (mapError_eq_ok.mp h)⟩
  | .reciprocal p, h => by
    rw [QuantityExpr.eval] at h
    obtain ⟨x, hx, h⟩ := bind_eq_ok.mp h
    obtain ⟨hw, hd⟩ := QuantityExpr.sound hs p hx
    exact ⟨hw, Quantity.hasDegree_of_reciprocal hd (mapError_eq_ok.mp h)⟩
  | .convertTo p u, h => by
    rw [QuantityExpr.eval] at h
    obtain ⟨x, y, hx, hy, h⟩ := bind_bind_eq_ok.mp h
    obtain ⟨hp, hxd⟩ := QuantityExpr.sound hs p hx
    obtain ⟨hu, hyd⟩ := UnitExpr.sound hs u hy
    obtain ⟨heq, hd⟩ := Quantity.hasDegree_of_convertTo hxd hyd (mapError_eq_ok.mp h)
    exact ⟨⟨hp, hu, heq⟩, hd⟩
  | .divideScalar p divisor, h => by
    rw [QuantityExpr.eval] at h
    obtain ⟨x, hx, h⟩ := bind_eq_ok.mp h
    obtain ⟨hw, hd⟩ := QuantityExpr.sound hs p hx
    exact ⟨hw, Quantity.hasDegree_of_divideScalar hd (mapError_eq_ok.mp h)⟩
  | .scale p _, h | .negate p, h | .abs p, h | .floor p, h | .ceil p, h | .round p, h => by
    rw [QuantityExpr.eval] at h
    obtain ⟨x, hx, h⟩ := bind_eq_ok.mp h
    cases h
    obtain ⟨hw, hd⟩ := QuantityExpr.sound hs p hx
    exact ⟨hw, hd⟩

end

theorem Scope.Reachable.bind (hs : s.Reachable) {u : UnitOfMeasure α} (hu : u.Reachable)
    (name : String) : ({ s with locals := (name, u) :: s.locals } : Scope α).Reachable := by
  refine ⟨hs.registry, fun other v hv => ?_⟩
  simp only [Scope.lookupLocal, List.lookup] at hv
  cases ho : other == name with
  | true =>
    rw [ho] at hv
    cases hv
    exact hu
  | false =>
    rw [ho] at hv
    exact hs.locals other v hv

/-- Names that are defined by expressions stand for units that can be built, too. -/
theorem Scope.Reachable.define {s s' : Scope α} {definitions : List (String × UnitExpr α)}
    (hs : s.Reachable) (h : s.define definitions = .ok s') : s'.Reachable := by
  induction definitions generalizing s with
  | nil =>
    cases h
    exact hs
  | cons d definitions ih =>
    obtain ⟨u, hu, h⟩ := bind_eq_ok.mp h
    exact ih (hs.bind (UnitExpr.sound hs d.2 hu).2.reachable d.1) h

/-- **Dimensional soundness.**  When an expression has a value, both sides of every sum, difference,
remainder and conversion in it have one dimension, and the value has the dimension that is computed
from the expression; so an expression that mixes dimensions has no value. -/
theorem QuantityExpr.eval_sound (hs : s.Reachable) (e : QuantityExpr α) :
    (∀ r, e.eval s = .ok r →
      e.WellFormed s ∧ ∀ b, (r.dimension.exponent b).value = e.degree s b) ∧
    (¬e.WellFormed s → ∃ failure, e.eval s = .error failure) := by
  constructor
  · intro r h
    obtain ⟨hw, hd⟩ := QuantityExpr.sound hs e h
    exact ⟨hw, congrFun hd.degree_eq⟩
  · intro hw
    cases h : e.eval s with
    | error failure => exact ⟨failure, rfl⟩
    | ok r => exact absurd (QuantityExpr.sound hs e h).1 hw

/-- The scope without names. -/
def Scope.empty : Scope α :=
  ⟨.empty, []⟩

omit [Scalar α] in
theorem Scope.lookup_empty (name : String) (u : UnitOfMeasure α) :
    (Scope.empty : Scope α).registry.lookup name ≠ .ok u ∧ Scope.empty.lookupLocal name ≠ .ok u :=
  ⟨nofun, nofun⟩

/-- Three metres per second for two seconds, and one metre more, in kilometres; and the sum of a metre
and a second. -/
theorem QuantityExpr.eval_sound_distance :
    let metre : UnitExpr Float := .base "m" (.known (.of .length))
    let second : UnitExpr Float := .base "s" (.known (.of .time))
    let travelled : QuantityExpr Float :=
      .add (.multiply (.value 3 (.divide metre second)) (.value 2 second)) (.value 1 metre)
    let distance : QuantityExpr Float := .convertTo travelled (.prefixed .kilo metre)
    (∃ r, distance.eval .empty = .ok r ∧ distance.WellFormed .empty ∧
      ∀ b, (r.dimension.exponent b).value = distance.degree .empty b) ∧
    ∃ failure, (QuantityExpr.add (.value 1 metre) (.value 1 second)).eval .empty =
      .error failure := by
  intro metre second travelled distance
  have hs : (Scope.empty : Scope Float).Reachable :=
    ⟨fun name u h => absurd h (Scope.lookup_empty name u).1,
      fun name u h => absurd h (Scope.lookup_empty name u).2⟩
  obtain ⟨r, hr⟩ := exists_of_isOk (x := distance.eval .empty) (by decide +kernel)
  refine ⟨⟨r, hr, (QuantityExpr.eval_sound hs distance).1 r hr⟩, ?_⟩
  refine (QuantityExpr.eval_sound hs _).2 fun hw => ?_
  have hne : (Dimension.of .length).degree ≠ (Dimension.of .time).degree :=
    Dimension.degree_injective.ne (by decide +kernel)
  exact hne hw.2.2

end Metrology
