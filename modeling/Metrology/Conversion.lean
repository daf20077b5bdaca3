import Metrology.Error
import Metrology.UnitOfMeasure.Basic

/-!
# Conversion

Values convert between units of one dimension by way of base units (`convert`).  A `Conversion` is
the same map with its two coefficients computed beforehand, for many values.
-/

namespace Metrology

variable {α : Type} [Scalar α]

/-- The error of a conversion between units of different dimensions. -/
def incompatible (source target : UnitOfMeasure α) : MeasureError α :=
  .incompatibleUnits source.text source.dimension target.text target.dimension

/-- A value of one unit as a value of another. -/
def convert (value : α) (source target : UnitOfMeasure α) : Except (MeasureError α) α :=
  if source.isCompatible target then .ok (target.fromBase (source.toBase value))
  else .error (incompatible source target)

/-- The map of a value `v` to `factor * v + offset`. -/
structure Conversion (α : Type) where
  factor : α
  offset : α

namespace Conversion

/-- The map of values to themselves. -/
def identity : Conversion α :=
  ⟨1, 0⟩

/-- The map of values of one unit to values of another. -/
def between (source target : UnitOfMeasure α) : Except (MeasureError α) (Conversion α) :=
  if source.isCompatible target then
    .ok ⟨source.scale / target.scale, (source.offset - target.offset) / target.scale⟩
  else .error (incompatible source target)

/-- The image of a value. -/
def apply (c : Conversion α) (value : α) : α :=
  c.factor * value + c.offset

/-- The map back. -/
def inverse (c : Conversion α) : Conversion α :=
  ⟨1 / c.factor, -c.offset / c.factor⟩

/-- Whether a map only scales. -/
def isLinear (c : Conversion α) : Bool :=
  c.offset == 0

instance : BEq (Conversion α) where
  beq c d := c.factor == d.factor && c.offset == d.offset

end Conversion

end Metrology
