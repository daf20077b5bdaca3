import Metrology.Conversion
import Metrology.Quantity.FlooredDivision
import Metrology.UnitOfMeasure.Composition

/-!
# Quantities

A quantity is a value of a unit.  Sums, differences, remainders and comparisons take the second
operand to the unit of the first, so they need equal dimensions; products, quotients and powers work
on value and unit side by side.
-/

namespace Metrology

/-- A value of a unit. -/
structure Quantity (α : Type) where
  value : α
  unit : UnitOfMeasure α

namespace Quantity

variable {α : Type} [Scalar α]

/-- A plain number. -/
def number (value : α) : Quantity α :=
  ⟨value, .one⟩

/-- The dimension of a quantity. -/
def dimension (p : Quantity α) : Dimension :=
  p.unit.dimension

/-- The value in base units. -/
def toBaseValue (p : Quantity α) : α :=
  p.unit.toBase p.value

/-- Another value of the same unit. -/
def withValue (p : Quantity α) (value : α) : Quantity α :=
  ⟨value, p.unit⟩

/-- The value of the second quantity in the unit of the first. -/
def valueOf (p q : Quantity α) : Except (MeasureError α) α :=
  if p.dimension = q.dimension then convert q.value q.unit p.unit
  else .error (.dimensionMismatch p.dimension q.dimension)

/-! ### Arithmetic -/

/-- The sum, in the unit of the first quantity. -/
def add (p q : Quantity α) : Except (MeasureError α) (Quantity α) :=
  (p.valueOf q).map fun value => p.withValue (p.value + value)

/-- The difference, in the unit of the first quantity. -/
def subtract (p q : Quantity α) : Except (MeasureError α) (Quantity α) :=
  (p.valueOf q).map fun value => p.withValue (p.value - value)

/-- The product. -/
def multiply (p q : Quantity α) : Except (MeasureError α) (Quantity α) :=
  (p.unit.multiply q.unit).map fun unit => ⟨p.value * q.value, unit⟩

/-- The quotient. -/
def divide (p q : Quantity α) : Except (MeasureError α) (Quantity α) :=
  if q.value == 0 then .error .divisionByZero
  else (p.unit.divide q.unit).map fun unit => ⟨p.value / q.value, unit⟩

/-- A power, of unit and value. -/
def power (p : Quantity α) (exponent : Exponent) : Except (MeasureError α) (Quantity α) :=
  (p.unit.power exponent).bind fun unit =>
    (Scalar.raise p.value exponent).map fun value => ⟨value, unit⟩

/-- The same quantity in another unit. -/
def convertTo (p : Quantity α) (target : UnitOfMeasure α) :
    Except (MeasureError α) (Quantity α) :=
  (convert p.value p.unit target).map fun value => ⟨value, target⟩

/-- A multiple of a quantity. -/
def scale (p : Quantity α) (factor : α) : Quantity α :=
  p.withValue (p.value * factor)

/-- A fraction of a quantity. -/
def divideScalar (p : Quantity α) (divisor : α) : Except (MeasureError α) (Quantity α) :=
  if divisor == 0 then .error .divisionByZero else .ok (p.withValue (p.value / divisor))

/-- The negated quantity. -/
def negate (p : Quantity α) : Quantity α :=
  p.withValue (-p.value)

/-- The magnitude. -/
def abs (p : Quantity α) : Quantity α :=
  p.withValue (Scalar.abs p.value)

/-- The value rounded down. -/
def floor (p : Quantity α) : Quantity α :=
  p.withValue (Scalar.floor p.value)

/-- The value rounded up. -/
def ceil (p : Quantity α) : Quantity α :=
  p.withValue (Scalar.ceil p.value)

/-- The value rounded to the nearest integer. -/
def round (p : Quantity α) : Quantity α :=
  p.withValue (Scalar.round p.value)

/-- The quotient with its value rounded down, in the quotient of the units. -/
def divideFloor (p q : Quantity α) : Except (MeasureError α) (Quantity α) :=
  (p.divide q).map floor

/-- How many whole times the second quantity goes into the first, and what is left over. -/
def divMod (p q : Quantity α) : Except (MeasureError α) (α × Quantity α) :=
  (p.valueOf q).bind fun divisor =>
    if divisor == 0 then .error .divisionByZero
    else
      let parts := Scalar.flooredDivMod p.value divisor
      .ok (parts.1, p.withValue parts.2)

/-- What is left over of the first quantity. -/
def remainder (p q : Quantity α) : Except (MeasureError α) (Quantity α) :=
  (p.divMod q).map (·.2)

/-- The reciprocal. -/
def reciprocal (p : Quantity α) : Except (MeasureError α) (Quantity α) :=
  (number 1).divide p

/-! ### Comparison -/

/-- The order of two quantities of one dimension by the total order of values in the unit of the
first. -/
def compare (p q : Quantity α) : Except (MeasureError α) Ordering :=
  (p.valueOf q).map fun value => Scalar.totalCompare p.value value

/-- The order of two quantities by their values in base units, if they are comparable. -/
def compare? (p q : Quantity α) : Option Ordering :=
  if p.dimension = q.dimension then Scalar.compare? p.toBaseValue q.toBaseValue else none

instance : BEq (Quantity α) where
  beq p q := p.dimension == q.dimension && p.toBaseValue == q.toBaseValue

/-! ### Numbers and units from quantities -/

/-- A dimensionless quantity as a plain number. -/
def toScalar (p : Quantity α) : Except (MeasureError α) α :=
  if p.unit.isDimensionless then .ok p.toBaseValue
  else .error (.notDimensionless p.dimension)

/-- A quantity as a unit of its own. -/
def asUnit (p : Quantity α) (symbol : String) : Except (MeasureError α) (UnitOfMeasure α) :=
  if p.unit.isAffine then .error (.affineComposition (.naming symbol p.unit.text))
  else UnitOfMeasure.scaled symbol p.unit p.value

end Quantity

end Metrology
