import Metrology.Quantity.Basic

/-!
# Text of quantities

A quantity is written as its value, a space and its unit; the unit `1` is left out.
-/

namespace Metrology.Quantity

/-- A written value before the text of its unit. -/
def withUnitText (value : String) (unit : UnitOfMeasure Float) : String :=
  if unit.text == "1" then value else value ++ " " ++ unit.text

/-- The text of a quantity, its value in the shortest form. -/
def text (p : Quantity Float) : String :=
  withUnitText (Decimal.Style.plain.text p.value) p.unit

/-- The text of a quantity, its value with a fixed number of places. -/
def fixedText (places : Nat) (p : Quantity Float) : String :=
  withUnitText (Decimal.fixedText places p.value) p.unit

end Metrology.Quantity
