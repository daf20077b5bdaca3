import Metrology.Decimal.Layout
import Metrology.Registry.Registration
import Metrology.Text.Quoted

/-!
# Descriptions of units

A unit is described by its text, its dimension, its scale and its offset, all that tells two units
apart; the report of a conflict between two units describes both.
-/

namespace Metrology

/-- The description of a unit. -/
def UnitOfMeasure.describe (u : UnitOfMeasure Float) : String :=
  "Unit \x7b display: " ++ Text.quote u.text ++ ", dimension: " ++ Text.quote u.dimension.text ++
    ", scale: " ++ Decimal.Style.explicit.text u.scale ++
    ", offset: " ++ Decimal.Style.explicit.text u.offset ++ " \x7d"

/-- The report of a conflict. -/
def Conflict.message (c : Conflict Float) : String :=
  "unit name '" ++ c.name ++ "' already bound to " ++ c.bound.describe ++ "; ignoring " ++
    c.ignored.describe

end Metrology
