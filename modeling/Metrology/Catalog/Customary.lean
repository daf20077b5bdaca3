import Metrology.Catalog.Constants
import Metrology.Catalog.System

/-!
# Customary units

Lengths and masses by the international yard and pound, the liquid gallon, and the units of force,
pressure and speed that belong to them.
-/

namespace Metrology.Catalog

open Registration UnitOfMeasure

/-- From the inch to the nautical mile. -/
def customaryLengths : Registration Float Unit := do
  let m ← lookup "m"
  let inchUnit ← scaled "in" m inch
  let foot ← scaled "ft" inchUnit 12
  let yard ← scaled "yd" foot 3
  let mile ← scaled "mi" yard 1760
  let nauticalMile ← scaled "nmi" m 1852
  unit inchUnit "inch" ["inches"]
  unit foot "foot" ["feet"]
  unit yard "yard" ["yards"]
  unit mile "mile" ["miles"]
  unit nauticalMile "nautical_mile" []

/-- Masses, the gallon, and what is derived from masses and lengths. -/
def customaryUnits : Registration Float Unit := do
  let m ← lookup "m"
  let s ← lookup "s"
  let hour ← lookup "h"
  let poundUnit ← scaled "lb" (← lookup "kg") pound
  unit poundUnit "pound" ["lbs"]
  unit (← scaled "oz" poundUnit (1 / 16)) "ounce" []
  unit (← scaled "gal" (← lookup "L") 3.785411784) "gallon" []
  let gravity ← scaled "g0" (← m.divide (← s.power squared)) standardGravity
  let poundForce := (← poundUnit.multiply gravity).withSymbol "lbf"
  let inchUnit ← lookup "in"
  let psi := (← poundForce.divide (← inchUnit.power squared)).withSymbol "psi"
  unit poundForce "pound_force" []
  unit psi "pounds_per_square_inch" []
  let mile ← lookup "mi"
  let nauticalMile ← lookup "nmi"
  unit ((← mile.divide hour).withSymbol "mph") "miles_per_hour" []
  unit ((← nauticalMile.divide hour).withSymbol "kn") "knot" ["kt"]

end Metrology.Catalog
