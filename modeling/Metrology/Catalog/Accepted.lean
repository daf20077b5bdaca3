import Metrology.Catalog.Constants
import Metrology.Catalog.System
import Metrology.Quantity.Basic

/-!
# Units beside the International System

Temperature scales, units of time, volume, pressure, energy and angle in general use, and the units
of astronomy.
-/

namespace Metrology.Catalog

open Registration UnitOfMeasure

/-- The temperature scales with a zero of their own, and the absolute one of Fahrenheit degrees. -/
def temperatureScales : Registration Float Unit := do
  let kelvin ← lookup "K"
  let celsius ← affine "°C" kelvin 1 celsiusZero
  let fahrenheit ← affine "°F" kelvin fahrenheitFactor fahrenheitZero
  let rankine ← scaled "°R" kelvin fahrenheitFactor
  unit celsius "celsius" ["degC"]
  unit fahrenheit "fahrenheit" ["degF"]
  unit rankine "rankine" ["degR"]

/-- From the minute to the Julian year. -/
def timeUnits : Registration Float Unit := do
  let minute ← scaled "min" (← lookup "s") 60
  let hour ← scaled "h" minute 60
  let day ← scaled "d" hour 24
  let week ← scaled "wk" day 7
  let year ← scaled "yr" day julianYear
  unit minute "minute" []
  unit hour "hour" ["hr"]
  unit day "day" []
  unit week "week" []
  unit year "year" ["a", "julian_year"]

/-- Units of volume, area, mass, length, pressure, energy and angle. -/
def generalUnits : Registration Float Unit := do
  let m ← lookup "m"
  let kg ← lookup "kg"
  let pascal ← lookup "Pa"
  let joule ← lookup "J"
  let watt ← lookup "W"
  let hour ← lookup "h"
  let radian ← lookup "rad"
  family (← scaled "L" (← m.power cubed) 1e-3) "liter" ["litre", "l"]
  unit (← scaled "ha" (← m.power squared) 1e4) "hectare" []
  unit (← scaled "t" kg 1e3) "tonne" ["metric_ton"]
  unit (← scaled "Å" m 1e-10) "angstrom" []
  family (← scaled "bar" pascal 1e5) "bar" []
  unit (← scaled "atm" pascal 101325) "atmosphere" []
  family (← scaled "eV" joule electronvolt) "electronvolt" []
  family (← scaled "cal" joule 4.184) "calorie" []
  family ((← watt.multiply hour).withSymbol "Wh") "watthour" []
  unit (← (Quantity.mk 1055 joule).asUnit "BTU") "british_thermal_unit" ["Btu"]
  unit (← scaled "erg" joule 1e-7) "erg" []
  let degree ← scaled "deg" radian (pi / 180)
  unit degree "degree" ["°"]
  unit (← scaled "arcmin" degree (1 / 60)) "arcminute" []
  unit (← scaled "arcsec" degree (1 / 3600)) "arcsecond" []

/-- The units of astronomical lengths. -/
def astronomicalUnits : Registration Float Unit := do
  let m ← lookup "m"
  let year ← lookup "yr"
  let au ← scaled "au" m astronomicalUnit
  let lightYear ← scaled "ly" m (speedOfLight * year.scale)
  let parsec ← scaled "pc" au (648000 / pi)
  unit au "astronomical_unit" ["AU"]
  unit lightYear "light_year" []
  unit parsec "parsec" []
  unit (← prefixed .kilo parsec) "kiloparsec" []
  unit (← prefixed .mega parsec) "megaparsec" []
  unit (← prefixed .giga parsec) "gigaparsec" []

end Metrology.Catalog
