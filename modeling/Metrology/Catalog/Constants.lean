/-!
# Constants

The numbers that define units of the catalog.
-/

namespace Metrology.Catalog

/-- The ratio of a circle's circumference to its diameter. -/
def pi : Float := 3.141592653589793

/-- The zero of the Celsius scale in kelvins. -/
def celsiusZero : Float := 273.15

/-- A degree Fahrenheit in kelvins. -/
def fahrenheitFactor : Float := 5.0 / 9.0

/-- The zero of the Fahrenheit scale in kelvins. -/
def fahrenheitZero : Float := 45967.0 / 180.0

/-- An electronvolt in joules. -/
def electronvolt : Float := 1.602176634e-19

/-- A Julian year in days. -/
def julianYear : Float := 365.25

/-- An international inch in metres. -/
def inch : Float := 0.0254

/-- An avoirdupois pound in kilograms. -/
def pound : Float := 0.45359237

/-- The standard acceleration of gravity in metres per second squared. -/
def standardGravity : Float := 9.80665

/-- An astronomical unit in metres. -/
def astronomicalUnit : Float := 149597870700.0

/-- The speed of light in metres per second. -/
def speedOfLight : Float := 299792458.0

end Metrology.Catalog
