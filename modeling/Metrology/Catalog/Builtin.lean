import Metrology.Catalog.Accepted
import Metrology.Catalog.Customary

/-!
# The catalog

All units that are known without a configuration.
-/

namespace Metrology

namespace Catalog

/-- Registers the catalog.  Later parts are defined by units of earlier ones. -/
def all : Registration Float Unit := do
  baseUnits
  derivedUnits
  temperatureScales
  timeUnits
  generalUnits
  customaryLengths
  customaryUnits
  astronomicalUnits

/-- The registration of the catalog in an empty registry. -/
def outcome : Outcome Float Unit :=
  all .empty

end Catalog

/-- The registry of the catalog. -/
def Registry.builtin : Registry Float :=
  Catalog.all.registryOf

end Metrology
