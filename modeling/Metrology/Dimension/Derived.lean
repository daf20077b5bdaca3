import Metrology.Dimension.Basic

/-!
# Named dimensions

The dimensions of the seven base quantities and of the common mechanical and electrical ones, with
tables that find them by name.
-/

namespace Metrology.Dimension

/-- Area, `L^2`. -/
def area : Dimension := ofSmall [(.length, 2)]

/-- Volume, `L^3`. -/
def volume : Dimension := ofSmall [(.length, 3)]

/-- Velocity, `L T^-1`. -/
def velocity : Dimension := ofSmall [(.length, 1), (.time, -1)]

/-- Acceleration, `L T^-2`. -/
def acceleration : Dimension := ofSmall [(.length, 1), (.time, -2)]

/-- Frequency, `T^-1`. -/
def frequency : Dimension := ofSmall [(.time, -1)]

/-- Force, `M L T^-2`. -/
def force : Dimension := ofSmall [(.mass, 1), (.length, 1), (.time, -2)]

/-- Energy, `M L^2 T^-2`. -/
def energy : Dimension := ofSmall [(.mass, 1), (.length, 2), (.time, -2)]

/-- Power, `M L^2 T^-3`. -/
def power : Dimension := ofSmall [(.mass, 1), (.length, 2), (.time, -3)]

/-- Pressure, `M L^-1 T^-2`. -/
def pressure : Dimension := ofSmall [(.mass, 1), (.length, -1), (.time, -2)]

/-- Electric charge, `T I`. -/
def charge : Dimension := ofSmall [(.time, 1), (.current, 1)]

/-- Voltage, `M L^2 T^-3 I^-1`. -/
def voltage : Dimension := ofSmall [(.mass, 1), (.length, 2), (.time, -3), (.current, -1)]

/-- Electric resistance, `M L^2 T^-3 I^-2`. -/
def resistance : Dimension := ofSmall [(.mass, 1), (.length, 2), (.time, -3), (.current, -2)]

/-- The dimensions of the base quantities by name. -/
def baseQuantities : List (String × Dimension) :=
  Base.si.map fun b => (b.name, of b)

/-- The common derived dimensions by name. -/
def derivedQuantities : List (String × Dimension) :=
  [("area", area), ("volume", volume), ("velocity", velocity), ("acceleration", acceleration),
    ("frequency", frequency), ("force", force), ("energy", energy), ("power", power),
    ("pressure", pressure), ("charge", charge), ("voltage", voltage), ("resistance", resistance)]

example : resistance.text = "M L^2 T^-3 I^-2" := by decide +kernel

end Metrology.Dimension
