/-!
# TOML values

A TOML value, with its tables and arrays of tables resolved to members and items.
-/

namespace Metrology

/-- A TOML value. -/
inductive Toml where
  | string (s : String)
  | integer (n : Int)
  | float (x : Float)
  | boolean (b : Bool)
  /-- A date, a time or both, as it was written. -/
  | dateTime (text : String)
  | array (items : List Toml)
  | table (members : List (String × Toml))

end Metrology
