/-!
# JSON values

A JSON value as it was written: the members of an object stay in order, and repeated keys stay
visible.
-/

namespace Metrology

/-- A JSON value. -/
inductive Json where
  | null
  | boolean (b : Bool)
  | number (x : Float)
  | string (s : String)
  | array (items : List Json)
  | object (members : List (String × Json))

namespace Json

/-- The text of a string value. -/
def string? : Json → Option String
  | string s => some s
  | _ => none

end Json

end Metrology
