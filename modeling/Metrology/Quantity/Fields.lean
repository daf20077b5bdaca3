import Metrology.Json.Decoder
import Metrology.Quantity.Basic
import Metrology.Registry.Basic

/-!
# Quantities as fields

A quantity is stored as a field `value` and a field `unit`, the text of its unit.  Reading takes the
fields in any order, each at most once and no others; a quantity without unit, or in the unit `1`,
is a plain number, and any other unit has to be registered.
-/

namespace Metrology.Quantity

/-- Why fields are no quantity. -/
inductive FieldError where
  | unknownField (key : String)
  | duplicateField (key : String)
  | missingValue
  | unknownUnit (name : String)
deriving DecidableEq

/-- What is said of fields that are no quantity. -/
def FieldError.message : FieldError → String
  | unknownField key => "unknown field `" ++ key ++ "`, expected `value` or `unit`"
  | duplicateField key => "duplicate field `" ++ key ++ "`"
  | missingValue => "missing field `value`"
  | unknownUnit name => "Unknown unit: " ++ name

/-- The fields of a quantity; a value that is not finite is left open. -/
def toFields (p : Quantity Float) : List (String × Json) :=
  [("value", if p.value.isFinite then .number p.value else .null), ("unit", .string p.unit.text)]

/-- The fields that have been read. -/
structure Slots where
  value? : Option Float
  unit? : Option String

/-- What one more field has to hold. -/
def Slots.demand (slots : Slots) (key : String) : Except FieldError (Json.Demand Slots) :=
  if key = "value" then
    if slots.value?.isSome then .error (.duplicateField key)
    else .ok (.number fun x => { slots with value? := some x })
  else if key = "unit" then
    if slots.unit?.isSome then .error (.duplicateField key)
    else .ok (.text fun s => { slots with unit? := some s })
  else .error (.unknownField key)

/-- The quantity of the fields that have been read. -/
def Slots.toQuantity (slots : Slots) (registry : Registry Float) :
    Except FieldError (Quantity Float) :=
  match slots.value?, slots.unit? with
  | none, _ => .error .missingValue
  | some value, none => .ok (number value)
  | some value, some name =>
    if name = "1" then .ok (number value)
    else
      match registry.get? name with
      | some unit => .ok ⟨value, unit⟩
      | none => .error (.unknownUnit name)

/-- Decodes the fields of a quantity. -/
def decoder (registry : Registry Float) : Json.Decoder Slots FieldError (Quantity Float) where
  start := ⟨none, none⟩
  demand := Slots.demand
  finish slots := slots.toQuantity registry

/-- The quantity that a list of fields describes. -/
def ofFields (registry : Registry Float) (fields : List (String × Json)) :
    Except (Json.Fault FieldError) (Quantity Float) :=
  (decoder registry).ofMembers fields

/-- The quantity that a JSON text describes. -/
def ofJson (registry : Registry Float) (text : String) :
    Except (Json.Fault FieldError) (Quantity Float) :=
  (decoder registry).ofText text

end Metrology.Quantity
