import Metrology.Registry.Configuration
import Metrology.Toml.Document

/-!
# Configurations as text

A configuration is written in TOML, as an array `base` of base units and an array `unit` of units.
An entry is a table of fields; it may also be an array of its fields in their order.  The symbol and
the dimension of a base unit, and the symbol and the source of a unit, are needed, the other fields
have defaults, and fields of other names count for nothing.
-/

namespace Metrology

namespace Toml

/-- The text of a string. -/
def asString? : Toml → Option String
  | string s => some s
  | _ => none

/-- The truth value of a boolean. -/
def asBoolean? : Toml → Option Bool
  | boolean b => some b
  | _ => none

/-- The number of an integer or a float. -/
def asNumber? : Toml → Option Float
  | integer n => some (Binary64.ofInt n)
  | float x => some x
  | _ => none

/-- The items of an array of which each can be read. -/
def asItems? {β : Type} (item? : Toml → Option β) : Toml → Option (List β)
  | array items => items.mapM item?
  | _ => none

/-- The fields of a table, or of an array that lists them by the given names. -/
def fields? (names : List String) : Toml → Option (List (String × Toml))
  | table members => some members
  | array items => some (names.zip items)
  | _ => none

/-- Reads a field that is needed. -/
def required? {β : Type} (read? : Toml → Option β) (name : String)
    (fields : List (String × Toml)) : Option β :=
  (fields.lookup name).bind read?

/-- Reads a field that has a default. -/
def optional? {β : Type} (read? : Toml → Option β) (default : β) (name : String)
    (fields : List (String × Toml)) : Option β :=
  match fields.lookup name with
  | some v => read? v
  | none => some default

end Toml

open Toml (required? optional?)

/-- The base unit that a table declares. -/
def BaseEntry.ofToml? (v : Toml) : Option BaseEntry := do
  let fields ← v.fields? ["symbol", "name", "dimension", "prefixable", "aliases"]
  let symbol ← required? Toml.asString? "symbol" fields
  let name? ← optional? (fun v => v.asString?.map some) none "name" fields
  let dimension ← required? Toml.asString? "dimension" fields
  let prefixable ← optional? Toml.asBoolean? false "prefixable" fields
  let aliases ← optional? (Toml.asItems? Toml.asString?) [] "aliases" fields
  return { symbol, name?, dimension, prefixable, aliases }

/-- The unit that a table declares. -/
def UnitEntry.ofToml? (v : Toml) : Option (UnitEntry Float) := do
  let fields ← v.fields? ["symbol", "name", "of", "factor", "offset", "prefixable", "aliases"]
  let symbol ← required? Toml.asString? "symbol" fields
  let name? ← optional? (fun v => v.asString?.map some) none "name" fields
  let source ← required? Toml.asString? "of" fields
  let factor ← optional? Toml.asNumber? 1 "factor" fields
  let offset ← optional? Toml.asNumber? 0 "offset" fields
  let prefixable ← optional? Toml.asBoolean? false "prefixable" fields
  let aliases ← optional? (Toml.asItems? Toml.asString?) [] "aliases" fields
  return { symbol, name?, source, factor, offset, prefixable, aliases }

namespace Configuration

/-- The configuration that a table declares. -/
def ofToml? (v : Toml) : Option (Configuration Float) := do
  let fields ← v.fields? ["base", "unit"]
  let bases ← optional? (Toml.asItems? BaseEntry.ofToml?) [] "base" fields
  let units ← optional? (Toml.asItems? UnitEntry.ofToml?) [] "unit" fields
  return { bases, units }

/-- The configuration that a text declares. -/
def ofText (s : String) : Except (MeasureError Float) (Configuration Float) :=
  match (Toml.ofText? s).bind ofToml? with
  | some c => .ok c
  | none => .error (.configuration .malformed)

end Configuration

end Metrology
