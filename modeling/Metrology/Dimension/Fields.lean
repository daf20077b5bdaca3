import Metrology.Dimension.Basic
import Metrology.Dimension.Operation
import Metrology.Json.Decoder
import Metrology.Text.Blank

/-!
# Dimensions as text fields

A dimension is stored as a map from the symbols of its bases to the texts of their exponents
(`toFields`).  Reading such a map (`ofFields`) takes its keys in order of code points, keeps the
last of a repeated key, resolves symbols and names of base dimensions, ignores blanks around an
exponent, and adds the exponents of keys that name the same base.
-/

namespace Metrology.Dimension

open SortedEntries

/-- Why a map of fields is no dimension. -/
inductive FieldError where
  | invalidExponent (key text : String)
  | exponentOverflow
deriving DecidableEq

/-- What is said of a map of fields that is no dimension. -/
def FieldError.message : FieldError → String
  | invalidExponent key text => "invalid exponent '" ++ text ++ "' for dimension '" ++ key ++ "'"
  | exponentOverflow => Operation.ofPairs.message

/-- The fields of a dimension: for each of its bases, the symbol and the text of the exponent. -/
def toFields (d : Dimension) : List (String × String) :=
  d.entries.map fun e => (e.1.symbol, e.2.text)

/-- A list of fields as a map in order of keys; of a repeated key the last field counts. -/
def keyed (fields : List (String × String)) : List (String × String) :=
  fields.foldl (fun sorted f => put f.1 f.2 sorted) []

/-- A list of fields as a map in order of writing; a repeated key keeps its first place and takes
the last text. -/
def overwritten : List (String × String) → List (String × String)
  | [] => []
  | (key, text) :: fields =>
    let text := ((fields.reverse.find? (·.1 == key)).map (·.2)).getD text
    (key, text) :: (overwritten fields).filter (·.1 != key)

/-- Reads the exponents of a list of fields in order. -/
def pairsOfFields : List (String × String) → Except FieldError (List (Base × Exponent))
  | [] => .ok []
  | (key, text) :: fields =>
    match Exponent.ofChars? (Text.trim text.toList) with
    | none => .error (.invalidExponent key text)
    | some x => (pairsOfFields fields).map ((Base.ofName key, x) :: ·)

/-- The dimension that a map in order of keys describes. -/
def ofKeyed (fields : List (String × String)) : Except FieldError Dimension :=
  match pairsOfFields fields with
  | .error e => .error e
  | .ok pairs =>
    match ofPairs? pairs with
    | none => .error .exponentOverflow
    | some d => .ok d

/-- The dimension that a list of fields describes. -/
def ofFields (fields : List (String × String)) : Except FieldError Dimension :=
  ofKeyed (keyed fields)

/-- Decodes the fields of a dimension: any key, with a text. -/
def decoder : Json.Decoder (List (String × String)) FieldError Dimension where
  start := []
  demand fields key := .ok (.text fun text => put key text fields)
  finish := ofKeyed

/-- The dimension that a JSON text describes. -/
def ofJson (text : String) : Except (Json.Fault FieldError) Dimension :=
  decoder.ofText text

end Metrology.Dimension
