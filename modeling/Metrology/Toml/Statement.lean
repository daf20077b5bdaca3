import Metrology.Toml.DateTime
import Metrology.Toml.Node
import Metrology.Toml.Number
import Metrology.Toml.Quotation

/-!
# TOML statements

A TOML text is a list of statements, each on a line of its own: the definition of a key, the header
of a table, or the header of one more table of an array.  Values nest at most `maxDepth` deep, and
keys have at most as many parts.
-/

namespace Metrology.Toml

/-- The greatest depth of arrays and tables inside each other, and the greatest length of a key. -/
def maxDepth : Nat := 79

/-- A statement. -/
inductive Statement where
  | pair (key : Key) (v : Toml)
  | table (key : Key)
  | element (key : Key)

/-! ### Keys -/

/-- Whether a character may be written in a key without quotes. -/
def isBare (c : Char) : Bool :=
  c.isAlphanum || c = '-' || c = '_'

/-- Takes a part of a key off the front of a text. -/
def keyPart? (cs : List Char) : Option (String × List Char) :=
  match cs.takeWhile isBare with
  | [] => quotedLine? cs
  | name => some (String.ofList name, cs.dropWhile isBare)

/-- Takes a key of up to `parts` parts, and the blanks around it, off the front of a text. -/
def keyUpTo? : Nat → List Char → Option (Key × List Char)
  | 0, _ => none
  | parts + 1, cs => do
    let (name, cs) ← keyPart? (skipBlanks cs)
    match skipBlanks cs with
    | '.' :: cs =>
      let (key, cs) ← keyUpTo? parts cs
      return (⟨name :: key.path, key.name⟩, cs)
    | cs => return (⟨[], name⟩, cs)

/-- Takes a key and the blanks around it off the front of a text. -/
def key? (cs : List Char) : Option (Key × List Char) :=
  keyUpTo? maxDepth cs

/-! ### Values -/

/-- Takes a value that is neither an array nor a table off the front of a text. -/
def simpleValue? : List Char → Option (Toml × List Char)
  | 't' :: 'r' :: 'u' :: 'e' :: cs => some (boolean true, cs)
  | 'f' :: 'a' :: 'l' :: 's' :: 'e' :: cs => some (boolean false, cs)
  | cs =>
    match quoted? cs with
    | some (s, cs) => some (string s, cs)
    | none =>
      match dateTime? cs with
      | some rest =>
        some (dateTime (String.ofList (cs.take (cs.length - rest.length))), rest)
      | none => number? cs

/-- Takes up to `count` items, the last of which may be empty, and the closing bracket off the front
of a text. -/
def itemsUpTo? (item? : List Char → Option (Toml × List Char)) :
    Nat → List Char → Option (List Toml × List Char)
  | 0, _ => none
  | count + 1, cs =>
    match skipLines cs with
    | ']' :: cs => some ([], cs)
    | cs => do
      let (item, cs) ← item? cs
      match skipLines cs with
      | ',' :: cs =>
        let (items, cs) ← itemsUpTo? item? count cs
        return (item :: items, cs)
      | ']' :: cs => return ([item], cs)
      | _ => none

/-- Takes a key, an equals sign and a value off the front of a text. -/
def pairOf? (item? : List Char → Option (Toml × List Char)) (cs : List Char) :
    Option ((Key × Toml) × List Char) := do
  let (key, cs) ← key? cs
  let cs ← takeChar? '=' cs
  let (v, cs) ← item? (skipBlanks cs)
  return ((key, v), cs)

/-- Takes up to `count` pairs, at least one, and the closing brace off the front of a text. -/
def pairsUpTo? (item? : List Char → Option (Toml × List Char)) :
    Nat → List Char → Option (List (Key × Toml) × List Char)
  | 0, _ => none
  | count + 1, cs => do
    let (pair, cs) ← pairOf? item? cs
    match skipBlanks cs with
    | ',' :: cs =>
      let (pairs, cs) ← pairsUpTo? item? count cs
      return (pair :: pairs, cs)
    | '\x7d' :: cs => return ([pair], cs)
    | _ => none

/-- Takes a value with arrays and tables inside each other up to a given depth off the front of a
text. -/
def valueUpTo? : Nat → List Char → Option (Toml × List Char)
  | 0, cs => simpleValue? cs
  | depth + 1, cs =>
    match cs with
    | '[' :: cs =>
      (itemsUpTo? (valueUpTo? depth) (cs.length + 1) cs).map fun (items, cs) => (array items, cs)
    | '\x7b' :: cs =>
      match skipBlanks cs with
      | '\x7d' :: cs => some (table [], cs)
      | cs => do
        let (pairs, cs) ← pairsUpTo? (valueUpTo? depth) (cs.length + 1) cs
        (ofPairs? pairs).map (·, cs)
    | cs => simpleValue? cs

/-- Takes a value off the front of a text. -/
def value? (cs : List Char) : Option (Toml × List Char) :=
  valueUpTo? maxDepth cs

/-! ### Lines -/

/-- Takes a statement off the front of a text. -/
def statement? : List Char → Option (Statement × List Char)
  | '[' :: '[' :: cs => do
    let (key, cs) ← key? cs
    let cs ← takeChar? ']' cs
    let cs ← takeChar? ']' cs
    return (.element key, cs)
  | '[' :: cs => do
    let (key, cs) ← key? cs
    let cs ← takeChar? ']' cs
    return (.table key, cs)
  | cs => do
    let ((key, v), cs) ← pairOf? value? cs
    return (.pair key v, cs)

/-- The statements of a text of up to `lines` lines. -/
def statementsUpTo? : Nat → List Char → Option (List Statement)
  | _, [] => some []
  | 0, _ => none
  | lines + 1, cs =>
    match restOfLine? cs with
    | some cs => statementsUpTo? lines cs
    | none => do
      let (statement, cs) ← statement? (skipBlanks cs)
      let cs ← restOfLine? cs
      let statements ← statementsUpTo? lines cs
      return statement :: statements

/-- The statements of a text. -/
def statements? (cs : List Char) : Option (List Statement) :=
  statementsUpTo? (cs.length + 1) cs

end Metrology.Toml
