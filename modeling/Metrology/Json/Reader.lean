import Metrology.Decimal.Literal
import Metrology.Json.Value
import Metrology.Text.CodePoint

/-!
# Reading JSON

A reader takes a value off the front of a text and returns it with the rest (`value?`); a text is
read when nothing but blanks is left (`ofText?`).  Numbers have to lie in the range of doubles, and
escaped surrogates have to come in pairs.
-/

namespace Metrology.Json

/-- Takes the blanks off the front of a text. -/
def skipBlanks (cs : List Char) : List Char :=
  cs.dropWhile fun c => c = ' ' || c = '\n' || c = '\r' || c = '\t'

/-! ### Numbers -/

/-- Takes a fraction off the front of a text, which may be missing but not empty. -/
def takeFraction? : List Char → Option (List Char × List Char)
  | '.' :: cs =>
    match Decimal.Literal.takeDigits cs with
    | ([], _) => none
    | (digits, cs) => some (digits, cs)
  | cs => some ([], cs)

/-- Takes the exponent of a number off the front of a text, which may be missing but not empty. -/
def takeExponent? : List Char → Option (Int × List Char)
  | c :: cs =>
    if c = 'e' ∨ c = 'E' then
      let (negative, cs) := Decimal.Literal.takeSign cs
      match Decimal.Literal.takeDigits cs with
      | ([], _) => none
      | (digits, cs) =>
        let n : Int := Nat.ofDigitChars 10 digits 0
        some (if negative then -n else n, cs)
    else some (0, c :: cs)
  | [] => some (0, [])

/-- Takes a minus sign off the front of a text. -/
def takeMinus : List Char → Bool × List Char
  | '-' :: cs => (true, cs)
  | cs => (false, cs)

/-- Takes a number off the front of a text. -/
def number? (cs : List Char) : Option (Json × List Char) := do
  let (negative, cs) := takeMinus cs
  let (whole, cs) := Decimal.Literal.takeDigits cs
  if !Decimal.Literal.isWhole whole then none
  else
    let (fraction, cs) ← takeFraction? cs
    let (exponent, cs) ← takeExponent? cs
    let x := (Decimal.Literal.ofParts negative whole fraction exponent).toFloat
    if x.isFinite then some (number x, cs) else none

/-! ### Strings -/

/-- The character that a letter after a backslash stands for. -/
def unescape? (c : Char) : Option Char :=
  [('"', '"'), ('\\', '\\'), ('/', '/'), ('b', '\x08'), ('f', '\x0c'), ('n', '\n'), ('r', '\r'),
    ('t', '\t')].lookup c

/-- Takes an escape, after its backslash, off the front of a text. -/
def escape? : List Char → Option (Char × List Char)
  | 'u' :: cs => do
    let (high, cs) ← Text.takeHexadecimal? 4 cs
    match Text.scalar? high, cs with
    | some c, cs => some (c, cs)
    | none, '\\' :: 'u' :: cs => do
      let (low, cs) ← Text.takeHexadecimal? 4 cs
      (Text.ofSurrogates? high low).map (·, cs)
    | none, _ => none
  | c :: cs => (unescape? c).map (·, cs)
  | [] => none

/-- Takes the rest of a string, after its opening quote, off the front of a text. -/
def stringRest? : Nat → List Char → Option (List Char × List Char)
  | 0, _ => none
  | _ + 1, [] => none
  | fuel + 1, c :: cs =>
    if c = '"' then some ([], cs)
    else if c = '\\' then do
      let (c, cs) ← escape? cs
      let (rest, cs) ← stringRest? fuel cs
      return (c :: rest, cs)
    else if c.toNat < 0x20 then none
    else do
      let (rest, cs) ← stringRest? fuel cs
      return (c :: rest, cs)

/-- Takes a string, after its opening quote, off the front of a text. -/
def text? (cs : List Char) : Option (String × List Char) :=
  (stringRest? (cs.length + 1) cs).map fun (s, cs) => (String.ofList s, cs)

/-! ### Values -/

/-- Takes a value without parts off the front of a text. -/
def scalar? : List Char → Option (Json × List Char)
  | 'n' :: 'u' :: 'l' :: 'l' :: cs => some (null, cs)
  | 't' :: 'r' :: 'u' :: 'e' :: cs => some (boolean true, cs)
  | 'f' :: 'a' :: 'l' :: 's' :: 'e' :: cs => some (boolean false, cs)
  | '"' :: cs => (text? cs).map fun (s, cs) => (string s, cs)
  | cs => number? cs

/-- Takes a value off the front of a text as far as needed to tell its type: of an array or an
object only the opening is taken, and it is seen as empty. -/
def glimpse? (cs : List Char) : Option (Json × List Char) :=
  match skipBlanks cs with
  | '[' :: cs => some (array [], cs)
  | '\x7b' :: cs => some (object [], cs)
  | cs => scalar? cs

/-- Takes the key of a member off the front of a text. -/
def key? (cs : List Char) : Option (String × List Char) :=
  match skipBlanks cs with
  | '"' :: cs => text? cs
  | _ => none

/-- Takes the colon after a key off the front of a text. -/
def colon? (cs : List Char) : Option (List Char) :=
  match skipBlanks cs with
  | ':' :: cs => some cs
  | _ => none

mutual

/-- Takes a value off the front of a text, with a bound on the depth of the recursion. -/
def value? : Nat → List Char → Option (Json × List Char)
  | 0, _ => none
  | fuel + 1, cs =>
    match skipBlanks cs with
    | '[' :: cs =>
      match skipBlanks cs with
      | ']' :: cs => some (array [], cs)
      | cs => (items? fuel cs).map fun (items, cs) => (array items, cs)
    | '\x7b' :: cs =>
      match skipBlanks cs with
      | '\x7d' :: cs => some (object [], cs)
      | cs => (members? fuel cs).map fun (members, cs) => (object members, cs)
    | cs => scalar? cs

/-- Takes items and the closing bracket off the front of a text. -/
def items? : Nat → List Char → Option (List Json × List Char)
  | 0, _ => none
  | fuel + 1, cs => do
    let (item, cs) ← value? fuel cs
    match skipBlanks cs with
    | ',' :: cs =>
      let (items, cs) ← items? fuel cs
      return (item :: items, cs)
    | ']' :: cs => return ([item], cs)
    | _ => none

/-- Takes members and the closing brace off the front of a text. -/
def members? : Nat → List Char → Option (List (String × Json) × List Char)
  | 0, _ => none
  | fuel + 1, cs => do
    let (key, cs) ← key? cs
    let cs ← colon? cs
    let (value, cs) ← value? fuel cs
    match skipBlanks cs with
    | ',' :: cs =>
      let (members, cs) ← members? fuel cs
      return ((key, value) :: members, cs)
    | '\x7d' :: cs => return ([(key, value)], cs)
    | _ => none

end

/-- The value that a text holds.  Every character is passed at most twice on the way down. -/
def ofText? (s : String) : Option Json :=
  let cs := s.toList
  match value? (2 * cs.length + 2) cs with
  | some (value, cs) => if (skipBlanks cs).isEmpty then some value else none
  | none => none

end Metrology.Json
