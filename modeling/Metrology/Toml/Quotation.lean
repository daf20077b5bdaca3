import Metrology.Text.CodePoint
import Metrology.Toml.Blank

/-!
# TOML strings

A string stands between double quotes, where a backslash escapes, or between single ones, where
nothing does; and between one quote at each end, on one line, or between three, on any number of
lines.  A `Quotation` is one of these four kinds.  A string is read in pieces (`piece?`) up to the
one that closes it (`rest?`).
-/

namespace Metrology.Toml

/-- How a string is quoted. -/
structure Quotation where
  quote : Char
  /-- Whether three quotes stand at each end, and lines may end inside. -/
  multiline : Bool
  /-- Whether a backslash escapes. -/
  escapes : Bool

namespace Quotation

/-- One line between double quotes. -/
def basic : Quotation :=
  ⟨'"', false, true⟩

/-- Lines between three double quotes. -/
def multilineBasic : Quotation :=
  ⟨'"', true, true⟩

/-- One line between single quotes. -/
def literal : Quotation :=
  ⟨'\x27', false, false⟩

/-- Lines between three single quotes. -/
def multilineLiteral : Quotation :=
  ⟨'\x27', true, false⟩

/-- A part of a string: the characters it stands for, and whether the string ends with it. -/
structure Piece where
  chars : List Char
  closes : Bool

/-- The character that a letter after a backslash stands for. -/
def unescape? (c : Char) : Option Char :=
  [('"', '"'), ('\\', '\\'), ('b', '\x08'), ('f', '\x0c'), ('n', '\n'), ('r', '\r'),
    ('t', '\t')].lookup c

/-- Takes an escape, after its backslash, off the front of a text. -/
def escape? : List Char → Option (Char × List Char)
  | 'u' :: cs => do
    let (n, cs) ← Text.takeHexadecimal? 4 cs
    (Text.scalar? n).map (·, cs)
  | 'U' :: cs => do
    let (n, cs) ← Text.takeHexadecimal? 8 cs
    (Text.scalar? n).map (·, cs)
  | c :: cs => (unescape? c).map (·, cs)
  | [] => none

/-- Takes blanks and line ends off the front of a text. -/
def skipSpace : List Char → List Char
  | ' ' :: cs => skipSpace cs
  | '\t' :: cs => skipSpace cs
  | '\n' :: cs => skipSpace cs
  | '\r' :: '\n' :: cs => skipSpace cs
  | cs => cs

/-- Takes what a backslash before a line end hides, after that backslash, off the front of a text:
everything up to the next character that is neither blank nor a line end. -/
def hiddenSpace? (cs : List Char) : Option (List Char) :=
  (newline? (skipBlanks cs)).map skipSpace

/-- Takes what a backslash begins, after that backslash, off the front of a text. -/
def escapedPiece? (q : Quotation) (cs : List Char) : Option (Piece × List Char) :=
  match if q.multiline then hiddenSpace? cs else none with
  | some cs => some (⟨[], false⟩, cs)
  | none => (escape? cs).map fun (c, cs) => (⟨[c], false⟩, cs)

/-- Takes a run of quotes off the front of a text.  Three of them close a string of lines, and up to
two more before these belong to it. -/
def quotePiece? (q : Quotation) (cs : List Char) : Option (Piece × List Char) :=
  if q.multiline then
    let count := (cs.takeWhile (· = q.quote)).length
    let cs := cs.drop count
    if count < 3 then some (⟨List.replicate count q.quote, false⟩, cs)
    else if count ≤ 5 then some (⟨List.replicate (count - 3) q.quote, true⟩, cs)
    else none
  else some (⟨[], true⟩, cs.drop 1)

/-- Takes a piece of a string off the front of a text. -/
def piece? (q : Quotation) : List Char → Option (Piece × List Char)
  | [] => none
  | c :: cs =>
    if c = q.quote then q.quotePiece? (c :: cs)
    else if c = '\\' && q.escapes then q.escapedPiece? cs
    else if isWritable c then some (⟨[c], false⟩, cs)
    else if q.multiline then (newline? (c :: cs)).map fun cs => (⟨['\n'], false⟩, cs)
    else none

/-- Takes up to `count` pieces, the last of which closes the string, off the front of a text. -/
def pieces? (q : Quotation) : Nat → List Char → Option (List Char × List Char)
  | 0, _ => none
  | count + 1, cs => do
    let (piece, cs) ← q.piece? cs
    if piece.closes then return (piece.chars, cs)
    else
      let (rest, cs) ← pieces? q count cs
      return (piece.chars ++ rest, cs)

/-- Takes a string, after its opening quotes, off the front of a text.  A line end right after the
quotes does not belong to a string of lines. -/
def rest? (q : Quotation) (cs : List Char) : Option (String × List Char) :=
  let cs := if q.multiline then (newline? cs).getD cs else cs
  (q.pieces? (cs.length + 1) cs).map fun (s, cs) => (String.ofList s, cs)

end Quotation

/-- Takes a string of one line off the front of a text. -/
def quotedLine? : List Char → Option (String × List Char)
  | '"' :: cs => Quotation.basic.rest? cs
  | '\x27' :: cs => Quotation.literal.rest? cs
  | _ => none

/-- Takes a string off the front of a text. -/
def quoted? : List Char → Option (String × List Char)
  | '"' :: '"' :: '"' :: cs => Quotation.multilineBasic.rest? cs
  | '\x27' :: '\x27' :: '\x27' :: cs => Quotation.multilineLiteral.rest? cs
  | cs => quotedLine? cs

end Metrology.Toml
