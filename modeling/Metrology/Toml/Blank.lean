/-!
# Blanks, comments and line ends

What separates the tokens of a TOML text.  A line ends with a line feed, which may have a carriage
return before it; a comment reaches from a number sign to the end of its line.
-/

namespace Metrology.Toml

/-- Takes the blanks off the front of a text. -/
def skipBlanks (cs : List Char) : List Char :=
  cs.dropWhile fun c => c = ' ' || c = '\t'

/-- Whether a character may be written in a comment or a string: all but the control characters,
and of these the tab. -/
def isWritable (c : Char) : Bool :=
  c = '\t' || (0x20 ≤ c.toNat && c.toNat != 0x7F)

/-- Takes a comment off the front of a text, if there is one. -/
def skipComment : List Char → List Char
  | '#' :: cs => cs.dropWhile isWritable
  | cs => cs

/-- Takes a line end off the front of a text. -/
def newline? : List Char → Option (List Char)
  | '\n' :: cs => some cs
  | '\r' :: '\n' :: cs => some cs
  | _ => none

/-- Takes the rest of a line that holds no more tokens off the front of a text; the text may end
with it. -/
def restOfLine? (cs : List Char) : Option (List Char) :=
  match skipComment (skipBlanks cs) with
  | [] => some []
  | cs => newline? cs

/-- Takes up to `lines` lines without tokens, and the blanks after them, off the front of a text. -/
def skipLinesUpTo : Nat → List Char → List Char
  | 0, cs => cs
  | lines + 1, cs =>
    match newline? (skipComment (skipBlanks cs)) with
    | some cs => skipLinesUpTo lines cs
    | none => skipBlanks cs

/-- Takes all lines without tokens, and the blanks after them, off the front of a text. -/
def skipLines (cs : List Char) : List Char :=
  skipLinesUpTo (cs.length + 1) cs

end Metrology.Toml
