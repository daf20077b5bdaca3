import Metrology.Text.Shown

/-!
# Quoted text

A text in double quotes: quotes and backslashes are escaped, and so is every character that does not
show by itself, by a letter if it has one and by its code point otherwise.
-/

namespace Metrology.Text

/-- The hexadecimal digits of a number, in lower case. -/
def hexadecimal (n : Nat) : List Char :=
  Nat.toDigits 16 n

/-- The letter that stands for a character after a backslash. -/
def escapeLetter? (c : Char) : Option Char :=
  [('\x00', '0'), ('\t', 't'), ('\n', 'n'), ('\r', 'r'), ('"', '"'), ('\\', '\\')].lookup c

/-- A character inside quotes. -/
def quoteChar (c : Char) : List Char :=
  match escapeLetter? c with
  | some letter => ['\\', letter]
  | none =>
    if isShown c then [c] else ['\\', 'u', '\x7b'] ++ hexadecimal c.toNat ++ ['\x7d']

/-- A text in quotes. -/
def quote (s : String) : String :=
  String.ofList ('"' :: s.toList.flatMap quoteChar ++ ['"'])

example : quote "tab\t\"\\\u200b" = "\"tab\\t\\\"\\\\\\u\x7b200b\x7d\"" := by decide +kernel

end Metrology.Text
