import Metrology.Decimal.Literal

/-!
# Places in messages

The message of a fault in a text may end in the place of the fault, as in ` at line 3 column 4`.
The place is no part of what is said of the fault: `withoutPlace` leaves it out, wherever it comes
from.
-/

namespace Metrology.Json

/-- Takes a number below 2⁶⁴ off the front of a text. -/
def dropIndex? (cs : List Char) : Option (List Char) :=
  match Decimal.Literal.takeDigits cs with
  | ([], _) => none
  | (digits, cs) => if Nat.ofDigitChars 10 digits 0 < UInt64.size then some cs else none

/-- Whether a text is the ending of a message that tells a place. -/
def isPlace (cs : List Char) : Bool :=
  let rest? := do
    let cs ← List.isPrefixOf? " at line ".toList cs
    let cs ← dropIndex? cs
    let cs ← List.isPrefixOf? " column ".toList cs
    dropIndex? cs
  rest? == some []

/-- A text up to the place that it ends in; the whole text if it ends in none. -/
def beforePlace : List Char → List Char
  | [] => []
  | c :: cs => if isPlace (c :: cs) then [] else c :: beforePlace cs

/-- A message without the place that it ends in. -/
def withoutPlace (message : String) : String :=
  String.ofList (beforePlace message.toList)

example : withoutPlace "no such unit at line 1 column 1 at line 20 column 3" =
    "no such unit at line 1 column 1" := by decide +kernel

example : withoutPlace "no such unit at line 20" = "no such unit at line 20" := by decide +kernel

end Metrology.Json
