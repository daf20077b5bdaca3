import Metrology.Exponent

/-!
# Text of a product of powers

A product of powers is written as its factors in order with one space between them: a factor of
exponent 1 is its symbol alone, any other is the symbol, a caret and the exponent.  The empty
product is written `1`.
-/

namespace Metrology

/-- The characters of one factor. -/
def powerChars (symbol : String) (exponent : Exponent) : List Char :=
  if exponent = 1 then symbol.toList else symbol.toList ++ '^' :: exponent.chars

/-- The characters of a product of powers. -/
def productChars (factors : List (String × Exponent)) : List Char :=
  match factors with
  | [] => ['1']
  | _ :: _ => [' '].intercalate (factors.map fun f => powerChars f.1 f.2)

/-- The text of a product of powers. -/
def productText (factors : List (String × Exponent)) : String :=
  String.ofList (productChars factors)

end Metrology
