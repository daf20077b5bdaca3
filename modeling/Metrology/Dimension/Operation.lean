/-!
# Operations on dimensions

The operations on dimensions that are undefined when an exponent does not fit, by name.
-/

namespace Metrology

/-- An operation on dimensions that can be undefined. -/
inductive Dimension.Operation where
  | ofPairs
  | multiply
  | invert
  | divide
  | power
deriving DecidableEq

/-- What is said of an operation that is broken off. -/
def Dimension.Operation.message (operation : Dimension.Operation) : String :=
  "dimension exponent overflow in DimensionVector::" ++
    match operation with
    | ofPairs => "from_pairs"
    | multiply => "multiply"
    | invert => "invert"
    | divide => "divide"
    | power => "power"

end Metrology
