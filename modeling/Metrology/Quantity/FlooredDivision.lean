import Metrology.Scalar

/-!
# Floored division of scalars

Division with a whole quotient and a remainder under the sign of the divisor.  It starts from the
remainder of truncated division, which is exact; a remainder of the wrong sign is moved by one
divisor, and a zero takes the sign of the divisor.  The quotient is rounded to a whole number, down
unless its fractional part exceeds one half.
-/

namespace Metrology.Scalar

variable {α : Type} [Scalar α]

/-- The quotient and the remainder of floored division, the quotient before it is made whole. -/
def flooredParts (a b : α) : α × α :=
  let rest := remainder a b
  let quotient := (a - rest) / b
  if rest == 0 then (quotient, copySign 0 b)
  else if less rest 0 != less b 0 then (quotient - 1, rest + b)
  else (quotient, rest)

/-- A number that is nearly whole as a whole number. -/
def toWhole (x : α) : α :=
  let floored := floor x
  if less 0.5 (x - floored) then floored + 1 else floored

/-- The whole quotient and the remainder of floored division. -/
def flooredDivMod (a b : α) : α × α :=
  let parts := flooredParts a b
  (toWhole parts.1, parts.2)

end Metrology.Scalar
