import Metrology.UnitOfMeasure.Construction

/-!
# Composition of units

Products, quotients and powers of linear units.  The worth of the result is computed from the worth
of the operands; the factors are computed beside it, by adding the exponents of like atoms
(`addFactor`) and dropping those that cancel (`compose`).  A product of one atom to the first power
is that atom.  What does not fit is an error: a scale that is not finite or zero, and an exponent
outside its range.
-/

namespace Metrology

/-- Whether two atoms can be taken together in a product: they have the same symbol and are equal
units. -/
def Atom.isLike {α : Type} [Scalar α] (a b : Atom α) : Bool :=
  a.symbol == b.symbol && UnitOfMeasure.atom a == UnitOfMeasure.atom b

namespace Scalar

variable {α : Type} [Scalar α]

/-- The product of `result` and `x ^ n` by repeated squaring over the given number of bits. -/
def powBits : Nat → α → α → Nat → α
  | 0, result, _, _ => result
  | bits + 1, result, x, n =>
    powBits bits (if n % 2 = 1 then result * x else result) (x * x) (n / 2)

/-- A natural power by repeated squaring. -/
def powNat (x : α) (n : Nat) : α :=
  powBits (Nat.log2 n + 1) 1 x n

/-- An integer power: by repeated squaring for exponents of 32 bits, as a real power beyond. -/
def powInt (x : α) (n : Int) : α :=
  if -0x80000000 ≤ n ∧ n < 0x80000000 then
    if n < 0 then 1 / powNat x n.natAbs else powNat x n.natAbs
  else pow x (ofInt n)

/-- The root of a given degree. -/
def root (x : α) (degree : Nat) : α :=
  match degree with
  | 2 => sqrt x
  | 3 => cbrt x
  | _ => pow x (1 / ofInt degree)

/-- A rational power: the integer power of a root. -/
def raise (x : α) (exponent : Exponent) : Except (MeasureError α) α :=
  if x == 0 && exponent.value < 0 then .error .divisionByZero
  else if exponent.isInteger then .ok (powInt x exponent.value.num)
  else if less x 0 then .error (.noRealPower x exponent)
  else .ok (powInt (root x exponent.value.den) exponent.value.num)

end Scalar

namespace UnitOfMeasure

variable {α : Type} [Scalar α]

/-- Adds a power of an atom to a product, to the factor of a like atom or as a new one. -/
def addFactor : List (Atom α × Exponent) → Atom α × Exponent →
    Except (MeasureError α) (List (Atom α × Exponent))
  | [], f => .ok [f]
  | (a, x) :: factors, f =>
    if a.isLike f.1 then
      match x.add? f.2 with
      | some sum => .ok ((a, sum) :: factors)
      | none => .error (.exponentOverflow (.likeTerms a.symbol x f.2))
    else (addFactor factors f).map ((a, x) :: ·)

/-- Adds powers of atoms to a product, from left to right. -/
def addFactors (merged : List (Atom α × Exponent)) :
    List (Atom α × Exponent) → Except (MeasureError α) (List (Atom α × Exponent))
  | [] => .ok merged
  | f :: factors => (addFactor merged f).bind fun merged => addFactors merged factors

/-- The product of powers of atoms with a given dimension and scale. -/
def compose (factors : List (Atom α × Exponent)) (dimension : Dimension) (scale : α) :
    Except (MeasureError α) (UnitOfMeasure α) :=
  if !Scalar.isFactor scale then .error (.invalidScale scale)
  else
    (addFactors [] factors).map fun merged =>
      match merged.filter (·.2 ≠ 0) with
      | [(a, x)] => if x = 1 then atom a else product [(a, x)] dimension scale
      | kept => product kept dimension scale

/-- Applies a partial operation to the exponents of a product. -/
def mapExponents? (f : Exponent → Option Exponent) :
    List (Atom α × Exponent) → Option (List (Atom α × Exponent))
  | [] => some []
  | (a, x) :: factors =>
    match f x, mapExponents? f factors with
    | some y, some mapped => some ((a, y) :: mapped)
    | _, _ => none

/-- The product of two units. -/
def multiply (u v : UnitOfMeasure α) : Except (MeasureError α) (UnitOfMeasure α) :=
  if u.isAffine then .error (.affineComposition (.leftFactor u.text))
  else if v.isAffine then .error (.affineComposition (.rightFactor v.text))
  else
    match u.dimension.multiply? v.dimension with
    | none => .error (.exponentOverflow (.product u.text v.text))
    | some dimension => compose (u.factors ++ v.factors) dimension (u.scale * v.scale)

/-- The quotient of two units. -/
def divide (u v : UnitOfMeasure α) : Except (MeasureError α) (UnitOfMeasure α) :=
  if u.isAffine then .error (.affineComposition (.dividend u.text))
  else if v.isAffine then .error (.affineComposition (.divisor v.text))
  else if v.scale == 0 then .error .divisionByZero
  else
    match u.dimension.divide? v.dimension, mapExponents? Exponent.neg? v.factors with
    | some dimension, some inverted => compose (u.factors ++ inverted) dimension (u.scale / v.scale)
    | _, _ => .error (.exponentOverflow (.quotient u.text v.text))

/-- The reciprocal of a unit. -/
def invert (u : UnitOfMeasure α) : Except (MeasureError α) (UnitOfMeasure α) :=
  one.divide u

/-- A power of a unit.  The first power is the unit itself, be it affine or not. -/
def power (u : UnitOfMeasure α) (exponent : Exponent) : Except (MeasureError α) (UnitOfMeasure α) :=
  if exponent = 1 then .ok u
  else if u.isAffine then .error (.affineComposition (.raising u.text exponent))
  else if exponent = 0 then .ok one
  else
    match u.dimension.power? exponent, mapExponents? (·.mul? exponent) u.factors with
    | some dimension, some factors =>
      (Scalar.raise u.scale exponent).bind (compose factors dimension)
    | _, _ => .error (.exponentOverflow (.power u.text exponent))

end UnitOfMeasure

end Metrology
