import Metrology.Binary64.Integral
import Metrology.Binary64.Power
import Metrology.Binary64.Remainder
import Metrology.Binary64.Root

/-!
# Scalars

The numbers that units are scaled by and quantities count with.  Units, conversions and quantities
are defined over any type with these operations; the doubles are the instance that runs, and an
exact field is the instance to compare it with.
-/

namespace Metrology

/-- A type of numbers to measure with. -/
class Scalar (α : Type) extends Zero α, One α, Neg α, Add α, Sub α, Mul α, Div α, BEq α,
    OfScientific α where
  /-- Whether the first number is less than the second. -/
  less : α → α → Bool
  /-- Whether a number is neither infinite nor undefined. -/
  isFinite : α → Bool
  /-- Whether two numbers are the same value of the type; unlike `==` it holds of every number and
  itself. -/
  same : α → α → Bool
  same_self : ∀ x, same x x = true
  ofInt : Int → α
  sqrt : α → α
  cbrt : α → α
  /-- A real power. -/
  pow : α → α → α
  abs : α → α
  floor : α → α
  ceil : α → α
  /-- The nearest integer; a half goes away from zero. -/
  round : α → α
  /-- The remainder of truncated division. -/
  remainder : α → α → α
  /-- The magnitude of the first number under the sign of the second. -/
  copySign : α → α → α
  /-- A total order, in which also zeros of different sign and undefined numbers have a place. -/
  totalCompare : α → α → Ordering

instance floatOne : One Float := ⟨1.0⟩

instance : Scalar Float where
  less x y := x < y
  isFinite x := x.isFinite
  same x y := x.toBits == y.toBits
  same_self x := beq_self_eq_true x.toBits
  ofInt := Binary64.ofInt
  sqrt := Float.sqrt
  cbrt := Binary64.cbrt
  pow := Binary64.pow
  abs := Binary64.abs
  floor := Binary64.floor
  ceil := Binary64.ceil
  round := Binary64.round
  remainder := Binary64.remainder
  copySign := Binary64.copySign
  totalCompare := Binary64.totalCompare

namespace Scalar

variable {α : Type} [Scalar α]

/-- Whether a number is usable as a factor: finite and not zero. -/
def isFactor (x : α) : Bool :=
  !(x == 0) && isFinite x

/-- The order of two numbers as reals; undefined numbers have none. -/
def compare? (x y : α) : Option Ordering :=
  if less x y then some .lt
  else if less y x then some .gt
  else if x == y then some .eq
  else none

end Scalar

end Metrology
