import Metrology.Dimension.Basic
import Metrology.Prefix
import Metrology.Scalar

/-!
# Units of measure

A unit is an atom, which has a symbol of its own, or an anonymous product of powers of atoms.  Both
know what they are worth in base units: a value `v` of a unit is `scale * v + offset` base units of
its dimension.  A unit with an offset is affine (`isAffine`); products have none.  How an atom came
about (`Origin`) is kept for display; the worth is never computed from it.

Units are equal when they are worth the same, whatever their symbols (`isEqualSize`).  An offset can
be undefined, and then that equality fails even of a unit and itself; `isSame` closes the gap, and
`==` is the union of both.  Two atoms defined apart carry different tags, so that they are not the
same unit even when they agree in everything else.
-/

namespace Metrology

mutual

/-- A unit with a symbol. -/
structure Atom (α : Type) where
  symbol : String
  dimension : Dimension
  scale : α
  offset : α
  origin : Origin α
  tag : Nat

/-- How an atom was defined. -/
inductive Origin (α : Type) where
  /-- As the unit that others are measured by. -/
  | base
  /-- As a multiple of a unit. -/
  | scaled (of : UnitOfMeasure α) (factor : α)
  /-- As a unit with a metric prefix. -/
  | prefixed (p : Prefix) (of : UnitOfMeasure α)
  /-- As a scale on a unit with a zero of its own. -/
  | affine (of : UnitOfMeasure α) (factor offset : α)
  /-- As a product of powers of atoms. -/
  | product (factors : List (Atom α × Exponent))

/-- A unit of measure. -/
inductive UnitOfMeasure (α : Type) where
  | atom (a : Atom α)
  | product (factors : List (Atom α × Exponent)) (dimension : Dimension) (scale : α)

end

namespace UnitOfMeasure

variable {α : Type} [Scalar α]

/-- The symbol of an atom. -/
def symbol? : UnitOfMeasure α → Option String
  | atom a => some a.symbol
  | product _ _ _ => none

/-- The dimension of a unit. -/
def dimension : UnitOfMeasure α → Dimension
  | atom a => a.dimension
  | product _ d _ => d

/-- How many base units a unit is. -/
def scale : UnitOfMeasure α → α
  | atom a => a.scale
  | product _ _ s => s

/-- The base units of the value zero. -/
def offset : UnitOfMeasure α → α
  | atom a => a.offset
  | product _ _ _ => 0

/-- How a unit was defined. -/
def origin : UnitOfMeasure α → Origin α
  | atom a => a.origin
  | product factors _ _ => .product factors

/-- The tag that tells apart atoms defined apart. -/
def tag : UnitOfMeasure α → Nat
  | atom a => a.tag
  | product _ _ _ => 0

/-- A unit as a product of powers of atoms; an atom is its own first power. -/
def factors : UnitOfMeasure α → List (Atom α × Exponent)
  | atom a => [(a, 1)]
  | product factors _ _ => factors

/-- The text of a list of powers of atoms. -/
def factorsText (factors : List (Atom α × Exponent)) : String :=
  productText (factors.map fun f => (f.1.symbol, f.2))

/-- The text of a unit: its symbol, or the product of its factors. -/
def text : UnitOfMeasure α → String
  | atom a => a.symbol
  | product factors _ _ => factorsText factors

/-- Whether a unit has an offset. -/
def isAffine (u : UnitOfMeasure α) : Bool :=
  !(u.offset == 0)

/-- Whether a unit is dimensionless. -/
def isDimensionless (u : UnitOfMeasure α) : Bool :=
  u.dimension.isDimensionless

/-- Whether others are measured by a unit. -/
def isBase (u : UnitOfMeasure α) : Bool :=
  match u.origin with
  | .base => true
  | _ => false

/-- A value of a unit in base units. -/
def toBase (u : UnitOfMeasure α) (value : α) : α :=
  u.scale * value + u.offset

/-- A value in base units as a value of a unit. -/
def fromBase (u : UnitOfMeasure α) (value : α) : α :=
  (value - u.offset) / u.scale

/-! ### Equality -/

/-- Whether two units are worth the same. -/
def isEqualSize (u v : UnitOfMeasure α) : Bool :=
  u.dimension == v.dimension && u.scale == v.scale && u.offset == v.offset

/-- Whether two units are one and the same. -/
def isSame (u v : UnitOfMeasure α) : Bool :=
  u.tag == v.tag && u.symbol? == v.symbol? && u.dimension == v.dimension &&
    Scalar.same u.scale v.scale && Scalar.same u.offset v.offset

instance : BEq (UnitOfMeasure α) where
  beq u v := u.isSame v || u.isEqualSize v

theorem isSame_self (u : UnitOfMeasure α) : u.isSame u = true := by
  simp [isSame, Scalar.same_self]

theorem beq_self (u : UnitOfMeasure α) : (u == u) = true := by
  change (u.isSame u || u.isEqualSize u) = true
  rw [isSame_self, Bool.true_or]

/-- Whether two units have one dimension, so that values of one are values of the other. -/
def isCompatible (u v : UnitOfMeasure α) : Bool :=
  u.dimension == v.dimension

end UnitOfMeasure

end Metrology
