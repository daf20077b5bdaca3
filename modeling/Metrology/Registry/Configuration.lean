import Metrology.Registry.Registration

/-!
# Configurations

A configuration declares base units, each of an own dimension or one of the system, and units that
are multiples of registered ones or scales on them.  Applying it registers the entries in order, the
base units first; an entry that fails ends the application, and the entries before it stay.
-/

namespace Metrology

/-- A base unit to declare. -/
structure BaseEntry where
  symbol : String
  name? : Option String
  dimension : String
  prefixable : Bool
  aliases : List String
deriving DecidableEq

/-- A unit to declare, by the unit it is measured by. -/
structure UnitEntry (α : Type) where
  symbol : String
  name? : Option String
  source : String
  factor : α
  offset : α
  prefixable : Bool
  aliases : List String

/-- Units to declare. -/
structure Configuration (α : Type) where
  bases : List BaseEntry
  units : List (UnitEntry α)

namespace Configuration

variable {α : Type}

/-- Whether nothing is declared. -/
def isEmpty (c : Configuration α) : Bool :=
  c.bases.isEmpty && c.units.isEmpty

variable [Scalar α]

open Registration

/-- Registers a base unit. -/
def applyBase (e : BaseEntry) : Registration α Unit :=
  declare (.base e.symbol (.of (.ofName e.dimension))) e.name? e.prefixable e.aliases

/-- The unit of an entry, affine if the entry has an offset. -/
def unitOf (e : UnitEntry α) (source : UnitOfMeasure α) :
    Except (MeasureError α) (UnitOfMeasure α) :=
  if e.offset == 0 then UnitOfMeasure.scaled e.symbol source e.factor
  else UnitOfMeasure.affine e.symbol source e.factor e.offset

/-- Registers a unit. -/
def applyUnit (e : UnitEntry α) : Registration α Unit := do
  let source ← lookup e.source
  let u ← ofExcept (unitOf e source)
  declare u e.name? e.prefixable e.aliases

/-- Registers the base units in order. -/
def applyBases : List BaseEntry → Registration α Unit
  | [] => pure ()
  | e :: entries => do
    applyBase e
    applyBases entries

/-- Registers the units in order. -/
def applyUnits : List (UnitEntry α) → Registration α Unit
  | [] => pure ()
  | e :: entries => do
    applyUnit e
    applyUnits entries

/-- Registers everything that a configuration declares. -/
def apply (c : Configuration α) : Registration α Unit := do
  applyBases c.bases
  applyUnits c.units

end Configuration

end Metrology
