import Metrology.Error
import Metrology.UnitOfMeasure.Basic

/-!
# Definition of units

New units from old: a base unit of a dimension, a multiple of a unit, a unit under a metric prefix,
an affine scale on a unit, and a unit under another symbol.  Only linear units can be scaled,
prefixed or shifted, and a factor has to be finite and not zero.
-/

namespace Metrology.UnitOfMeasure

variable {α : Type} [Scalar α]

/-- The unit that all units of a dimension are measured by. -/
def base (symbol : String) (dimension : Dimension) : UnitOfMeasure α :=
  atom { symbol, dimension, scale := 1, offset := 0, origin := .base, tag := 0 }

/-- The unit of plain numbers. -/
def one : UnitOfMeasure α :=
  product [] .dimensionless 1

/-- The unit of `factor` times `u`. -/
def scaled (symbol : String) (u : UnitOfMeasure α) (factor : α) :
    Except (MeasureError α) (UnitOfMeasure α) :=
  if u.isAffine then .error (.affineComposition (.scaling symbol u.text))
  else if !Scalar.isFactor factor then .error (.invalidScale factor)
  else
    .ok (atom {
      symbol, dimension := u.dimension, scale := u.scale * factor, offset := 0,
      origin := .scaled u factor, tag := 0 })

/-- The unit `u` under a metric prefix, whose symbol is set before the text of `u`. -/
def prefixed (p : Prefix) (u : UnitOfMeasure α) : Except (MeasureError α) (UnitOfMeasure α) :=
  if u.isAffine then .error (.affineComposition (.prefixing p.symbol u.text))
  else
    .ok (atom {
      symbol := p.symbol ++ u.text, dimension := u.dimension, scale := u.scale * p.factor,
      offset := 0, origin := .prefixed p u, tag := 0 })

/-- The scale on which the value `v` is `factor * v + offset` of the unit `u`. -/
def affine (symbol : String) (u : UnitOfMeasure α) (factor offset : α) :
    Except (MeasureError α) (UnitOfMeasure α) :=
  if u.isAffine then .error (.affineComposition (.shifting symbol u.text))
  else if !Scalar.isFactor factor then .error (.invalidScale factor)
  else if !Scalar.isFinite offset then .error (.invalidOffset offset)
  else
    .ok (atom {
      symbol, dimension := u.dimension, scale := u.scale * factor, offset := u.scale * offset,
      origin := .affine u factor offset, tag := 0 })

/-- The same unit as an atom of another symbol. -/
def withSymbol (u : UnitOfMeasure α) (symbol : String) : UnitOfMeasure α :=
  atom {
    symbol, dimension := u.dimension, scale := u.scale, offset := u.offset, origin := u.origin,
    tag := 0 }

/-- An atom as one that is defined apart from the atoms of other tags. -/
def tagged (tag : Nat) : UnitOfMeasure α → UnitOfMeasure α
  | atom a => atom { a with tag }
  | u => u

/-- The unit under every metric prefix, the largest first. -/
def metricFamily (u : UnitOfMeasure α) : Except (MeasureError α) (List (UnitOfMeasure α)) :=
  Prefix.all.mapM fun p => prefixed p u

end Metrology.UnitOfMeasure
