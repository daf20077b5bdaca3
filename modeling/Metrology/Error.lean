import Metrology.Decimal.Layout
import Metrology.Dimension.Basic

/-!
# Errors of measurement

Everything that can go wrong with units, quantities and registries, by cause.  The wording of the
causes is in one place, `MeasureError.message`.
-/

namespace Metrology

/-- What an affine unit was used for, which only a linear unit can be. -/
inductive AffineUse where
  /-- Scaling it to a unit of the given symbol. -/
  | scaling (symbol unit : String)
  /-- Setting a prefix of the given symbol before it. -/
  | prefixing (symbol unit : String)
  /-- Shifting it once more. -/
  | shifting (symbol unit : String)
  | leftFactor (unit : String)
  | rightFactor (unit : String)
  | dividend (unit : String)
  | divisor (unit : String)
  | raising (unit : String) (exponent : Exponent)
  /-- Naming one of its quantities as a unit. -/
  | naming (symbol unit : String)
deriving DecidableEq

/-- An expression whose exponents do not fit. -/
inductive Overflow where
  | product (left right : String)
  | quotient (left right : String)
  | power (unit : String) (exponent : Exponent)
  | likeTerms (symbol : String) (left right : Exponent)
deriving DecidableEq

/-- Why a file could not be read. -/
inductive FileError where
  | notFound
  | notUnicode
deriving DecidableEq

/-- What is wrong with a registration or a configuration. -/
inductive ConfigurationError where
  | anonymousUnit (unit : String)
  | unreadable (path : String) (cause : FileError)
  | malformed
deriving DecidableEq

/-- What can go wrong in measuring with scalars `α`. -/
inductive MeasureError (α : Type) where
  | dimensionMismatch (left right : Dimension)
  | incompatibleUnits (source : String) (sourceDimension : Dimension) (target : String)
      (targetDimension : Dimension)
  | affineComposition (use : AffineUse)
  | divisionByZero
  | noRealPower (base : α) (exponent : Exponent)
  | exponentOverflow (expression : Overflow)
  | invalidScale (factor : α)
  | invalidOffset (offset : α)
  | notDimensionless (dimension : Dimension)
  | unknownUnit (name : String)
  | configuration (cause : ConfigurationError)

def AffineUse.message : AffineUse → String
  | scaling symbol unit => "cannot scale affine unit '" ++ unit ++ "' into '" ++ symbol ++ "'"
  | prefixing symbol unit =>
    "cannot apply prefix '" ++ symbol ++ "' to affine unit '" ++ unit ++ "'"
  | shifting symbol unit =>
    "cannot chain affine unit '" ++ symbol ++ "' onto affine unit '" ++ unit ++ "'"
  | leftFactor unit => "cannot multiply affine unit '" ++ unit ++ "'"
  | rightFactor unit => "cannot multiply by affine unit '" ++ unit ++ "'"
  | dividend unit => "cannot divide affine unit '" ++ unit ++ "'"
  | divisor unit => "cannot divide by affine unit '" ++ unit ++ "'"
  | raising unit exponent => "cannot raise affine unit '" ++ unit ++ "' to " ++ exponent.text
  | naming symbol unit =>
    "cannot define '" ++ symbol ++ "' from a quantity in affine unit '" ++ unit ++ "'"

def Overflow.message : Overflow → String
  | product left right => "(" ++ left ++ ") * (" ++ right ++ ")"
  | quotient left right => "(" ++ left ++ ") / (" ++ right ++ ")"
  | power unit exponent => "(" ++ unit ++ ")^" ++ exponent.text
  | likeTerms symbol left right =>
    symbol ++ "^(" ++ left.text ++ " + " ++ right.text ++ ")"

def FileError.message : FileError → String
  | notFound => "No such file or directory (os error 2)"
  | notUnicode => "stream did not contain valid UTF-8"

def ConfigurationError.message : ConfigurationError → String
  | anonymousUnit unit => "cannot register anonymous unit '" ++ unit ++ "'"
  | unreadable path cause => "Failed to read config file " ++ path ++ ": " ++ cause.message
  | malformed => "Failed to parse config file"

/-- The wording of an error. -/
def MeasureError.message : MeasureError Float → String
  | dimensionMismatch left right =>
    "Dimension mismatch: [" ++ left.text ++ "] vs [" ++ right.text ++ "]"
  | incompatibleUnits source sourceDimension target targetDimension =>
    "Incompatible units: cannot convert '" ++ source ++ "' [" ++ sourceDimension.text ++ "] to '" ++
      target ++ "' [" ++ targetDimension.text ++ "]"
  | affineComposition use => "Invalid affine composition: " ++ use.message
  | divisionByZero => "Division by zero"
  | noRealPower base exponent =>
    "Invalid exponentiation: " ++ Decimal.Style.plain.text base ++ " ^ " ++ exponent.text ++
      " has no real value"
  | exponentOverflow expression => "Exponent overflow: " ++ expression.message
  | invalidScale factor =>
    "Invalid scale factor: " ++ Decimal.Style.plain.text factor ++
      " (must be finite and non-zero)"
  | invalidOffset offset =>
    "Invalid offset: " ++ Decimal.Style.plain.text offset ++ " (must be finite)"
  | notDimensionless dimension =>
    "Not dimensionless: quantity has dimension [" ++ dimension.text ++ "]"
  | unknownUnit name => "Unknown unit: " ++ name
  | configuration cause => "Configuration error: " ++ cause.message

end Metrology
