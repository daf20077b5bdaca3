import Metrology.Dimension.Derived
import Metrology.Dimension.Operation
import Metrology.Quantity.Basic
import Metrology.Registry.Basic

/-!
# Expressions

Dimensions, units and quantities as expressions of the operations on them, with names that stand for
registered units and for variables.  Evaluation goes from left to right and stops at the first
failure.  An operation on dimensions can be checked, and then it may turn out undefined, or it can
be assumed to be defined, and then it is broken off when it is not.
-/

namespace Metrology

/-- Whether an operation on dimensions is assumed to be defined. -/
inductive Checking where
  | assumed
  | checked
deriving DecidableEq

mutual

/-- An expression for a dimension. -/
inductive DimensionExpr (α : Type) where
  | known (d : Dimension)
  | ofPairs (pairs : List (Base × Exponent))
  | ofUnit (u : UnitExpr α)
  | multiply (checking : Checking) (a b : DimensionExpr α)
  | divide (checking : Checking) (a b : DimensionExpr α)
  | invert (checking : Checking) (a : DimensionExpr α)
  | power (checking : Checking) (a : DimensionExpr α) (exponent : Exponent)

/-- An expression for a unit. -/
inductive UnitExpr (α : Type) where
  | named (name : String)
  | bound (name : String)
  | one
  | base (symbol : String) (d : DimensionExpr α)
  | scaled (symbol : String) (u : UnitExpr α) (factor : α)
  | prefixed (p : Prefix) (u : UnitExpr α)
  | affine (symbol : String) (u : UnitExpr α) (factor offset : α)
  | withSymbol (u : UnitExpr α) (symbol : String)
  /-- The unit as one that is defined apart from those of other tags. -/
  | tagged (tag : Nat) (u : UnitExpr α)
  | multiply (u v : UnitExpr α)
  | divide (u v : UnitExpr α)
  | invert (u : UnitExpr α)
  | power (u : UnitExpr α) (exponent : Exponent)
  | asUnit (p : QuantityExpr α) (symbol : String)
  | ofQuantity (p : QuantityExpr α)

/-- An expression for a quantity. -/
inductive QuantityExpr (α : Type) where
  | number (value : α)
  | value (value : α) (u : UnitExpr α)
  | add (p q : QuantityExpr α)
  | subtract (p q : QuantityExpr α)
  | multiply (p q : QuantityExpr α)
  | divide (p q : QuantityExpr α)
  | divideFloor (p q : QuantityExpr α)
  | remainder (p q : QuantityExpr α)
  | power (p : QuantityExpr α) (exponent : Exponent)
  | reciprocal (p : QuantityExpr α)
  | convertTo (p : QuantityExpr α) (u : UnitExpr α)
  | scale (p : QuantityExpr α) (factor : α)
  | divideScalar (p : QuantityExpr α) (divisor : α)
  | negate (p : QuantityExpr α)
  | abs (p : QuantityExpr α)
  | floor (p : QuantityExpr α)
  | ceil (p : QuantityExpr α)
  | round (p : QuantityExpr α)

end

/-- Why an expression has no value. -/
inductive Failure (α : Type) where
  | measure (error : MeasureError α)
  /-- An operation that was assumed to be defined is not. -/
  | broken (operation : Dimension.Operation)
  /-- A checked operation is undefined. -/
  | undefined

/-- What the names in an expression stand for. -/
structure Scope (α : Type) where
  registry : Registry α
  locals : List (String × UnitOfMeasure α)

variable {α : Type}

/-- The result of an operation on units or quantities. -/
def Failure.ofExcept {β : Type} (x : Except (MeasureError α) β) : Except (Failure α) β :=
  x.mapError .measure

/-- The result of an operation on dimensions. -/
def Checking.demand (checking : Checking) (operation : Dimension.Operation) :
    Option Dimension → Except (Failure α) Dimension
  | some d => .ok d
  | none =>
    match checking with
    | .assumed => .error (.broken operation)
    | .checked => .error .undefined

/-- The unit that a variable stands for. -/
def Scope.lookupLocal (s : Scope α) (name : String) :
    Except (MeasureError α) (UnitOfMeasure α) :=
  match s.locals.lookup name with
  | some u => .ok u
  | none => .error (.unknownUnit name)

variable [Scalar α]

open Failure (ofExcept)

mutual

/-- The value of an expression for a dimension. -/
def DimensionExpr.eval (s : Scope α) : DimensionExpr α → Except (Failure α) Dimension
  | .known d => .ok d
  | .ofPairs pairs => Checking.assumed.demand .ofPairs (Dimension.ofPairs? pairs)
  | .ofUnit u => do
    return (← u.eval s).dimension
  | .multiply checking a b => do
    let a ← a.eval s
    let b ← b.eval s
    checking.demand .multiply (a.multiply? b)
  | .divide checking a b => do
    let a ← a.eval s
    let b ← b.eval s
    checking.demand .divide (a.divide? b)
  | .invert checking a => do
    let a ← a.eval s
    checking.demand .invert a.invert?
  | .power checking a exponent => do
    let a ← a.eval s
    checking.demand .power (a.power? exponent)

/-- The value of an expression for a unit. -/
def UnitExpr.eval (s : Scope α) : UnitExpr α → Except (Failure α) (UnitOfMeasure α)
  | .named name => ofExcept (s.registry.lookup name)
  | .bound name => ofExcept (s.lookupLocal name)
  | .one => .ok .one
  | .base symbol d => do
    return .base symbol (← d.eval s)
  | .scaled symbol u factor => do
    let u ← u.eval s
    ofExcept (UnitOfMeasure.scaled symbol u factor)
  | .prefixed p u => do
    let u ← u.eval s
    ofExcept (UnitOfMeasure.prefixed p u)
  | .affine symbol u factor offset => do
    let u ← u.eval s
    ofExcept (UnitOfMeasure.affine symbol u factor offset)
  | .withSymbol u symbol => do
    return (← u.eval s).withSymbol symbol
  | .tagged tag u => do
    return (← u.eval s).tagged tag
  | .multiply u v => do
    let u ← u.eval s
    let v ← v.eval s
    ofExcept (u.multiply v)
  | .divide u v => do
    let u ← u.eval s
    let v ← v.eval s
    ofExcept (u.divide v)
  | .invert u => do
    let u ← u.eval s
    ofExcept u.invert
  | .power u exponent => do
    let u ← u.eval s
    ofExcept (u.power exponent)
  | .asUnit p symbol => do
    let p ← p.eval s
    ofExcept (p.asUnit symbol)
  | .ofQuantity p => do
    return (← p.eval s).unit

/-- The value of an expression for a quantity. -/
def QuantityExpr.eval (s : Scope α) : QuantityExpr α → Except (Failure α) (Quantity α)
  | .number value => .ok (.number value)
  | .value value u => do
    return ⟨value, ← u.eval s⟩
  | .add p q => do
    let p ← p.eval s
    let q ← q.eval s
    ofExcept (p.add q)
  | .subtract p q => do
    let p ← p.eval s
    let q ← q.eval s
    ofExcept (p.subtract q)
  | .multiply p q => do
    let p ← p.eval s
    let q ← q.eval s
    ofExcept (p.multiply q)
  | .divide p q => do
    let p ← p.eval s
    let q ← q.eval s
    ofExcept (p.divide q)
  | .divideFloor p q => do
    let p ← p.eval s
    let q ← q.eval s
    ofExcept (p.divideFloor q)
  | .remainder p q => do
    let p ← p.eval s
    let q ← q.eval s
    ofExcept (p.remainder q)
  | .power p exponent => do
    let p ← p.eval s
    ofExcept (p.power exponent)
  | .reciprocal p => do
    let p ← p.eval s
    ofExcept p.reciprocal
  | .convertTo p u => do
    let p ← p.eval s
    let u ← u.eval s
    ofExcept (p.convertTo u)
  | .scale p factor => do
    return (← p.eval s).scale factor
  | .divideScalar p divisor => do
    let p ← p.eval s
    ofExcept (p.divideScalar divisor)
  | .negate p => do
    return (← p.eval s).negate
  | .abs p => do
    return (← p.eval s).abs
  | .floor p => do
    return (← p.eval s).floor
  | .ceil p => do
    return (← p.eval s).ceil
  | .round p => do
    return (← p.eval s).round

end

/-- The scope in which names stand for the values of unit expressions too, each evaluated among the
names before it. -/
def Scope.define (s : Scope α) : List (String × UnitExpr α) → Except (Failure α) (Scope α)
  | [] => .ok s
  | (name, u) :: definitions =>
    (u.eval s).bind fun u =>
      ({ s with locals := (name, u) :: s.locals } : Scope α).define definitions

end Metrology
