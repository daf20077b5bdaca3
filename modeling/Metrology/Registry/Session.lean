import Metrology.Registry.Configuration

/-!
# Sessions

A session is a sequence of calls that register units.  Every call is answered, by what it gives back
or by the error that it failed with.  A call that fails keeps what it had bound before, and the calls
after it go on.
-/

namespace Metrology

/-- A call that registers units. -/
inductive Call (α : Type) where
  /-- Binds the symbol of a unit. -/
  | define (u : UnitOfMeasure α)
  /-- Binds the symbol of a unit and a name. -/
  | defineNamed (u : UnitOfMeasure α) (name : String)
  /-- Binds a name to a unit, whatever the symbol of the unit is bound to. -/
  | bindName (name : String) (u : UnitOfMeasure α)
  /-- Binds the symbols and names of a unit under all prefixes. -/
  | defineMetricFamily (u : UnitOfMeasure α) (name? : Option String)
  /-- Registers everything that a configuration declares. -/
  | apply (c : Configuration α)

/-- What a call gives back. -/
inductive Reply where
  /-- Whether the symbol or the name is bound to an equal unit then. -/
  | isBound (b : Bool)
  /-- How many symbols are bound to an equal unit then. -/
  | count (n : Nat)
  | applied
deriving DecidableEq

variable {α β : Type}

/-- A registration that gives back its failure instead of failing. -/
def Registration.attempt (m : Registration α β) :
    Registration α (Except (MeasureError α) β) :=
  fun r =>
    let outcome := m r
    ⟨outcome.registry, outcome.conflicts, .ok outcome.result⟩

variable [Scalar α]

/-- The registration that a call performs. -/
def Call.perform : Call α → Registration α Reply
  | define u => do return .isBound (← Registration.define u)
  | defineNamed u name => do return .isBound (← Registration.defineNamed u name)
  | bindName name u => do return .isBound (← Registration.bindName name u)
  | defineMetricFamily u name? => do return .count (← Registration.defineMetricFamily u name?)
  | apply c => do
    c.apply
    return .applied

/-- The calls of a session one after the other. -/
def Call.performAll : List (Call α) → Registration α (List (Except (MeasureError α) Reply))
  | [] => pure []
  | call :: calls => do
    let reply ← call.perform.attempt
    let replies ← performAll calls
    return reply :: replies

end Metrology
