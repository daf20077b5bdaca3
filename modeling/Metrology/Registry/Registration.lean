import Metrology.Registry.Basic
import Metrology.UnitOfMeasure.Construction

/-!
# Registrations

A registration is a step that extends a registry.  It never rebinds a name: binding a name that has
a different unit leaves the registry as it is and reports a conflict.  A registration that fails
keeps what it had bound before (`Registration.bind`).

* `get?_bindName_of_some`: binding a name leaves every earlier binding alone.
-/

namespace Metrology

/-- A name that is bound to another unit than the one it was to get. -/
structure Conflict (α : Type) where
  name : String
  bound : UnitOfMeasure α
  ignored : UnitOfMeasure α

/-- What a registration leaves behind: the registry, the conflicts in order, and its result. -/
structure Outcome (α β : Type) where
  registry : Registry α
  conflicts : List (Conflict α)
  result : Except (MeasureError α) β

/-- A step that extends a registry. -/
def Registration (α β : Type) : Type :=
  Registry α → Outcome α β

namespace Registration

variable {α β γ : Type}

/-- The registry that a registration makes of the empty one. -/
def registryOf (m : Registration α β) : Registry α :=
  (m .empty).registry

/-- The registration that binds nothing. -/
protected def pure (x : β) : Registration α β :=
  fun r => ⟨r, [], .ok x⟩

/-- A registration followed by another one, unless it fails. -/
protected def bind (m : Registration α β) (f : β → Registration α γ) : Registration α γ :=
  fun r =>
    let first := m r
    match first.result with
    | .error e => ⟨first.registry, first.conflicts, .error e⟩
    | .ok x =>
      let second := f x first.registry
      ⟨second.registry, first.conflicts ++ second.conflicts, second.result⟩

instance : Monad (Registration α) where
  pure := Registration.pure
  bind := Registration.bind

/-- The registration that binds nothing and has a given result. -/
def ofExcept (x : Except (MeasureError α) β) : Registration α β :=
  fun r => ⟨r, [], x⟩

instance : MonadLift (Except (MeasureError α)) (Registration α) where
  monadLift := ofExcept

/-- The unit that a name is bound to. -/
def lookup (name : String) : Registration α (UnitOfMeasure α) :=
  fun r => ⟨r, [], r.lookup name⟩

variable [Scalar α]

/-- Binds a name to a unit, unless it is bound already; tells whether it is bound to an equal unit
then. -/
def bindName (name : String) (u : UnitOfMeasure α) : Registration α Bool :=
  fun r =>
    match h : r.get? name with
    | none => ⟨r.push name u h, [], .ok true⟩
    | some v => if v == u then ⟨r, [], .ok true⟩ else ⟨r, [⟨name, v, u⟩], .ok false⟩

/-- Binds names to a unit. -/
def bindNames (u : UnitOfMeasure α) : List String → Registration α Unit
  | [] => pure ()
  | name :: names => do
    let _ ← bindName name u
    bindNames u names

/-- The symbol that a unit is registered under. -/
def symbolOf (u : UnitOfMeasure α) : Registration α String :=
  ofExcept <|
    match u.symbol? with
    | some symbol => .ok symbol
    | none => .error (.configuration (.anonymousUnit u.text))

/-- Binds the symbol of a unit. -/
def define (u : UnitOfMeasure α) : Registration α Bool := do
  let symbol ← symbolOf u
  bindName symbol u

/-- Binds the symbol of a unit and a name; tells whether the symbol is bound to an equal unit
then. -/
def defineNamed (u : UnitOfMeasure α) (name : String) : Registration α Bool := do
  let defined ← define u
  let _ ← bindName name u
  return defined

/-- The names of a prefixed unit besides its symbol: the spelling of micro with the letter `u`, and
the name of the prefix before a name of the unit. -/
def prefixedNames (symbol : String) (name? : Option String) (p : Prefix) : List String :=
  (if p = .micro then ["u" ++ symbol] else []) ++
    match name? with
    | some name => [p.name ++ name]
    | none => []

/-- Binds the symbols and names of a unit under given prefixes; counts the symbols that are bound to
an equal unit then. -/
def definePrefixed (u : UnitOfMeasure α) (symbol : String) (name? : Option String) :
    List Prefix → Registration α Nat
  | [] => pure 0
  | p :: prefixes => do
    let v ← ofExcept (UnitOfMeasure.prefixed p u)
    let defined ← define v
    bindNames v (prefixedNames symbol name? p)
    let count ← definePrefixed u symbol name? prefixes
    return if defined then count + 1 else count

/-- Binds the symbols and names of a unit under all prefixes. -/
def defineMetricFamily (u : UnitOfMeasure α) (name? : Option String) : Registration α Nat := do
  let symbol ← symbolOf u
  definePrefixed u symbol name? Prefix.all

/-- Registers a unit under its symbol, its name and its aliases, and its metric family. -/
def declare (u : UnitOfMeasure α) (name? : Option String) (prefixable : Bool)
    (aliases : List String) : Registration α Unit := do
  let _ ← define u
  bindNames u (name?.toList ++ aliases)
  if prefixable then
    let _ ← defineMetricFamily u name?

/-- Binding a name leaves every earlier binding alone. -/
theorem get?_bindName_of_some {r : Registry α} {name other : String} {u v : UnitOfMeasure α}
    (h : r.get? other = some v) : (bindName name u r).registry.get? other = some v := by
  unfold bindName
  split
  · rename_i hn
    rw [Registry.get?_push]
    split
    · rename_i he
      rw [← he, h] at hn
      cases hn
    · exact h
  · split <;> exact h

end Registration

end Metrology
