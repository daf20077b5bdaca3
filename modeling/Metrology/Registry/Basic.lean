import Metrology.Error
import Metrology.UnitOfMeasure.Basic

/-!
# Registries

A registry binds names to units, each name once.  The bindings are kept with the newest first;
`get?` is the view on them, and `get?_push` says what a new binding does to it.
-/

namespace Metrology

/-- Names bound to units. -/
structure Registry (α : Type) where
  bindings : List (String × UnitOfMeasure α)
  nodup : (bindings.map Prod.fst).Nodup

namespace Registry

variable {α : Type}

/-- The registry without names. -/
def empty : Registry α :=
  ⟨[], .nil⟩

/-- The unit bound to a name. -/
def get? (r : Registry α) (name : String) : Option (UnitOfMeasure α) :=
  r.bindings.lookup name

/-- The unit bound to a name, which has to be there. -/
def lookup (r : Registry α) (name : String) : Except (MeasureError α) (UnitOfMeasure α) :=
  match r.get? name with
  | some u => .ok u
  | none => .error (.unknownUnit name)

/-- Whether a name is bound. -/
def contains (r : Registry α) (name : String) : Bool :=
  (r.get? name).isSome

/-- The number of names. -/
def size (r : Registry α) : Nat :=
  r.bindings.length

/-- Whether there are no names. -/
def isEmpty (r : Registry α) : Bool :=
  r.bindings.isEmpty

/-- The names in order of code points. -/
def names (r : Registry α) : List String :=
  (r.bindings.map Prod.fst).mergeSort fun a b => a ≤ b

theorem get?_eq_none_iff {r : Registry α} {name : String} :
    r.get? name = none ↔ name ∉ r.bindings.map Prod.fst := by
  simp only [get?, List.lookup_eq_none_iff, List.mem_map, not_exists, not_and, bne_iff_ne]
  exact ⟨fun h e he hn => h e he hn.symm, fun h e he hn => h e he hn.symm⟩

/-- The registry with one more name. -/
def push (r : Registry α) (name : String) (u : UnitOfMeasure α) (h : r.get? name = none) :
    Registry α :=
  ⟨(name, u) :: r.bindings, List.nodup_cons.mpr ⟨get?_eq_none_iff.mp h, r.nodup⟩⟩

theorem get?_push {r : Registry α} {name : String} (h : r.get? name = none) (other : String)
    (u : UnitOfMeasure α) :
    (r.push name u h).get? other = if other = name then some u else r.get? other := by
  unfold get? push
  rw [List.lookup_cons]
  by_cases ho : other = name
  · simp [ho]
  · rw [beq_eq_false_iff_ne.mpr ho, if_neg ho]

end Registry

end Metrology
