import Metrology.Proofs.Registry.Batch

/-!
# What a session keeps

A session binds the batches of its calls one after the other, and a batch never rebinds a name.

* `first_definition_stays`: a name that is bound at some point of a session keeps its unit, whatever
  is called later, and whether the calls succeed or fail.
* `text_bound_or_refused`: the calls that do not bind a single name bind a unit to its symbol first.
  So in a session of these the text of every registered unit is a name.  It can be the name of
  another unit, and is exactly when the session has reported that conflict
  (`exists_text_of_other_unit`).
-/

namespace Metrology.Call

open Registration Registry UnitOfMeasure

variable {α : Type} [Scalar α]

/-! ### Persistence -/

/-- A session goes on after its first call whether that call fails or not. -/
theorem performAll_cons (call : Call α) (calls : List (Call α)) (r : Registry α) :
    performAll (call :: calls) r =
      ⟨(performAll calls (call.perform r).registry).registry,
        (call.perform r).conflicts ++ (performAll calls (call.perform r).registry).conflicts,
        (performAll calls (call.perform r).registry).result.map ((call.perform r).result :: ·)⟩ := by
  have hcall : (call.perform.attempt r).result = .ok (call.perform r).result := rfl
  simp only [performAll, bind_of_ok hcall, bind_pure_eq]
  rfl

/-- Sessions are performed one after the other. -/
theorem registry_performAll_append (earlier later : List (Call α)) (r : Registry α) :
    (performAll (earlier ++ later) r).registry =
      (performAll later (performAll earlier r).registry).registry := by
  induction earlier generalizing r with
  | nil => rfl
  | cons call earlier ih =>
    rw [List.cons_append, performAll_cons, performAll_cons]
    exact ih _

theorem extends_performAll (calls : List (Call α)) (r : Registry α) :
    Extends r (performAll calls r).registry := by
  have hall : Admits fun _ : List (String × UnitOfMeasure α) => True :=
    ⟨trivial, fun _ _ => trivial, fun _ _ => trivial⟩
  have hwrites : Writes (fun _ => True) (performAll calls) :=
    writes_performAll hall fun _ _ _ => trivial
  obtain ⟨batch, -, hregistry, -⟩ := hwrites r
  rw [hregistry]
  exact extends_bindAll batch r

/-- **The first definition stays.**  What a name is bound to at some point of a session, it is bound to
at every later point; so no name is lost, and a lookup that has found a unit finds the same one
later. -/
theorem first_definition_stays (r : Registry α) (earlier later : List (Call α)) :
    let before := (performAll earlier r).registry
    let after := (performAll (earlier ++ later) r).registry
    (∀ name u, before.get? name = some u → after.get? name = some u) ∧
      (∀ name u, before.lookup name = .ok u → after.lookup name = .ok u) ∧
      (∀ name, before.contains name = true → after.contains name = true) ∧
      before.size ≤ after.size := by
  intro before after
  have hextends : Extends before after := by
    change Extends _ (performAll (earlier ++ later) r).registry
    rw [registry_performAll_append]
    exact extends_performAll later _
  refine ⟨hextends, ?_, ?_, hextends.size_le⟩
  · intro name u h
    rw [lookup_eq_ok_iff] at h ⊢
    exact hextends name u h
  · intro name h
    obtain ⟨u, hu⟩ := Option.isSome_iff_exists.mp h
    exact Option.isSome_iff_exists.mpr ⟨u, hextends name u hu⟩

/-- A metre that is defined stays what it is when another unit of its symbol is defined, when it is
named otherwise, and when a configuration fails halfway. -/
theorem first_definition_stays_metre :
    let metre : UnitOfMeasure Float := base "m" (.of .length)
    let earlier : List (Call Float) := [.define metre]
    let later : List (Call Float) :=
      [.define (base "m" (.of .mass)), .bindName "m" (base "s" (.of .time)),
        .apply ⟨[⟨"m", none, "current", false, []⟩], [⟨"x", none, "unknown", 1, 0, false, []⟩]⟩]
    (performAll earlier .empty).registry.get? "m" = some metre ∧
      (performAll (earlier ++ later) .empty).registry.get? "m" = some metre ∧
      (performAll (earlier ++ later) .empty).registry.lookup "m" = .ok metre := by
  intro metre earlier later
  have hbefore : (performAll earlier .empty).registry.get? "m" = some metre := by rfl
  obtain ⟨hget, hlookup, -, -⟩ := first_definition_stays .empty earlier later
  exact ⟨hbefore, hget _ _ hbefore, hlookup _ _ (lookup_eq_ok_iff.mpr hbefore)⟩

/-! ### Texts of registered units -/

/-- A batch that binds all its units to their symbols too. -/
def Named (batch : List (String × UnitOfMeasure α)) : Prop :=
  ∀ b ∈ batch, ∃ symbol, b.2.symbol? = some symbol ∧ (symbol, b.2) ∈ batch

omit [Scalar α] in
theorem admits_named : Admits (Named (α := α)) where
  nil := fun b hb => by cases hb
  append := by
    intro a b ha hb e he
    rcases List.mem_append.mp he with he | he
    · obtain ⟨symbol, hs, hmem⟩ := ha e he
      exact ⟨symbol, hs, List.mem_append_left _ hmem⟩
    · obtain ⟨symbol, hs, hmem⟩ := hb e he
      exact ⟨symbol, hs, List.mem_append_right _ hmem⟩
  named := by
    intro u symbol names hs e he
    have hu : e.2 = u := by
      rcases List.mem_cons.mp he with rfl | he
      · rfl
      · obtain ⟨name, -, rfl⟩ := List.mem_map.mp he
        rfl
    rw [hu]
    exact ⟨symbol, hs, List.mem_cons_self⟩

/-- **Texts are names.**  In a session without bindings of single names the text of every registered
unit is itself bound.  It is bound to an equal unit exactly when the session has not reported that it
was refused for that unit. -/
theorem text_bound_or_refused {calls : List (Call α)}
    (h : ∀ name u, Call.bindName name u ∉ calls) {name : String} {u : UnitOfMeasure α}
    (hu : (performAll calls .empty).registry.get? name = some u) :
    ∃ v, (performAll calls .empty).registry.get? u.text = some v ∧
      ((v == u) = true ↔ ⟨u.text, v, u⟩ ∉ (performAll calls .empty).conflicts) := by
  obtain ⟨batch, hnamed, hregistry, hconflicts⟩ := writes_performAll admits_named
    (fun name u hcall => absurd hcall (h name u)) .empty
  rw [hregistry] at hu ⊢
  rw [hconflicts]
  have hmem : (name, u) ∈ batch := by
    rw [get?_bindAll, get?_empty, Option.none_or] at hu
    obtain ⟨l, l', rfl, -⟩ := List.lookup_eq_some_iff.mp hu
    exact List.mem_append_right _ List.mem_cons_self
  obtain ⟨symbol, hs, hsymbol⟩ := hnamed _ hmem
  rw [text_eq_of_symbol? hs]
  obtain ⟨v, hv⟩ := exists_get?_bindAll hsymbol .empty
  refine ⟨v, hv, ?_⟩
  rw [mem_conflicts_bindAll]
  simp [hsymbol, hv]

/-- The unit that is named `metre` has the text `m`, which is its own symbol and stays so when another
unit of that symbol is refused. -/
theorem text_bound_or_refused_metre :
    let metre : UnitOfMeasure Float := base "m" (.of .length)
    let calls : List (Call Float) :=
      [.defineNamed metre "metre", .define (base "m" (.of .mass))]
    (∀ name u, Call.bindName name u ∉ calls) ∧
      (performAll calls .empty).registry.get? "metre" = some metre ∧
      (performAll calls .empty).registry.get? metre.text = some metre ∧
      ⟨metre.text, metre, metre⟩ ∉ (performAll calls .empty).conflicts := by
  intro metre calls
  have hcalls : ∀ name u, Call.bindName name u ∉ calls := by
    intro name u h
    simp [calls] at h
  have hname : (performAll calls .empty).registry.get? "metre" = some metre := by rfl
  have hsymbol : (performAll calls .empty).registry.get? metre.text = some metre := by rfl
  obtain ⟨v, hv, hreported⟩ := text_bound_or_refused hcalls hname
  cases hsymbol.symm.trans hv
  exact ⟨hcalls, hname, hsymbol, hreported.mp (beq_self metre)⟩

/-- A unit whose symbol is taken is bound to its other name all the same, and then its text is the
name of another unit. -/
theorem exists_text_of_other_unit :
    let metre : UnitOfMeasure Float := base "m" (.of .length)
    let other : UnitOfMeasure Float := base "m" (.of .mass)
    let calls : List (Call Float) := [.define metre, .defineNamed other "x"]
    (∀ name u, Call.bindName name u ∉ calls) ∧
      (performAll calls .empty).registry.get? "x" = some other ∧
      (performAll calls .empty).registry.get? other.text = some metre ∧
      (metre == other) = false := by
  intro metre other calls
  refine ⟨fun name u h => ?_, rfl, rfl, rfl⟩
  simp [calls] at h

end Metrology.Call
