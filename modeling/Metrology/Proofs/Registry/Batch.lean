import Metrology.Proofs.Registry.Invariant
import Metrology.Registry.Session

/-!
# Registrations as batches of bindings

Whatever a registration does, in the end it binds names one after the other.  `bindAll` binds a list
of names to units, a batch, and three laws say all there is to say about it:

* `get?_bindAll`: a name keeps what it was bound to, and otherwise gets what the batch has for it
  first.
* `extends_bindAll`: no binding is lost.
* `mem_conflicts_bindAll`: the conflicts are the bindings of the batch that are refused in the end,
  whatever their order.

`Performs m r batch` says that a registration does what a batch does, and `Writes C m` that it always
does what some batch of a class `C` does, also when it fails.  A class that admits batches which bind
a unit to its symbol and then to other names admits those of all registrations but the binding of a
single name (`writes_perform`, `writes_performAll`).
-/

namespace Metrology

variable {α β γ : Type}

namespace Registry

/-- A lookup finds what a name is bound to. -/
theorem lookup_eq_ok_iff {r : Registry α} {name : String} {u : UnitOfMeasure α} :
    r.lookup name = .ok u ↔ r.get? name = some u := by
  cases h : r.get? name <;> simp [Registry.lookup, h]

theorem get?_empty (name : String) : (empty : Registry α).get? name = none :=
  rfl

theorem Extends.trans {r r' r'' : Registry α} (h : Extends r r') (h' : Extends r' r'') :
    Extends r r'' :=
  fun name u hu => h' name u (h name u hu)

/-- A registry has no fewer names than one whose bindings it has. -/
theorem Extends.size_le {r r' : Registry α} (h : Extends r r') : r.size ≤ r'.size := by
  have hkeys : r.bindings.map Prod.fst ⊆ r'.bindings.map Prod.fst := by
    intro name hname
    by_contra hn
    have hnone : r'.get? name = none := get?_eq_none_iff.mpr hn
    cases hu : r.get? name with
    | none => exact get?_eq_none_iff.mp hu hname
    | some u =>
      rw [h name u hu] at hnone
      cases hnone
  have hle := (List.subperm_of_subset r.nodup hkeys).length_le
  rwa [List.length_map, List.length_map] at hle

end Registry

namespace UnitOfMeasure

/-- The text of a unit with a symbol. -/
theorem text_eq_of_symbol? {u : UnitOfMeasure α} {symbol : String} (h : u.symbol? = some symbol) :
    u.text = symbol := by
  cases u with
  | atom a => exact Option.some.inj h
  | product factors d s => cases h

end UnitOfMeasure

namespace Registration

open Registry

/-- What is made of the result of a registration at its end. -/
theorem bind_pure_eq (m : Registration α β) (f : β → γ) (r : Registry α) :
    (m >>= fun x => pure (f x)) r = ⟨(m r).registry, (m r).conflicts, (m r).result.map f⟩ := by
  cases h : (m r).result with
  | error e => exact bind_of_error h
  | ok x =>
    rw [bind_of_ok h]
    exact congrArg (Outcome.mk _ · _) (List.append_nil _)

variable [Scalar α] {r : Registry α} {u : UnitOfMeasure α} {name : String}

/-- Binds names to units one after the other. -/
def bindAll : List (String × UnitOfMeasure α) → Registration α Unit
  | [] => pure ()
  | b :: batch => do
    let _ ← bindName b.1 b.2
    bindAll batch

/-! ### One binding -/

/-- Binding a name does not fail. -/
theorem exists_result_bindName (name : String) (u : UnitOfMeasure α) (r : Registry α) :
    ∃ b, (bindName name u r).result = .ok b := by
  unfold bindName
  split
  · exact ⟨true, rfl⟩
  · split
    · exact ⟨true, rfl⟩
    · exact ⟨false, rfl⟩

/-- A bound name keeps its unit, and a free one gets the given unit. -/
theorem get?_bindName (name : String) (u : UnitOfMeasure α) (r : Registry α) (other : String) :
    (bindName name u r).registry.get? other =
      (r.get? other).or (if other = name then some u else none) := by
  cases ho : r.get? other with
  | some v => exact get?_bindName_of_some ho
  | none =>
    unfold bindName
    split
    · rw [get?_push, ho, Option.none_or]
    · rename_i v hv
      have hne : other ≠ name := by
        rintro rfl
        rw [ho] at hv
        cases hv
      rw [if_neg hne]
      split <;> exact ho

/-- Binding a bound name leaves the registry as it is. -/
theorem registry_bindName_of_some {v : UnitOfMeasure α} (h : r.get? name = some v) :
    (bindName name u r).registry = r := by
  unfold bindName
  split
  · rename_i hn
    rw [h] at hn
    cases hn
  · split <;> rfl

/-- The conflict that binding a name reports, if there is one. -/
theorem mem_conflicts_bindName {c : Conflict α} :
    c ∈ (bindName name u r).conflicts ↔
      name = c.name ∧ u = c.ignored ∧ r.get? c.name = some c.bound ∧
        (c.bound == c.ignored) = false := by
  unfold bindName
  split
  · rename_i hn
    refine iff_of_false List.not_mem_nil ?_
    rintro ⟨rfl, -, hb, -⟩
    rw [hn] at hb
    cases hb
  · rename_i v hv
    split
    · rename_i heq
      refine iff_of_false List.not_mem_nil ?_
      rintro ⟨rfl, rfl, hb, hne⟩
      rw [hv] at hb
      cases hb
      rw [heq] at hne
      cases hne
    · rename_i hne
      constructor
      · intro hc
        cases List.mem_singleton.mp hc
        exact ⟨rfl, rfl, hv, Bool.eq_false_of_not_eq_true hne⟩
      · rintro ⟨rfl, rfl, hb, -⟩
        rw [hv] at hb
        cases hb
        exact List.mem_singleton.mpr rfl

/-! ### A batch of bindings -/

theorem bindAll_cons (b : String × UnitOfMeasure α) (batch : List (String × UnitOfMeasure α))
    (r : Registry α) :
    bindAll (b :: batch) r =
      ⟨(bindAll batch (bindName b.1 b.2 r).registry).registry,
        (bindName b.1 b.2 r).conflicts ++
          (bindAll batch (bindName b.1 b.2 r).registry).conflicts,
        (bindAll batch (bindName b.1 b.2 r).registry).result⟩ := by
  obtain ⟨x, hx⟩ := exists_result_bindName b.1 b.2 r
  exact bind_of_ok hx

theorem result_bindAll (batch : List (String × UnitOfMeasure α)) (r : Registry α) :
    (bindAll batch r).result = .ok () := by
  induction batch generalizing r with
  | nil => rfl
  | cons b batch ih =>
    rw [bindAll_cons]
    exact ih _

theorem bindNames_eq_bindAll (u : UnitOfMeasure α) (names : List String) :
    bindNames u names = bindAll (names.map (·, u)) := by
  induction names with
  | nil => rfl
  | cons name names ih => simp only [bindNames, ih, List.map_cons, bindAll]

/-- Batches are bound one after the other. -/
theorem registry_bindAll_append (a b : List (String × UnitOfMeasure α)) (r : Registry α) :
    (bindAll (a ++ b) r).registry = (bindAll b (bindAll a r).registry).registry := by
  induction a generalizing r with
  | nil => rfl
  | cons e a ih =>
    rw [List.cons_append, bindAll_cons, bindAll_cons]
    exact ih _

theorem conflicts_bindAll_append (a b : List (String × UnitOfMeasure α)) (r : Registry α) :
    (bindAll (a ++ b) r).conflicts =
      (bindAll a r).conflicts ++ (bindAll b (bindAll a r).registry).conflicts := by
  induction a generalizing r with
  | nil => rfl
  | cons e a ih =>
    rw [List.cons_append, bindAll_cons, bindAll_cons]
    change _ ++ (bindAll (a ++ b) _).conflicts = _
    rw [ih, ← List.append_assoc]

/-- **The first binding wins**: those of the registry before those of the batch, and those of the
batch in their order. -/
theorem get?_bindAll (batch : List (String × UnitOfMeasure α)) (r : Registry α) (name : String) :
    (bindAll batch r).registry.get? name = (r.get? name).or (batch.lookup name) := by
  induction batch generalizing r with
  | nil => rw [List.lookup_nil, Option.or_none]; rfl
  | cons b batch ih =>
    rw [bindAll_cons]
    change (bindAll batch _).registry.get? name = _
    rw [ih, get?_bindName, Option.or_assoc, List.lookup_cons]
    congr 1
    by_cases hb : name = b.1
    · rw [if_pos hb, beq_iff_eq.mpr hb, Option.some_or]
    · rw [if_neg hb, beq_eq_false_iff_ne.mpr hb, Option.none_or]

/-- A unit that is bound to several names gets those that are free. -/
theorem get?_bindAll_map (names : List String) (u : UnitOfMeasure α) (r : Registry α)
    (name : String) :
    (bindAll (names.map (·, u)) r).registry.get? name =
      (r.get? name).or (if name ∈ names then some u else none) := by
  rw [get?_bindAll]
  congr 1
  induction names with
  | nil => rfl
  | cons other names ih =>
    rw [List.map_cons, List.lookup_cons]
    by_cases h : name = other
    · simp [h]
    · rw [beq_eq_false_iff_ne.mpr h]
      simpa [h] using ih

/-- A name that a batch has a unit for is bound in the end. -/
theorem exists_get?_bindAll {batch : List (String × UnitOfMeasure α)} {name : String}
    {u : UnitOfMeasure α} (h : (name, u) ∈ batch) (r : Registry α) :
    ∃ v, (bindAll batch r).registry.get? name = some v := by
  rw [get?_bindAll]
  cases r.get? name with
  | some v => exact ⟨v, rfl⟩
  | none =>
    cases hl : batch.lookup name with
    | some v => exact ⟨v, rfl⟩
    | none => simpa using List.lookup_eq_none_iff.mp hl _ h

theorem extends_bindAll (batch : List (String × UnitOfMeasure α)) (r : Registry α) :
    Extends r (bindAll batch r).registry := by
  intro name u hu
  rw [get?_bindAll, hu, Option.some_or]

/-- The conflicts of a batch are its bindings to names that have another unit in the end. -/
theorem mem_conflicts_bindAll {batch : List (String × UnitOfMeasure α)} {c : Conflict α} :
    c ∈ (bindAll batch r).conflicts ↔
      (c.name, c.ignored) ∈ batch ∧ (bindAll batch r).registry.get? c.name = some c.bound ∧
        (c.bound == c.ignored) = false := by
  induction batch generalizing r with
  | nil => exact iff_of_false List.not_mem_nil fun h => List.not_mem_nil h.1
  | cons b batch ih =>
    rw [bindAll_cons]
    change c ∈ _ ++ (bindAll batch _).conflicts ↔ _ ∧ (bindAll batch _).registry.get? _ = _ ∧ _
    rw [List.mem_append, ih, mem_conflicts_bindName]
    constructor
    · rintro (⟨hname, hu, hb, hne⟩ | ⟨hmem, hb, hne⟩)
      · refine ⟨hname ▸ hu ▸ List.mem_cons_self, extends_bindAll _ _ _ _ ?_, hne⟩
        exact get?_bindName_of_some hb
      · exact ⟨List.mem_cons_of_mem _ hmem, hb, hne⟩
    · rintro ⟨hmem, hb, hne⟩
      rcases List.mem_cons.mp hmem with hhead | hmem
      · subst hhead
        left
        cases hr : r.get? c.name with
        | some v =>
          -- what the name had before is what it has in the end
          have hv : (bindName c.name c.ignored r).registry.get? c.name = some v :=
            get?_bindName_of_some hr
          rw [extends_bindAll batch _ _ _ hv] at hb
          exact ⟨rfl, rfl, hb, hne⟩
        | none =>
          -- a free name gets the unit itself, and a unit is equal to itself
          have hv : (bindName c.name c.ignored r).registry.get? c.name = some c.ignored := by
            rw [get?_bindName, hr, if_pos rfl, Option.none_or]
          rw [extends_bindAll batch _ _ _ hv] at hb
          rw [← Option.some.inj hb, UnitOfMeasure.beq_self] at hne
          cases hne
      · exact .inr ⟨hmem, hb, hne⟩

/-! ### What a registration binds -/

/-- A registration does what a batch does. -/
def Performs (m : Registration α β) (r : Registry α)
    (batch : List (String × UnitOfMeasure α)) : Prop :=
  (m r).registry = (bindAll batch r).registry ∧ (m r).conflicts = (bindAll batch r).conflicts

theorem performs_bind_of_ok {m : Registration α β} {f : β → Registration α γ} {x : β}
    {a b : List (String × UnitOfMeasure α)} (hx : (m r).result = .ok x) (hm : Performs m r a)
    (hf : Performs (f x) (m r).registry b) : Performs (m >>= f) r (a ++ b) := by
  obtain ⟨hregistry, hconflicts⟩ := hf
  refine ⟨?_, ?_⟩
  · rw [bind_of_ok hx, registry_bindAll_append, ← hm.1]
    exact hregistry
  · rw [bind_of_ok hx, conflicts_bindAll_append, ← hm.1, ← hm.2, ← hconflicts]

theorem performs_bind_of_error {m : Registration α β} {f : β → Registration α γ}
    {e : MeasureError α} {batch : List (String × UnitOfMeasure α)}
    (he : (m r).result = .error e) (hm : Performs m r batch) : Performs (m >>= f) r batch := by
  rw [Performs, bind_of_error he]
  exact hm

theorem performs_bindName (name : String) (u : UnitOfMeasure α) (r : Registry α) :
    Performs (bindName name u) r [(name, u)] := by
  rw [Performs, bindAll_cons]
  exact ⟨rfl, (List.append_nil _).symm⟩

theorem performs_bindNames (u : UnitOfMeasure α) (names : List String) (r : Registry α) :
    Performs (bindNames u names) r (names.map (·, u)) := by
  rw [bindNames_eq_bindAll]
  exact ⟨rfl, rfl⟩

theorem define_of_symbol? {symbol : String} (hs : u.symbol? = some symbol) :
    define u = bindName symbol u := by
  funext r
  have hok : (symbolOf u r).result = .ok symbol := by simp [symbolOf, ofExcept, hs]
  exact bind_of_ok hok

/-- A unit without symbol is refused. -/
theorem define_of_anonymous (hs : u.symbol? = none) (r : Registry α) :
    define u r = ⟨r, [], .error (.configuration (.anonymousUnit u.text))⟩ := by
  have herror : (symbolOf u r).result = .error (.configuration (.anonymousUnit u.text)) := by
    simp [symbolOf, ofExcept, hs]
  exact bind_of_error herror

theorem performs_define_of_anonymous (hs : u.symbol? = none) (r : Registry α) :
    Performs (define u) r [] := by
  rw [Performs, define_of_anonymous hs]
  exact ⟨rfl, rfl⟩

/-- Whatever its result and whether it fails, a registration does what a batch of a class does. -/
def Writes (C : List (String × UnitOfMeasure α) → Prop) (m : Registration α β) : Prop :=
  ∀ r, ∃ batch, C batch ∧ Performs m r batch

/-- A class of batches that has those which bind a unit to its symbol and then to other names. -/
structure Admits (C : List (String × UnitOfMeasure α) → Prop) : Prop where
  nil : C []
  append : ∀ {a b : List (String × UnitOfMeasure α)}, C a → C b → C (a ++ b)
  named : ∀ {u : UnitOfMeasure α} {symbol : String} (names : List String),
    u.symbol? = some symbol → C ((symbol, u) :: names.map (·, u))

section

variable {C : List (String × UnitOfMeasure α) → Prop}

theorem writes_pure (hC : Admits C) (x : β) : Writes C (pure x : Registration α β) :=
  fun _ => ⟨[], hC.nil, rfl, rfl⟩

theorem writes_ofExcept (hC : Admits C) (x : Except (MeasureError α) β) :
    Writes C (ofExcept x) :=
  fun _ => ⟨[], hC.nil, rfl, rfl⟩

theorem writes_lookup (hC : Admits C) (name : String) :
    Writes C (lookup name : Registration α (UnitOfMeasure α)) :=
  fun _ => ⟨[], hC.nil, rfl, rfl⟩

theorem writes_bind (hC : Admits C) {m : Registration α β} {f : β → Registration α γ}
    (hm : Writes C m) (hf : ∀ x, Writes C (f x)) : Writes C (m >>= f) := by
  intro r
  obtain ⟨a, ha, hma⟩ := hm r
  cases hx : (m r).result with
  | error e => exact ⟨a, ha, performs_bind_of_error hx hma⟩
  | ok x =>
    obtain ⟨b, hb, hfb⟩ := hf x (m r).registry
    exact ⟨a ++ b, hC.append ha hb, performs_bind_of_ok hx hma hfb⟩

/-- Defining a unit and then binding it to more names, before anything else is done. -/
theorem writes_define_bind (hC : Admits C) {names : List String} {m : Registration α β}
    {f : Bool → β → Registration α γ} (hm : ∀ r, Performs m r (names.map (·, u)))
    (hf : ∀ b x, Writes C (f b x)) : Writes C (define u >>= fun b => m >>= f b) := by
  intro r
  cases hs : u.symbol? with
  | none =>
    have herror := congrArg Outcome.result (define_of_anonymous hs r)
    exact ⟨[], hC.nil, performs_bind_of_error herror (performs_define_of_anonymous hs r)⟩
  | some symbol =>
    rw [define_of_symbol? hs]
    have hnamed := hC.named names hs
    obtain ⟨b, hb⟩ := exists_result_bindName symbol u r
    have hfirst := performs_bindName symbol u r
    cases hx : (m (bindName symbol u r).registry).result with
    | error e =>
      exact ⟨[(symbol, u)] ++ names.map (·, u), hnamed,
        performs_bind_of_ok hb hfirst (performs_bind_of_error hx (hm _))⟩
    | ok x =>
      obtain ⟨rest, hrest, hperforms⟩ := hf b x (m (bindName symbol u r).registry).registry
      have hbatch := hC.append hnamed hrest
      exact ⟨[(symbol, u)] ++ (names.map (·, u) ++ rest), hbatch,
        performs_bind_of_ok hb hfirst (performs_bind_of_ok hx (hm _) hperforms)⟩

theorem writes_define (hC : Admits C) (u : UnitOfMeasure α) : Writes C (define u) := by
  intro r
  cases hs : u.symbol? with
  | none => exact ⟨[], hC.nil, performs_define_of_anonymous hs r⟩
  | some symbol =>
    rw [define_of_symbol? hs]
    exact ⟨_, hC.named [] hs, performs_bindName symbol u r⟩

theorem writes_defineNamed (hC : Admits C) (u : UnitOfMeasure α) (name : String) :
    Writes C (defineNamed u name) := by
  have hname : ∀ r, Performs (bindName name u) r ([name].map (·, u)) := performs_bindName name u
  exact writes_define_bind hC hname fun defined _ => writes_pure hC defined

theorem writes_definePrefixed (hC : Admits C) (u : UnitOfMeasure α) (symbol : String)
    (name? : Option String) (prefixes : List Prefix) :
    Writes C (definePrefixed u symbol name? prefixes) := by
  induction prefixes with
  | nil => exact writes_pure hC 0
  | cons p prefixes ih =>
    exact writes_bind hC (writes_ofExcept hC _) fun v =>
      writes_define_bind hC (performs_bindNames v _) fun _ _ =>
        writes_bind hC ih fun _ => writes_pure hC _

theorem writes_defineMetricFamily (hC : Admits C) (u : UnitOfMeasure α) (name? : Option String) :
    Writes C (defineMetricFamily u name?) :=
  writes_bind hC (writes_ofExcept hC _) fun symbol => writes_definePrefixed hC u symbol name? _

theorem writes_declare (hC : Admits C) (u : UnitOfMeasure α) (name? : Option String)
    (prefixable : Bool) (aliases : List String) :
    Writes C (declare u name? prefixable aliases) := by
  refine writes_define_bind hC (performs_bindNames u _) fun _ _ => ?_
  cases prefixable with
  | false => exact writes_pure hC ()
  | true =>
    exact writes_bind hC (writes_defineMetricFamily hC u name?) fun _ => writes_pure hC ()

/-! ### Configurations and sessions -/

open Metrology.Configuration

theorem writes_applyBases (hC : Admits C) (entries : List BaseEntry) :
    Writes C (applyBases entries : Registration α Unit) := by
  induction entries with
  | nil => exact writes_pure hC ()
  | cons e entries ih => exact writes_bind hC (writes_declare hC _ _ _ _) fun _ => ih

theorem writes_applyUnit (hC : Admits C) (e : UnitEntry α) : Writes C (applyUnit e) :=
  writes_bind hC (writes_lookup hC e.source) fun source =>
    writes_bind hC (writes_ofExcept hC (unitOf e source)) fun u => writes_declare hC u _ _ _

theorem writes_applyUnits (hC : Admits C) (entries : List (UnitEntry α)) :
    Writes C (applyUnits entries) := by
  induction entries with
  | nil => exact writes_pure hC ()
  | cons e entries ih => exact writes_bind hC (writes_applyUnit hC e) fun _ => ih

theorem writes_apply (hC : Admits C) (c : Configuration α) : Writes C c.apply :=
  writes_bind hC (writes_applyBases hC c.bases) fun _ => writes_applyUnits hC c.units

/-- What a call binds, also when it fails.  The binding of a single name has to be admitted by
itself. -/
theorem writes_perform (hC : Admits C) {call : Call α}
    (h : ∀ name u, call = .bindName name u → C [(name, u)]) : Writes C call.perform := by
  cases call with
  | define u => exact writes_bind hC (writes_define hC u) fun _ => writes_pure hC _
  | defineNamed u name =>
    exact writes_bind hC (writes_defineNamed hC u name) fun _ => writes_pure hC _
  | bindName name u =>
    exact writes_bind hC (fun r => ⟨_, h name u rfl, performs_bindName name u r⟩) fun _ =>
      writes_pure hC _
  | defineMetricFamily u name? =>
    exact writes_bind hC (writes_defineMetricFamily hC u name?) fun _ => writes_pure hC _
  | apply c => exact writes_bind hC (writes_apply hC c) fun _ => writes_pure hC _

/-- Giving back a failure changes nothing about what is bound. -/
theorem writes_attempt {m : Registration α β} (h : Writes C m) : Writes C m.attempt :=
  h

/-- What a session binds. -/
theorem writes_performAll (hC : Admits C) {calls : List (Call α)}
    (h : ∀ name u, Call.bindName name u ∈ calls → C [(name, u)]) :
    Writes C (Call.performAll calls) := by
  induction calls with
  | nil => exact writes_pure hC []
  | cons call calls ih =>
    have hcall : Writes C call.perform :=
      writes_perform hC fun name u he => h name u (he ▸ List.mem_cons_self)
    have hcalls := ih fun name u hmem => h name u (List.mem_cons_of_mem _ hmem)
    exact writes_bind hC (writes_attempt hcall) fun _ =>
      writes_bind hC hcalls fun _ => writes_pure hC _

end

end Registration

end Metrology
