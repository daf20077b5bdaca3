import Metrology.Proofs.Registry.Scope
import Metrology.Proofs.Registry.Session

/-!
# Calls that can be exchanged

What a call attempts to bind does not depend on the registry, unless it looks units up as the
application of a configuration does (`attempts`).  Neither does its answer, as long as it is refused
no name (`answer`): a registration `Answers` with a result if it performs the same batch everywhere and
has that result wherever it reports no conflict.

So if no name has two different units among the bindings of a registry and all attempts of the calls
(`Consistent`), then no call of a session is refused a name, and the order of the calls does not matter
(`order_laws`).  A name can still get another unit in another order, but only an equal one.
-/

namespace Metrology

open Registry

variable {α β γ : Type}

/-- Registries with the same names list them alike. -/
theorem Registry.names_eq_of_mem {r r' : Registry α} (h : ∀ name, name ∈ r.names ↔ name ∈ r'.names) :
    r.names = r'.names := by
  have hnodup : ∀ r : Registry α, r.names.Nodup := fun r =>
    (List.mergeSort_perm _ _).nodup_iff.mpr r.nodup
  have hsorted : ∀ r : Registry α, r.names.Pairwise (· ≤ ·) := by
    intro r
    refine (List.pairwise_mergeSort ?_ ?_ _).imp of_decide_eq_true
    · exact fun a b c hab hbc =>
        decide_eq_true ((of_decide_eq_true hab).trans (of_decide_eq_true hbc))
    · intro a b
      rw [Bool.or_eq_true, decide_eq_true_eq, decide_eq_true_eq]
      exact le_total a b
  exact ((List.perm_ext_iff_of_nodup (hnodup r) (hnodup r')).mpr h).eq_of_pairwise
    (fun a b _ _ => le_antisymm) (hsorted r) (hsorted r')

variable [Scalar α]

namespace Registration

/-! ### Registrations of one batch and one answer -/

/-- A registration that does not fail performs the same batch on every registry and has the same result
wherever no name is refused. -/
structure Answers (m : Registration α β) (batch : List (String × UnitOfMeasure α)) (x : β) :
    Prop where
  performs : ∀ r, Performs m r batch
  total : Total m
  result : ∀ r, (m r).conflicts = [] → (m r).result = .ok x

theorem answers_pure (x : β) : Answers (pure x : Registration α β) [] x where
  performs _ := ⟨rfl, rfl⟩
  total := total_pure x
  result _ _ := rfl

/-- The second registration performs the same batch whatever the first one has given back. -/
theorem answers_bind {m : Registration α β} {f : β → Registration α γ}
    {a b : List (String × UnitOfMeasure α)} {x : β} {g : β → γ} (hm : Answers m a x)
    (hf : ∀ y, Answers (f y) b (g y)) : Answers (m >>= f) (a ++ b) (g x) where
  performs r := by
    obtain ⟨y, hy⟩ := hm.total r
    exact performs_bind_of_ok hy (hm.performs r) ((hf y).performs _)
  total := total_bind hm.total fun y => (hf y).total
  result r h := by
    obtain ⟨y, hy⟩ := hm.total r
    rw [bind_of_ok hy] at h ⊢
    obtain ⟨hfirst, hsecond⟩ := List.append_eq_nil_iff.mp h
    rw [hm.result r hfirst] at hy
    cases hy
    exact (hf x).result _ hsecond

theorem answers_map {m : Registration α β} {batch : List (String × UnitOfMeasure α)} {x : β}
    (hm : Answers m batch x) (f : β → γ) : Answers (m >>= fun y => pure (f y)) batch (f x) := by
  have h := answers_bind hm fun y => answers_pure (f y)
  rwa [List.append_nil] at h

theorem answers_bindName (name : String) (u : UnitOfMeasure α) :
    Answers (bindName name u) [(name, u)] true where
  performs := performs_bindName name u
  total := exists_result_bindName name u
  result r := by
    unfold bindName
    split
    · exact fun _ => rfl
    · split
      · exact fun _ => rfl
      · exact fun h => by cases h

theorem answers_bindNames (u : UnitOfMeasure α) (names : List String) :
    Answers (bindNames u names) (names.map (·, u)) () := by
  induction names with
  | nil => exact answers_pure ()
  | cons name names ih => exact answers_bind (answers_bindName name u) fun _ => ih

variable {u : UnitOfMeasure α} {symbol : String}

theorem answers_define (hs : u.symbol? = some symbol) : Answers (define u) [(symbol, u)] true := by
  rw [define_of_symbol? hs]
  exact answers_bindName symbol u

theorem answers_defineNamed (hs : u.symbol? = some symbol) (name : String) :
    Answers (defineNamed u name) [(symbol, u), (name, u)] true :=
  answers_bind (answers_define hs) fun defined =>
    answers_map (answers_bindName name u) fun _ => defined

/-- The bindings of the symbols and names of a unit under given prefixes, as far as it takes them. -/
def prefixedBindings (u : UnitOfMeasure α) (symbol : String) (name? : Option String) :
    List Prefix → List (String × UnitOfMeasure α)
  | [] => []
  | p :: prefixes =>
    match UnitOfMeasure.prefixed p u with
    | .error _ => []
    | .ok v =>
      (v.text, v) :: (prefixedNames symbol name? p).map (·, v) ++
        prefixedBindings u symbol name? prefixes

theorem answers_definePrefixed (h : u.isAffine = false) (symbol : String) (name? : Option String)
    (prefixes : List Prefix) :
    Answers (definePrefixed u symbol name? prefixes) (prefixedBindings u symbol name? prefixes)
      prefixes.length := by
  induction prefixes with
  | nil => exact answers_pure 0
  | cons p prefixes ih =>
    obtain ⟨v, hv⟩ : ∃ v, UnitOfMeasure.prefixed p u = .ok v :=
      ⟨_, UnitOfMeasure.prefixed_eq_ok_iff.mpr ⟨h, rfl⟩⟩
    have hsymbol : v.symbol? = some v.text := by
      obtain ⟨-, rfl⟩ := UnitOfMeasure.prefixed_eq_ok_iff.mp hv
      rfl
    rw [definePrefixed, prefixedBindings, hv]
    change Answers (ofExcept (.ok v) >>= _) _ _
    rw [bind_ofExcept_ok]
    exact answers_bind (answers_define hsymbol) fun defined =>
      answers_bind (answers_bindNames v _) fun _ =>
        answers_map ih fun count => if defined then count + 1 else count

/-- A unit with an offset is taken under no prefix. -/
theorem prefixedBindings_of_affine (h : u.isAffine = true) (symbol : String)
    (name? : Option String) : prefixedBindings u symbol name? Prefix.all = [] := by
  simp [Prefix.all, prefixedBindings, UnitOfMeasure.prefixed, h]

/-- A registration performs a batch on every registry, and has a result, or fails, in one way wherever
no name is refused. -/
def Settles (m : Registration α β) (batch : List (String × UnitOfMeasure α))
    (result : Except (MeasureError α) β) : Prop :=
  ∀ r, Performs m r batch ∧ ((m r).conflicts = [] → (m r).result = result)

theorem Answers.settles {m : Registration α β} {batch : List (String × UnitOfMeasure α)} {x : β}
    (h : Answers m batch x) (f : β → γ) : Settles (m >>= fun y => pure (f y)) batch (.ok (f x)) :=
  fun r => ⟨(answers_map h f).performs r, (answers_map h f).result r⟩

/-- A registration that is refused at once binds nothing. -/
theorem settles_of_refused {m : Registration α β} {e : MeasureError α}
    (h : ∀ r, m r = ⟨r, [], .error e⟩) (f : β → Registration α γ) :
    Settles (m >>= f) [] (.error e) := by
  intro r
  have hbind := bind_of_error (f := f) (congrArg Outcome.result (h r))
  rw [h r] at hbind
  rw [Performs, hbind]
  exact ⟨⟨rfl, rfl⟩, fun _ => rfl⟩

theorem defineNamed_of_anonymous (hs : u.symbol? = none) (name : String) (r : Registry α) :
    defineNamed u name r = ⟨r, [], .error (.configuration (.anonymousUnit u.text))⟩ := by
  have h := bind_of_error (f := fun defined => bindName name u >>= fun _ => pure defined)
    (congrArg Outcome.result (define_of_anonymous hs r))
  rwa [define_of_anonymous hs r] at h

theorem defineMetricFamily_of_anonymous (hs : u.symbol? = none) (name? : Option String)
    (r : Registry α) :
    defineMetricFamily u name? r = ⟨r, [], .error (.configuration (.anonymousUnit u.text))⟩ := by
  have herror : (symbolOf u r).result = .error (.configuration (.anonymousUnit u.text)) := by
    simp [symbolOf, ofExcept, hs]
  exact bind_of_error herror

end Registration

/-! ### Calls -/

namespace Call

open Registration UnitOfMeasure

/-- A call that looks nothing up in the registry. -/
def IsDirect : Call α → Prop
  | apply _ => False
  | _ => True

/-- The bindings that a call attempts, in order.  Those of a configuration depend on the registry and
are not listed. -/
def attempts : Call α → List (String × UnitOfMeasure α)
  | define u => (u.symbol?.map (·, u)).toList
  | defineNamed u name => u.symbol?.elim [] fun symbol => [(symbol, u), (name, u)]
  | bindName name u => [(name, u)]
  | defineMetricFamily u name? =>
    u.symbol?.elim [] fun symbol => prefixedBindings u symbol name? Prefix.all
  | apply _ => []

/-- What is answered to the definition of a unit, if it has a symbol. -/
def answerFor (u : UnitOfMeasure α) (answer : Except (MeasureError α) Reply) :
    Except (MeasureError α) Reply :=
  match u.symbol? with
  | some _ => answer
  | none => .error (.configuration (.anonymousUnit u.text))

/-- What a call is answered when it is refused no name. -/
def answer : Call α → Except (MeasureError α) Reply
  | define u => answerFor u (.ok (.isBound true))
  | defineNamed u _ => answerFor u (.ok (.isBound true))
  | bindName _ _ => .ok (.isBound true)
  | defineMetricFamily u _ =>
    answerFor u <|
      if u.isAffine then .error (.affineComposition (.prefixing Prefix.quetta.symbol u.text))
      else .ok (.count Prefix.all.length)
  | apply _ => .ok .applied

/-- A call performs its attempts, and is answered alike wherever it is refused no name. -/
theorem settles_perform {call : Call α} (h : call.IsDirect) :
    Settles call.perform call.attempts call.answer := by
  cases call with
  | define u =>
    simp only [attempts, answer, answerFor]
    cases hs : u.symbol? with
    | none => exact settles_of_refused (define_of_anonymous hs) _
    | some symbol => exact (answers_define hs).settles _
  | defineNamed u name =>
    simp only [attempts, answer, answerFor]
    cases hs : u.symbol? with
    | none => exact settles_of_refused (defineNamed_of_anonymous hs name) _
    | some symbol => exact (answers_defineNamed hs name).settles _
  | bindName name u => exact (answers_bindName name u).settles _
  | defineMetricFamily u name? =>
    simp only [attempts, answer, answerFor]
    cases hs : u.symbol? with
    | none => exact settles_of_refused (defineMetricFamily_of_anonymous hs name?) _
    | some symbol =>
      cases ha : u.isAffine with
      | true =>
        have hrefused := settles_of_refused (defineMetricFamily_of_affine hs ha name?)
          fun n => pure (Reply.count n)
        rwa [Option.elim_some, prefixedBindings_of_affine ha]
      | false =>
        rw [perform, defineMetricFamily_of_symbol? hs]
        exact (answers_definePrefixed ha symbol name? Prefix.all).settles _
  | apply c => exact h.elim

/-- A session performs the attempts of its calls in their order. -/
theorem settles_performAll {calls : List (Call α)} (h : ∀ call ∈ calls, call.IsDirect) :
    Settles (performAll calls) (calls.flatMap attempts) (.ok (calls.map answer)) := by
  induction calls with
  | nil => exact fun r => ⟨⟨rfl, rfl⟩, fun _ => rfl⟩
  | cons call calls ih =>
    obtain ⟨hcall, hcalls⟩ := List.forall_mem_cons.mp h
    intro r
    obtain ⟨⟨hregistry, hconflicts⟩, hanswer⟩ := settles_perform hcall r
    obtain ⟨⟨hregistry', hconflicts'⟩, hanswers⟩ := ih hcalls (call.perform r).registry
    rw [Performs, performAll_cons, List.flatMap_cons, registry_bindAll_append,
      conflicts_bindAll_append]
    refine ⟨⟨?_, ?_⟩, fun hnone => ?_⟩
    · rw [← hregistry, ← hregistry']
    · rw [← hconflicts, ← hregistry, ← hconflicts']
    · obtain ⟨hfirst, hlater⟩ := List.append_eq_nil_iff.mp hnone
      change (performAll calls _).result.map _ = _
      rw [hanswer hfirst, hanswers hlater]
      rfl

/-- A name that is free gets the first unit that a call attempts to bind to it. -/
theorem get?_performAll {calls : List (Call α)} (h : ∀ call ∈ calls, call.IsDirect)
    (r : Registry α) (name : String) :
    (performAll calls r).registry.get? name =
      (r.get? name).or ((calls.flatMap attempts).lookup name) := by
  obtain ⟨⟨hregistry, -⟩, -⟩ := settles_performAll h r
  rw [hregistry, get?_bindAll]

/-! ### Orders -/

/-- No name has two different units. -/
def Consistent (bindings : List (String × UnitOfMeasure α)) : Prop :=
  ∀ b ∈ bindings, ∀ c ∈ bindings, b.1 = c.1 → (b.2 == c.2) = true

instance (bindings : List (String × UnitOfMeasure α)) : Decidable (Consistent bindings) :=
  inferInstanceAs (Decidable (∀ b ∈ bindings, _))

variable {r : Registry α} {batch batch' : List (String × UnitOfMeasure α)}

theorem Consistent.perm (h : Consistent batch) (hperm : batch.Perm batch') : Consistent batch' :=
  fun b hb c hc => h b (hperm.mem_iff.mpr hb) c (hperm.mem_iff.mpr hc)

/-- What is bound after a batch was bound before or is in the batch. -/
theorem mem_of_get?_bindAll {name : String} {u : UnitOfMeasure α}
    (h : (bindAll batch r).registry.get? name = some u) : (name, u) ∈ r.bindings ++ batch := by
  rw [get?_bindAll, Registry.get?, ← List.lookup_append] at h
  obtain ⟨l, l', hl, -⟩ := List.lookup_eq_some_iff.mp h
  rw [hl]
  exact List.mem_append_right _ List.mem_cons_self

/-- Where no name has two units, none is refused. -/
theorem Consistent.conflicts_bindAll (h : Consistent (r.bindings ++ batch)) :
    (bindAll batch r).conflicts = [] := by
  refine List.eq_nil_iff_forall_not_mem.mpr fun c hc => ?_
  obtain ⟨hmem, hbound, hne⟩ := mem_conflicts_bindAll.mp hc
  rw [h _ (mem_of_get?_bindAll hbound) _ (List.mem_append_right _ hmem) rfl] at hne
  cases hne

theorem names_bindAll_perm (hperm : batch.Perm batch') :
    (bindAll batch r).registry.names = (bindAll batch' r).registry.names := by
  refine Registry.names_eq_of_mem fun name => ?_
  simp only [Registry.mem_names, ← Option.ne_none_iff_exists', ne_eq, get?_bindAll,
    Option.or_eq_none_iff, List.lookup_eq_none_iff, hperm.mem_iff]

/-- **Order does not matter.**  If no name has two different units among the bindings of a registry and
the attempts of calls that look nothing up, then these calls are refused no name in any order.  Each
call has one answer in all orders, and the same names are bound in the end, each to equal units. -/
theorem order_laws {calls calls' : List (Call α)} (hdirect : ∀ call ∈ calls, call.IsDirect)
    (hconsistent : Consistent (r.bindings ++ calls.flatMap attempts)) (horder : calls.Perm calls') :
    let first := performAll calls r
    let second := performAll calls' r
    (first.conflicts = [] ∧ second.conflicts = []) ∧
      (first.result = .ok (calls.map answer) ∧ second.result = .ok (calls'.map answer)) ∧
      first.registry.names = second.registry.names ∧
      ∀ name u v, first.registry.get? name = some u → second.registry.get? name = some v →
        (u == v) = true := by
  intro first second
  have hdirect' : ∀ call ∈ calls', call.IsDirect :=
    fun call h => hdirect call (horder.mem_iff.mpr h)
  have hperm : (calls.flatMap attempts).Perm (calls'.flatMap attempts) :=
    horder.flatMap_right attempts
  have hconsistent' : Consistent (r.bindings ++ calls'.flatMap attempts) :=
    hconsistent.perm (hperm.append_left _)
  obtain ⟨⟨hregistry, hconflicts⟩, hanswers⟩ := settles_performAll hdirect r
  obtain ⟨⟨hregistry', hconflicts'⟩, hanswers'⟩ := settles_performAll hdirect' r
  have hnone := hconflicts.trans hconsistent.conflicts_bindAll
  have hnone' := hconflicts'.trans hconsistent'.conflicts_bindAll
  refine ⟨⟨hnone, hnone'⟩, ⟨hanswers hnone, hanswers' hnone'⟩, ?_, fun name u v hu hv => ?_⟩
  · rw [hregistry, hregistry', names_bindAll_perm hperm]
  · rw [hregistry] at hu
    rw [hregistry'] at hv
    have hv' := ((hperm.append_left r.bindings).mem_iff).mpr (mem_of_get?_bindAll hv)
    exact hconsistent _ (mem_of_get?_bindAll hu) _ hv' rfl

/-- A second metre that takes the name of the first one, the metric family of a bit, a unit and a
family that are refused, and the name for the first metre, in this order and in the opposite one. -/
theorem order_laws_metre :
    let metre : UnitOfMeasure Float := base "m" (.of .length)
    let meter : UnitOfMeasure Float := base "meter" (.of .length)
    let bit : UnitOfMeasure Float := base "bit" .dimensionless
    let celsius : UnitOfMeasure Float := atom ⟨"°C", .of .temperature, 1, 273.15, .base, 0⟩
    let r := (performAll [.define metre] .empty).registry
    let calls := [.defineNamed meter "metre", .defineMetricFamily bit (some "bit"), .define .one,
      .defineMetricFamily celsius none, .bindName "metre" metre]
    (∀ call ∈ calls, call.IsDirect) ∧ Consistent (r.bindings ++ calls.flatMap attempts) ∧
      calls.Perm calls.reverse ∧
      (performAll calls r).result = .ok [.ok (.isBound true), .ok (.count 24),
        .error (.configuration (.anonymousUnit "1")),
        .error (.affineComposition (.prefixing "Q" "°C")), .ok (.isBound true)] ∧
      (performAll calls r).registry.get? "metre" = some meter ∧
      (performAll calls.reverse r).registry.get? "metre" = some metre ∧
      (performAll calls r).registry.names = (performAll calls.reverse r).registry.names ∧
      (meter == metre) = true := by
  intro metre meter bit celsius r calls
  have hdirect : ∀ call ∈ calls, call.IsDirect := by
    simp [calls, IsDirect]
  have hdirect' : ∀ call ∈ calls.reverse, call.IsDirect := by
    simpa using hdirect
  have hconsistent : Consistent (r.bindings ++ calls.flatMap attempts) := by decide +kernel
  have horder : calls.Perm calls.reverse := calls.reverse_perm.symm
  obtain ⟨-, ⟨hanswers, -⟩, hnames, hequal⟩ := order_laws hdirect hconsistent horder
  have hbit : bit.isAffine = false := by decide +kernel
  have hcelsius : celsius.isAffine = true := by decide +kernel
  simp only [calls, List.map_cons, List.map_nil, answer, hbit, hcelsius] at hanswers
  have hmeter : (performAll calls r).registry.get? "metre" = some meter := by
    rw [get?_performAll hdirect]
    rfl
  have hmetre : (performAll calls.reverse r).registry.get? "metre" = some metre := by
    rw [get?_performAll hdirect']
    rfl
  exact ⟨hdirect, hconsistent, horder, hanswers, hmeter, hmetre, hnames,
    hequal _ _ _ hmeter hmetre⟩

end Call

end Metrology
