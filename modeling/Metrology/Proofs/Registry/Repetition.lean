import Metrology.Proofs.Registry.Batch

/-!
# Applying a configuration again

A configuration can be applied a second time, to the registry that the first time left behind or to
one that has grown since.  If the first time went through, all its names are bound, and the units that
its entries are measured by are found again; if it failed, it fails at the same entry, provided that
nothing was registered since that the entry could be measured by.  So the second time binds nothing.

`LeadsTo` says which registries come after a registration, and `Repeats` that the registration, done
again there, binds nothing and ends the same way.  The rules follow the structure of registrations
(`repeats_apply`); `apply_again` is the case of a configuration applied twice.
-/

namespace Metrology

variable {α β γ : Type}

namespace Registration

open Registry

/-- Two results of a registration: both are failures, of the same error, or none is, and then they are
related. -/
def Agree (R : β → β → Prop) :
    Except (MeasureError α) β → Except (MeasureError α) β → Prop
  | .ok x, .ok y => R x y
  | .error e, .error e' => e = e'
  | _, _ => False

theorem agree_ok_iff {R : β → β → Prop} {x : β} {y : Except (MeasureError α) β} :
    Agree R (.ok x) y ↔ ∃ x', y = .ok x' ∧ R x x' := by
  cases y <;> simp [Agree]

theorem agree_error_iff {R : β → β → Prop} {e : MeasureError α} {y : Except (MeasureError α) β} :
    Agree R (.error e) y ↔ y = .error e := by
  cases y <;> simp [Agree, eq_comm]

/-- Results without content are the same when they agree. -/
theorem eq_of_agree {R : Unit → Unit → Prop} {x y : Except (MeasureError α) Unit}
    (h : Agree R x y) : y = x := by
  cases x with
  | ok => exact (agree_ok_iff.mp h).choose_spec.1
  | error e => exact agree_error_iff.mp h

/-- A registry that comes after a registration: one with all its bindings if it went through, and the
one that it left behind if it failed. -/
structure LeadsTo (outcome : Outcome α β) (r : Registry α) : Prop where
  extends_of_ok : ∀ x, outcome.result = .ok x → Extends outcome.registry r
  eq_of_error : ∀ e, outcome.result = .error e → r = outcome.registry

/-- The first registration only adds bindings, and the second one, done on a registry that comes after
it, adds none and ends the same way, with a related result. -/
structure Repeats (R : β → β → Prop) (m m' : Registration α β) : Prop where
  grows : ∀ r, Extends r (m r).registry
  again : ∀ r r', LeadsTo (m r) r' →
    (m' r').registry = r' ∧ Agree R (m r).result (m' r').result

theorem leadsTo_self (outcome : Outcome α β) : LeadsTo outcome outcome.registry :=
  ⟨fun _ _ => Extends.refl _, fun _ _ => rfl⟩

theorem LeadsTo.extends {outcome : Outcome α β} {r : Registry α} (h : LeadsTo outcome r) :
    Extends outcome.registry r := by
  cases hx : outcome.result with
  | ok x => exact h.extends_of_ok x hx
  | error e =>
    rw [h.eq_of_error e hx]
    exact Extends.refl _

/-! ### Rules -/

section

variable {R : β → β → Prop} {S : γ → γ → Prop}

theorem repeats_pure {x y : β} (h : R x y) : Repeats R (pure x : Registration α β) (pure y) where
  grows := Extends.refl
  again _ _ _ := ⟨rfl, h⟩

theorem repeats_ofExcept (x : Except (MeasureError α) β) :
    Repeats Eq (ofExcept x) (ofExcept x) where
  grows := Extends.refl
  again _ _ _ := by
    refine ⟨rfl, ?_⟩
    cases x <;> rfl

/-- A unit that was found is found again, and one that was not has not been registered since. -/
theorem repeats_lookup (name : String) :
    Repeats Eq (lookup name : Registration α (UnitOfMeasure α)) (lookup name) where
  grows := Extends.refl
  again r r' h := by
    refine ⟨rfl, ?_⟩
    change Agree Eq (r.lookup name) (r'.lookup name)
    cases hr : r.lookup name with
    | ok u =>
      have hu : r'.get? name = some u := h.extends_of_ok u hr name u (lookup_eq_ok_iff.mp hr)
      exact agree_ok_iff.mpr ⟨u, lookup_eq_ok_iff.mpr hu, rfl⟩
    | error e =>
      rw [h.eq_of_error e hr]
      exact agree_error_iff.mpr hr

/-- What a registration gives back is related to what it gives back the second time. -/
theorem Repeats.exists_related {m m' : Registration α β} (h : Repeats R m m') {r : Registry α}
    {x : β} (hx : (m r).result = .ok x) : ∃ y, R x y := by
  obtain ⟨-, hagree⟩ := h.again r _ (leadsTo_self _)
  rw [hx] at hagree
  obtain ⟨y, -, hxy⟩ := agree_ok_iff.mp hagree
  exact ⟨y, hxy⟩

/-- Registrations in sequence.  A failure of the first one leaves its registry for good; after a
success everything that the second one binds comes on top. -/
theorem repeats_bind {m m' : Registration α β} {f f' : β → Registration α γ} (hm : Repeats R m m')
    (hf : ∀ x y, R x y → Repeats S (f x) (f' y)) : Repeats S (m >>= f) (m' >>= f') where
  grows r := by
    cases hx : (m r).result with
    | error e =>
      rw [bind_of_error hx]
      exact hm.grows r
    | ok x =>
      obtain ⟨y, hxy⟩ := hm.exists_related hx
      rw [bind_of_ok hx]
      exact (hm.grows r).trans ((hf x y hxy).grows _)
  again r r' h := by
    cases hx : (m r).result with
    | error e =>
      rw [bind_of_error hx] at h ⊢
      have hfirst : LeadsTo (m r) r' :=
        ⟨fun y hy => (by rw [hx] at hy; cases hy), fun _ _ => h.eq_of_error e rfl⟩
      obtain ⟨hregistry, hagree⟩ := hm.again r r' hfirst
      rw [hx] at hagree
      rw [bind_of_error (agree_error_iff.mp hagree)]
      exact ⟨hregistry, rfl⟩
    | ok x =>
      rw [bind_of_ok hx] at h ⊢
      -- what comes after both registrations comes after the first one too, so that is repeated first
      have hsecond : LeadsTo (f x (m r).registry) r' := ⟨h.extends_of_ok, h.eq_of_error⟩
      obtain ⟨z, hxz⟩ := hm.exists_related hx
      have hextends : Extends (m r).registry r' := ((hf x z hxz).grows _).trans hsecond.extends
      have hfirst : LeadsTo (m r) r' :=
        ⟨fun _ _ => hextends, fun e he => by rw [hx] at he; cases he⟩
      obtain ⟨hregistry, hagree⟩ := hm.again r r' hfirst
      rw [hx] at hagree
      obtain ⟨y, hy, hxy⟩ := agree_ok_iff.mp hagree
      rw [bind_of_ok hy, hregistry]
      exact (hf x y hxy).again _ r' hsecond

end

/-! ### Registrations -/

/-- Two results about which nothing is said. -/
def Any (_ _ : β) : Prop :=
  True

section

variable [Scalar α]

/-- A name that was bound, or was to be bound, is bound the second time, whatever to. -/
theorem repeats_bindName (name : String) (u : UnitOfMeasure α) :
    Repeats Any (bindName name u) (bindName name u) where
  grows r := fun _ _ h => get?_bindName_of_some h
  again r r' h := by
    obtain ⟨b, hb⟩ := exists_result_bindName name u r
    obtain ⟨b', hb'⟩ := exists_result_bindName name u r'
    have hbound : ∃ v, r'.get? name = some v := by
      cases hr : r.get? name with
      | some v => exact ⟨v, h.extends _ _ (get?_bindName_of_some hr)⟩
      | none =>
        refine ⟨u, h.extends _ _ ?_⟩
        rw [get?_bindName, hr, if_pos rfl, Option.none_or]
    obtain ⟨v, hv⟩ := hbound
    refine ⟨registry_bindName_of_some hv, ?_⟩
    rw [hb, hb']
    exact trivial

theorem repeats_bindNames (u : UnitOfMeasure α) (names : List String) :
    Repeats Any (bindNames u names) (bindNames u names) := by
  induction names with
  | nil => exact repeats_pure trivial
  | cons name names ih => exact repeats_bind (repeats_bindName name u) fun _ _ _ => ih

theorem repeats_define (u : UnitOfMeasure α) : Repeats Any (define u) (define u) := by
  refine repeats_bind (repeats_ofExcept _) ?_
  rintro symbol _ rfl
  exact repeats_bindName symbol u

/-- How many symbols are counted the second time is left open; configurations do not ask. -/
theorem repeats_definePrefixed (u : UnitOfMeasure α) (symbol : String) (name? : Option String)
    (prefixes : List Prefix) :
    Repeats Any (definePrefixed u symbol name? prefixes)
      (definePrefixed u symbol name? prefixes) := by
  induction prefixes with
  | nil => exact repeats_pure trivial
  | cons p prefixes ih =>
    refine repeats_bind (repeats_ofExcept _) ?_
    rintro v _ rfl
    refine repeats_bind (repeats_define v) fun _ _ _ => ?_
    refine repeats_bind (repeats_bindNames v _) fun _ _ _ => ?_
    exact repeats_bind ih fun _ _ _ => repeats_pure trivial

theorem repeats_defineMetricFamily (u : UnitOfMeasure α) (name? : Option String) :
    Repeats Any (defineMetricFamily u name?) (defineMetricFamily u name?) := by
  refine repeats_bind (repeats_ofExcept _) ?_
  rintro symbol _ rfl
  exact repeats_definePrefixed u symbol name? _

theorem repeats_declare (u : UnitOfMeasure α) (name? : Option String) (prefixable : Bool)
    (aliases : List String) :
    Repeats Any (declare u name? prefixable aliases) (declare u name? prefixable aliases) := by
  refine repeats_bind (repeats_define u) fun _ _ _ => ?_
  refine repeats_bind (repeats_bindNames u _) fun _ _ _ => ?_
  cases prefixable with
  | false => exact repeats_pure trivial
  | true =>
    exact repeats_bind (repeats_defineMetricFamily u name?) fun _ _ _ => repeats_pure trivial

end

end Registration

/-! ### Configurations -/

namespace Configuration

open Registration

variable [Scalar α]

theorem repeats_applyBases (entries : List BaseEntry) :
    Repeats (α := α) Any (applyBases entries) (applyBases entries) := by
  induction entries with
  | nil => exact repeats_pure trivial
  | cons e entries ih => exact repeats_bind (repeats_declare _ _ _ _) fun _ _ _ => ih

/-- A unit entry is measured by the same unit the second time, so it declares the same unit. -/
theorem repeats_applyUnit (e : UnitEntry α) : Repeats Any (applyUnit e) (applyUnit e) := by
  refine repeats_bind (repeats_lookup e.source) ?_
  rintro source _ rfl
  refine repeats_bind (repeats_ofExcept (unitOf e source)) ?_
  rintro u _ rfl
  exact repeats_declare u _ _ _

theorem repeats_applyUnits (entries : List (UnitEntry α)) :
    Repeats Any (applyUnits entries) (applyUnits entries) := by
  induction entries with
  | nil => exact repeats_pure trivial
  | cons e entries ih => exact repeats_bind (repeats_applyUnit e) fun _ _ _ => ih

theorem repeats_apply (c : Configuration α) : Repeats Any c.apply c.apply :=
  repeats_bind (repeats_applyBases c.bases) fun _ _ _ => repeats_applyUnits c.units

/-- **A configuration applied again.**  Whether the first time went through or failed, and whatever
conflicts there were, the second time ends the same way and leaves the registry as it is. -/
theorem apply_again (c : Configuration α) (r : Registry α) :
    (c.apply (c.apply r).registry).result = (c.apply r).result ∧
      (c.apply (c.apply r).registry).registry = (c.apply r).registry := by
  obtain ⟨hregistry, hagree⟩ := (repeats_apply c).again r _ (leadsTo_self _)
  exact ⟨eq_of_agree hagree, hregistry⟩

end Configuration

end Metrology
