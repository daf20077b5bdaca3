import Metrology.Proofs.Result
import Metrology.Registry.Registration

/-!
# Invariants of registries

All registrations bind names one by one, so a property of registries is kept by a registration if the
bindings that it attempts keep it (`Keeps`); it is kept too when the registration fails halfway.  The
rules follow the structure of registrations, so that a sequence of them is gone through step by step.

There are two kinds of properties: that the bindings of an earlier registry persist (`Extends`), which
every binding keeps (`keeps_bindName_extends`), and that all bound units have a property that depends
on the name (`Binds`), which a binding keeps when its unit has it (`keeps_bindName_binds`).
-/

namespace Metrology

variable {α β γ : Type}

namespace Registry

/-- A registry has the bindings of another one. -/
def Extends (r₀ r : Registry α) : Prop :=
  ∀ name u, r₀.get? name = some u → r.get? name = some u

/-- What is bound to a name has a property. -/
def Binds (Q : String → UnitOfMeasure α → Prop) (r : Registry α) : Prop :=
  ∀ name u, r.get? name = some u → Q name u

theorem Extends.refl (r : Registry α) : Extends r r :=
  fun _ _ h => h

end Registry

namespace Registration

open Registry

variable {I : Registry α → Prop} {R : β → Prop} {S : γ → Prop}

/-- A registration keeps a property of registries, and its result has one, if there is a result. -/
def Keeps (I : Registry α → Prop) (m : Registration α β) (R : β → Prop) : Prop :=
  ∀ r, I r → I (m r).registry ∧ ∀ x, (m r).result = .ok x → R x

/-! ### Rules -/

theorem bind_of_error {m : Registration α β} {f : β → Registration α γ} {r : Registry α}
    {e : MeasureError α} (h : (m r).result = .error e) :
    (m >>= f) r = ⟨(m r).registry, (m r).conflicts, .error e⟩ := by
  change Registration.bind m f r = _
  simp only [Registration.bind, h]

theorem bind_of_ok {m : Registration α β} {f : β → Registration α γ} {r : Registry α} {x : β}
    (h : (m r).result = .ok x) :
    (m >>= f) r = ⟨(f x (m r).registry).registry,
      (m r).conflicts ++ (f x (m r).registry).conflicts, (f x (m r).registry).result⟩ := by
  change Registration.bind m f r = _
  simp only [Registration.bind, h]

theorem keeps_pure {x : β} (h : R x) : Keeps I (pure x : Registration α β) R := by
  intro r hr
  refine ⟨hr, fun y hy => ?_⟩
  cases hy
  exact h

theorem keeps_bind {m : Registration α β} {f : β → Registration α γ} (hm : Keeps I m R)
    (hf : ∀ x, R x → Keeps I (f x) S) : Keeps I (m >>= f) S := by
  intro r hr
  obtain ⟨hregistry, hresult⟩ := hm r hr
  cases hx : (m r).result with
  | error e =>
    rw [bind_of_error hx]
    exact ⟨hregistry, fun y hy => by cases hy⟩
  | ok x =>
    rw [bind_of_ok hx]
    exact hf x (hresult x hx) _ hregistry

theorem keeps_ofExcept {x : Except (MeasureError α) β} (h : ∀ y, x = .ok y → R y) :
    Keeps I (ofExcept x) R :=
  fun _ hr => ⟨hr, h⟩

theorem keeps_lookup {name : String} {R : UnitOfMeasure α → Prop}
    (h : ∀ r u, I r → r.get? name = some u → R u) : Keeps I (lookup name) R := by
  intro r hr
  refine ⟨hr, fun u hu => h r u hr ?_⟩
  change r.lookup name = .ok u at hu
  unfold Registry.lookup at hu
  split at hu
  · cases hu
    assumption
  · cases hu

theorem keeps_symbolOf {u : UnitOfMeasure α} :
    Keeps I (symbolOf u) fun symbol => u.symbol? = some symbol := by
  refine keeps_ofExcept fun symbol h => ?_
  split at h
  · cases h
    assumption
  · cases h

section

variable [Scalar α] {u : UnitOfMeasure α}

/-- A property of registries is kept when a unit is bound to any of the given names. -/
def Allows (I : Registry α → Prop) (u : UnitOfMeasure α) (names : List String) : Prop :=
  ∀ name ∈ names, Keeps I (bindName name u) fun _ => True

theorem keeps_bindNames {names : List String} (h : Allows I u names) :
    Keeps I (bindNames u names) fun _ => True := by
  induction names with
  | nil => exact keeps_pure trivial
  | cons name names ih =>
    exact keeps_bind (h name List.mem_cons_self) fun _ _ =>
      ih fun name hn => h name (List.mem_cons_of_mem _ hn)

theorem keeps_define (h : Allows I u u.symbol?.toList) : Keeps I (define u) fun _ => True :=
  keeps_bind keeps_symbolOf fun symbol hs => h symbol (by rw [hs]; exact List.mem_singleton.mpr rfl)

theorem keeps_definePrefixed {symbol : String} {name? : Option String} {prefixes : List Prefix}
    (h : ∀ p ∈ prefixes, ∀ v, UnitOfMeasure.prefixed p u = .ok v →
      Allows I v (v.symbol?.toList ++ prefixedNames symbol name? p)) :
    Keeps I (definePrefixed u symbol name? prefixes) fun _ => True := by
  induction prefixes with
  | nil => exact keeps_pure trivial
  | cons p prefixes ih =>
    refine keeps_bind (keeps_ofExcept fun v hv => h p List.mem_cons_self v hv) fun v hv => ?_
    refine keeps_bind (keeps_define fun name hn => hv name (List.mem_append_left _ hn)) fun _ _ => ?_
    refine keeps_bind (keeps_bindNames fun name hn => hv name (List.mem_append_right _ hn))
      fun _ _ => ?_
    refine keeps_bind (ih fun p hp => h p (List.mem_cons_of_mem _ hp)) fun _ _ => ?_
    exact keeps_pure trivial

theorem keeps_defineMetricFamily {name? : Option String}
    (h : ∀ symbol, u.symbol? = some symbol → ∀ p v, UnitOfMeasure.prefixed p u = .ok v →
      Allows I v (v.symbol?.toList ++ prefixedNames symbol name? p)) :
    Keeps I (defineMetricFamily u name?) fun _ => True :=
  keeps_bind keeps_symbolOf fun symbol hs => keeps_definePrefixed fun p _ v hv => h symbol hs p v hv

theorem keeps_declare {name? : Option String} {prefixable : Bool} {aliases : List String}
    (hu : Allows I u (u.symbol?.toList ++ (name?.toList ++ aliases)))
    (hp : prefixable = true → ∀ symbol, u.symbol? = some symbol → ∀ p v,
      UnitOfMeasure.prefixed p u = .ok v →
        Allows I v (v.symbol?.toList ++ prefixedNames symbol name? p)) :
    Keeps I (declare u name? prefixable aliases) fun _ => True := by
  refine keeps_bind (keeps_define fun name hn => hu name (List.mem_append_left _ hn)) fun _ _ => ?_
  refine keeps_bind (keeps_bindNames fun name hn => hu name (List.mem_append_right _ hn))
    fun _ _ => ?_
  cases prefixable with
  | false => exact keeps_pure trivial
  | true => exact keeps_bind (keeps_defineMetricFamily (hp rfl)) fun _ _ => keeps_pure trivial

/-! ### Bindings -/

theorem keeps_bindName_extends (r₀ : Registry α) (name : String) (u : UnitOfMeasure α) :
    Keeps (Extends r₀) (bindName name u) fun _ => True :=
  fun _ hr => ⟨fun other v h => get?_bindName_of_some (hr other v h), fun _ _ => trivial⟩

theorem keeps_bindName_binds {Q : String → UnitOfMeasure α → Prop} {name : String} (h : Q name u) :
    Keeps (Binds Q) (bindName name u) fun _ => True := by
  intro r hr
  refine ⟨fun other v hv => ?_, fun _ _ => trivial⟩
  unfold bindName at hv
  split at hv
  · rw [Registry.get?_push] at hv
    split at hv
    · rename_i ho
      cases hv
      rw [ho]
      exact h
    · exact hr other v hv
  · split at hv <;> exact hr other v hv

end

/-- A property of the empty registry that all steps keep. -/
theorem registryOf_of_keeps {m : Registration α β} (h0 : I .empty) (h : Keeps I m R) :
    I m.registryOf :=
  (h .empty h0).1

/-- A property that holds after the first steps and that all further steps keep. -/
theorem registryOf_bind {m : Registration α β} {f : β → Registration α γ} (hm : I m.registryOf)
    (hf : ∀ x, Keeps I (f x) fun _ => True) : I (m >>= f).registryOf := by
  unfold registryOf at *
  cases hx : (m .empty).result with
  | error e =>
    rw [bind_of_error hx]
    exact hm
  | ok x =>
    rw [bind_of_ok hx]
    exact (hf x _ hm).1

end Registration

end Metrology
