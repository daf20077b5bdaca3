import Metrology.Proofs.Binary64.Factor
import Metrology.Proofs.Registry.Batch
import Metrology.Proofs.UnitOfMeasure.Built

/-!
# Entries that are rejected

The application of a configuration fails at the first unit entry that is rejected; base entries never
are (`total_applyBases`).  What was applied before stays, and the entry is rejected in one of two ways
(`rejected_entry_laws`):

* Its unit cannot be made: it is measured by an unknown or an affine unit, or its factor or its offset
  is not usable.  Then nothing is registered for it.
* Its unit is affine and was to be registered under all prefixes.  This is refused only when the unit
  is bound to its symbol, its name and its aliases already, and these stay
  (`exists_rejected_entry_registered`).  No prefixed name is bound.
-/

namespace Metrology

open Registry Result

variable {α β γ : Type}

/-- The unit that an entry declares, measured by what a registry has under its source. -/
def UnitEntry.unitIn [Scalar α] (e : UnitEntry α) (r : Registry α) :
    Except (MeasureError α) (UnitOfMeasure α) :=
  (r.lookup e.source).bind (Configuration.unitOf e)

namespace Registration

/-! ### Registrations that do not fail -/

/-- A registration that does not fail. -/
def Total (m : Registration α β) : Prop :=
  ∀ r, ∃ x, (m r).result = .ok x

theorem total_pure (x : β) : Total (pure x : Registration α β) :=
  fun _ => ⟨x, rfl⟩

theorem total_bind {m : Registration α β} {f : β → Registration α γ} (hm : Total m)
    (hf : ∀ x, Total (f x)) : Total (m >>= f) := by
  intro r
  obtain ⟨x, hx⟩ := hm r
  rw [bind_of_ok hx]
  exact hf x _

/-- A given result is handed on. -/
theorem bind_ofExcept_ok {x : β} (f : β → Registration α γ) : (ofExcept (.ok x) >>= f) = f x := by
  funext r
  exact bind_of_ok (m := ofExcept (.ok x)) rfl

section

variable [Scalar α] {r : Registry α} {u : UnitOfMeasure α} {name? : Option String}
  {symbol : String} {aliases : List String}

theorem total_bindNames (u : UnitOfMeasure α) (names : List String) :
    Total (bindNames u names) := by
  intro r
  rw [bindNames_eq_bindAll]
  exact ⟨(), result_bindAll _ r⟩

theorem total_define (hs : u.symbol? = some symbol) : Total (define u) := by
  rw [define_of_symbol? hs]
  exact exists_result_bindName symbol u

/-- Linear units can be defined under all prefixes. -/
theorem total_definePrefixed (hl : u.isAffine = false) (symbol : String) (name? : Option String)
    (prefixes : List Prefix) : Total (definePrefixed u symbol name? prefixes) := by
  induction prefixes with
  | nil => exact total_pure 0
  | cons p prefixes ih =>
    obtain ⟨v, hv⟩ : ∃ v, UnitOfMeasure.prefixed p u = .ok v :=
      ⟨_, UnitOfMeasure.prefixed_eq_ok_iff.mpr ⟨hl, rfl⟩⟩
    have hsymbol : v.symbol? = some (p.symbol ++ u.text) := by
      obtain ⟨-, rfl⟩ := UnitOfMeasure.prefixed_eq_ok_iff.mp hv
      rfl
    rw [definePrefixed, hv]
    change Total (ofExcept (.ok v) >>= _)
    rw [bind_ofExcept_ok]
    exact total_bind (total_define hsymbol) fun _ => total_bind (total_bindNames v _) fun _ =>
      total_bind ih fun _ => total_pure _

/-! ### Declarations -/

theorem defineMetricFamily_of_symbol? (hs : u.symbol? = some symbol) (name? : Option String) :
    defineMetricFamily u name? = definePrefixed u symbol name? Prefix.all := by
  have hsymbol : symbolOf u = ofExcept (.ok symbol) := by simp [symbolOf, hs]
  rw [defineMetricFamily, hsymbol]
  exact bind_ofExcept_ok _

/-- The symbol, the name and the aliases of a unit are bound before its prefixes are looked at. -/
theorem declare_eq (hs : u.symbol? = some symbol) (name? : Option String) (prefixable : Bool)
    (aliases : List String) (r : Registry α) :
    let own := (bindAll ((symbol :: (name?.toList ++ aliases)).map (·, u)) r).registry
    let family : Registration α Unit :=
      if prefixable then do let _ ← defineMetricFamily u name? else pure ()
    (declare u name? prefixable aliases r).registry = (family own).registry ∧
      (declare u name? prefixable aliases r).result = (family own).result := by
  intro own family
  obtain ⟨b, hb⟩ := total_define hs r
  obtain ⟨x, hx⟩ := total_bindNames u (name?.toList ++ aliases) (define u r).registry
  have hown : (bindNames u (name?.toList ++ aliases) (define u r).registry).registry = own := by
    rw [bindNames_eq_bindAll, define_of_symbol? hs]
    change _ = (bindAll ((symbol, u) :: _) r).registry
    rw [bindAll_cons]
  have hdeclare : declare u name? prefixable aliases r =
      (define u >>= fun _ => bindNames u (name?.toList ++ aliases) >>= fun _ => family) r := rfl
  rw [hdeclare, bind_of_ok hb, bind_of_ok hx, hown]
  exact ⟨rfl, rfl⟩

/-- A unit can be declared unless it is affine and prefixes are asked for. -/
theorem total_declare (hs : u.symbol? = some symbol) {prefixable : Bool}
    (hl : prefixable = true → u.isAffine = false) (name? : Option String) (aliases : List String) :
    Total (declare u name? prefixable aliases) := by
  refine total_bind (total_define hs) fun _ => total_bind (total_bindNames u _) fun _ => ?_
  cases prefixable with
  | false => exact total_pure ()
  | true =>
    refine total_bind ?_ fun _ => total_pure ()
    rw [defineMetricFamily_of_symbol? hs]
    exact total_definePrefixed (hl rfl) symbol name? _

/-- Prefixes are refused to an affine unit at the first of them. -/
theorem defineMetricFamily_of_affine (hs : u.symbol? = some symbol) (ha : u.isAffine = true)
    (name? : Option String) (r : Registry α) :
    defineMetricFamily u name? r =
      ⟨r, [], .error (.affineComposition (.prefixing Prefix.quetta.symbol u.text))⟩ := by
  have hprefixed : (ofExcept (UnitOfMeasure.prefixed Prefix.quetta u) r).result =
      .error (.affineComposition (.prefixing Prefix.quetta.symbol u.text)) := by
    simp [ofExcept, UnitOfMeasure.prefixed, ha]
  rw [defineMetricFamily_of_symbol? hs]
  exact bind_of_error hprefixed

/-- An affine unit that is declared with prefixes is bound to its own names, and then refused. -/
theorem declare_of_affine (hs : u.symbol? = some symbol) (ha : u.isAffine = true)
    (name? : Option String) (aliases : List String) (r : Registry α) :
    (declare u name? true aliases r).registry =
        (bindAll ((symbol :: (name?.toList ++ aliases)).map (·, u)) r).registry ∧
      (declare u name? true aliases r).result =
        .error (.affineComposition (.prefixing Prefix.quetta.symbol u.text)) := by
  obtain ⟨hregistry, hresult⟩ := declare_eq hs name? true aliases r
  have hrefused := fun own => bind_of_error (f := fun _ => (pure () : Registration α Unit))
    (congrArg Outcome.result (defineMetricFamily_of_affine hs ha name? own))
  rw [if_pos rfl, hrefused, defineMetricFamily_of_affine hs ha] at hregistry hresult
  exact ⟨hregistry, hresult⟩

end

end Registration

namespace Configuration

open Registration UnitOfMeasure

/-! ### Entries -/

section

variable [Scalar α] {e : UnitEntry α} {r : Registry α} {u : UnitOfMeasure α} {err : MeasureError α}

theorem symbol?_of_unitIn (h : e.unitIn r = .ok u) : u.symbol? = some e.symbol := by
  obtain ⟨source, -, hu⟩ := bind_eq_ok.mp h
  unfold unitOf at hu
  split at hu
  · obtain ⟨-, -, rfl⟩ := scaled_eq_ok_iff.mp hu
    rfl
  · obtain ⟨-, -, -, rfl⟩ := affine_eq_ok_iff.mp hu
    rfl

/-- The unit of an entry is made before anything is registered for it. -/
theorem applyUnit_eq (e : UnitEntry α) (r : Registry α) :
    applyUnit e r =
      (ofExcept (e.unitIn r) >>= fun u => declare u e.name? e.prefixable e.aliases) r := by
  cases h : r.lookup e.source with
  | error err =>
    have hunit : e.unitIn r = .error err := by rw [UnitEntry.unitIn, h]; rfl
    rw [hunit]
    exact bind_of_error h
  | ok source =>
    have hunit : e.unitIn r = unitOf e source := by rw [UnitEntry.unitIn, h]; rfl
    rw [hunit]
    exact bind_of_ok h

/-- An entry whose unit cannot be made registers nothing. -/
theorem applyUnit_of_error (h : e.unitIn r = .error err) :
    applyUnit e r = ⟨r, [], .error err⟩ := by
  rw [applyUnit_eq, h]
  exact bind_of_error rfl

theorem applyUnit_of_ok (h : e.unitIn r = .ok u) :
    applyUnit e r = declare u e.name? e.prefixable e.aliases r := by
  rw [applyUnit_eq, h, bind_ofExcept_ok]

/-- Base units are linear, so base entries are not rejected. -/
theorem total_applyBase (h0 : ((0 : α) == 0) = true) (e : BaseEntry) :
    Total (applyBase e : Registration α Unit) := by
  refine total_declare rfl (fun _ => ?_) e.name? e.aliases
  change (!(0 : α) == 0) = false
  rw [h0]
  rfl

theorem total_applyBases (h0 : ((0 : α) == 0) = true) (entries : List BaseEntry) :
    Total (applyBases entries : Registration α Unit) := by
  induction entries with
  | nil => exact total_pure ()
  | cons e entries ih => exact total_bind (total_applyBase h0 e) fun _ => ih

theorem applyUnits_cons_of_ok {x : Unit} (h : (applyUnit e r).result = .ok x)
    (entries : List (UnitEntry α)) :
    applyUnits (e :: entries) r =
      ⟨(applyUnits entries (applyUnit e r).registry).registry,
        (applyUnit e r).conflicts ++ (applyUnits entries (applyUnit e r).registry).conflicts,
        (applyUnits entries (applyUnit e r).registry).result⟩ :=
  bind_of_ok h

theorem applyUnits_cons_of_error (h : (applyUnit e r).result = .error err)
    (entries : List (UnitEntry α)) :
    applyUnits (e :: entries) r = ⟨(applyUnit e r).registry, (applyUnit e r).conflicts, .error err⟩ :=
  bind_of_error h

/-- Entries are applied up to the first that is rejected, and the application ends with it. -/
theorem applyUnits_eq_error {entries : List (UnitEntry α)}
    (h : (applyUnits entries r).result = .error err) :
    ∃ before e after, entries = before ++ e :: after ∧ (applyUnits before r).result = .ok () ∧
      (applyUnit e (applyUnits before r).registry).result = .error err ∧
      (applyUnits entries r).registry = (applyUnit e (applyUnits before r).registry).registry := by
  induction entries generalizing r with
  | nil => cases h
  | cons e entries ih =>
    cases he : (applyUnit e r).result with
    | error err' =>
      rw [applyUnits_cons_of_error he] at h ⊢
      cases h
      exact ⟨[], e, entries, rfl, rfl, he, rfl⟩
    | ok x =>
      rw [applyUnits_cons_of_ok he] at h ⊢
      obtain ⟨before, e', after, rfl, hok, herror, hlast⟩ := ih h
      refine ⟨e :: before, e', after, rfl, ?_⟩
      rw [applyUnits_cons_of_ok he]
      exact ⟨hok, herror, hlast⟩

/-- The names that an entry declares without prefixes. -/
def ownNames (e : UnitEntry α) : List String :=
  e.symbol :: (e.name?.toList ++ e.aliases)

/-- What an entry that is rejected registers: nothing when its unit cannot be made, and otherwise the
unit under its own names. -/
theorem applyUnit_eq_error (h : (applyUnit e r).result = .error err) :
    e.unitIn r = .error err ∧ (applyUnit e r).registry = r ∨
      ∃ u, e.unitIn r = .ok u ∧ e.prefixable = true ∧ u.isAffine = true ∧
        err = .affineComposition (.prefixing Prefix.quetta.symbol e.symbol) ∧
        ∀ name, (applyUnit e r).registry.get? name =
          (r.get? name).or (if name ∈ ownNames e then some u else none) := by
  cases hu : e.unitIn r with
  | error err' =>
    rw [applyUnit_of_error hu] at h ⊢
    cases h
    exact .inl ⟨rfl, rfl⟩
  | ok u =>
    have hs := symbol?_of_unitIn hu
    rw [applyUnit_of_ok hu] at h ⊢
    by_cases hl : e.prefixable = true → u.isAffine = false
    · obtain ⟨x, hx⟩ := total_declare hs hl e.name? e.aliases r
      rw [hx] at h
      cases h
    · obtain ⟨hp, ha⟩ := Classical.not_imp.mp hl
      have ha : u.isAffine = true := Bool.eq_true_of_not_eq_false ha
      obtain ⟨hregistry, hresult⟩ := declare_of_affine hs ha e.name? e.aliases r
      rw [hp] at h ⊢
      rw [hresult, text_eq_of_symbol? hs] at h
      cases h
      refine .inr ⟨u, rfl, rfl, ha, rfl, fun name => ?_⟩
      rw [hregistry]
      exact get?_bindAll_map (ownNames e) u r name

end

/-! ### Configurations -/

/-- **Rejected entries.**  An application that fails has applied all entries before one unit entry,
which is rejected.  Either its unit cannot be made, and the registry is the one of the entries before;
or its unit is affine and prefixes are asked for, and then its own names that were free are bound to
the unit, and nothing else is. -/
theorem rejected_entry_laws {c : Configuration Float} {r : Registry Float}
    {err : MeasureError Float} (h : (c.apply r).result = .error err) :
    ∃ before e after, c.units = before ++ e :: after ∧
      let prior := ({ c with units := before } : Configuration Float).apply r
      prior.result = .ok () ∧
        (e.unitIn prior.registry = .error err ∧ (c.apply r).registry = prior.registry ∨
          ∃ u, e.unitIn prior.registry = .ok u ∧ e.prefixable = true ∧ u.isAffine = true ∧
            err = .affineComposition (.prefixing Prefix.quetta.symbol e.symbol) ∧
            ∀ name, (c.apply r).registry.get? name =
              (prior.registry.get? name).or (if name ∈ ownNames e then some u else none)) := by
  -- base entries do not fail, so both applications are those of their unit entries after them
  obtain ⟨x, hx⟩ := total_applyBases (α := Float) rfl c.bases r
  have happly : ∀ units, ({ c with units } : Configuration Float).apply r = _ := fun units =>
    bind_of_ok (f := fun _ => applyUnits units) hx
  have hc : c.apply r = _ := happly c.units
  rw [hc] at h ⊢
  obtain ⟨before, e, after, hunits, hok, herror, hlast⟩ := applyUnits_eq_error h
  refine ⟨before, e, after, hunits, ?_⟩
  rw [happly before]
  refine ⟨hok, ?_⟩
  change _ ∨ ∃ u, _ ∧ _ ∧ _ ∧ _ ∧ ∀ name, (applyUnits c.units _).registry.get? name = _
  rw [hlast]
  exact applyUnit_eq_error herror

/-- An absolute temperature, and a scale on it with a zero of its own that asks for prefixes. -/
def celsiusUnderPrefixes : Configuration Float where
  bases := [⟨"K", none, "temperature", false, []⟩]
  units := [⟨"°C", some "celsius", "K", 1, 273.15, true, ["degC"]⟩]

/-- The scale is rejected, and bound to its symbol, its name and its alias all the same. -/
theorem rejected_entry_laws_celsius :
    let prior := ({ celsiusUnderPrefixes with units := [] } : Configuration Float).apply .empty
    (celsiusUnderPrefixes.apply .empty).result =
        .error (.affineComposition (.prefixing Prefix.quetta.symbol "°C")) ∧
      ∃ u : UnitOfMeasure Float, u.isAffine = true ∧
        ∀ name, (celsiusUnderPrefixes.apply .empty).registry.get? name =
          (prior.registry.get? name).or
            (if name ∈ ["°C", "celsius", "degC"] then some u else none) := by
  intro prior
  have hresult : (celsiusUnderPrefixes.apply .empty).result =
      .error (.affineComposition (.prefixing Prefix.quetta.symbol "°C")) := by rfl
  obtain ⟨before, e, after, hunits, -, hcase⟩ := rejected_entry_laws hresult
  have hbefore : before = [] := by
    cases before with
    | nil => rfl
    | cons b before => simpa [celsiusUnderPrefixes] using congrArg List.length hunits
  subst hbefore
  obtain ⟨rfl, -⟩ := List.cons.inj hunits
  rcases hcase with ⟨herror, -⟩ | ⟨u, -, -, ha, -, hget⟩
  · cases herror
  · exact ⟨hresult, u, ha, hget⟩

/-- A rejected entry is registered in part: its symbol, its name and its alias are free before it is
applied, and are bound by the application that fails because of it. -/
theorem exists_rejected_entry_registered :
    let prior := ({ celsiusUnderPrefixes with units := [] } : Configuration Float).apply .empty
    (celsiusUnderPrefixes.apply .empty).result =
        .error (.affineComposition (.prefixing Prefix.quetta.symbol "°C")) ∧
      prior.result = .ok () ∧
      (∀ name ∈ ["°C", "celsius", "degC"], prior.registry.contains name = false ∧
        (celsiusUnderPrefixes.apply .empty).registry.contains name = true) ∧
      (celsiusUnderPrefixes.apply .empty).registry ≠ prior.registry := by
  intro prior
  have hsize : (celsiusUnderPrefixes.apply .empty).registry.size ≠ prior.registry.size := by
    decide +kernel
  exact ⟨rfl, rfl, by decide +kernel, fun h => hsize (congrArg Registry.size h)⟩

end Configuration

end Metrology
