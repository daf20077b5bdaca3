import Metrology.Proofs.Registry.Rejection

/-!
# The names that a configuration declares

An entry declares its symbol, its name and its aliases and, if it is prefixable, its symbol and its name
under every prefix (`declaredNames`).  Whether a name is free when it is declared decides what it is
bound to, not whether it is bound, so a registration that succeeds adds just the names that it declares
(`Adds`).  The rules follow the structure of registrations, up to configurations (`adds_apply`).

So the names in scope at a unit entry are those of the registry, of all base entries and of the unit
entries before it, and the entry is rejected for an unknown unit exactly when the unit that it is
measured by is not among them (`scope_laws`).
-/

namespace Metrology

open Registry Result

variable {α β γ : Type}

/-- The names that an entry declares. -/
def declaredNames (symbol : String) (name? : Option String) (prefixable : Bool)
    (aliases : List String) : List String :=
  symbol :: (name?.toList ++ aliases) ++
    if prefixable then
      ("u" ++ symbol) :: Prefix.all.map (·.symbol ++ symbol) ++
        name?.toList.flatMap fun name => Prefix.all.map (·.name ++ name)
    else []

def BaseEntry.declared (e : BaseEntry) : List String :=
  declaredNames e.symbol e.name? e.prefixable e.aliases

def UnitEntry.declared (e : UnitEntry α) : List String :=
  declaredNames e.symbol e.name? e.prefixable e.aliases

theorem Registry.mem_names {r : Registry α} {name : String} :
    name ∈ r.names ↔ ∃ u, r.get? name = some u := by
  rw [names, List.mem_mergeSort, ← Option.ne_none_iff_exists', ne_eq, get?_eq_none_iff, not_not]

theorem Registry.lookup_eq_error_iff {r : Registry α} {name : String} {err : MeasureError α} :
    r.lookup name = .error err ↔ err = .unknownUnit name ∧ name ∉ r.names := by
  rw [mem_names]
  cases h : r.get? name <;> simp [Registry.lookup, h, eq_comm]

namespace Registration

/-- After a registration that succeeds, the names are those from before and the given ones. -/
def Adds (names : List String) (m : Registration α β) : Prop :=
  ∀ r x, (m r).result = .ok x →
    ∀ name, name ∈ (m r).registry.names ↔ name ∈ r.names ∨ name ∈ names

/-! ### Rules -/

theorem Adds.congr {a b : List String} {m : Registration α β} (h : Adds a m)
    (hab : ∀ name, name ∈ a ↔ name ∈ b) : Adds b m := by
  intro r x hx name
  rw [h r x hx, hab]

theorem adds_pure (x : β) : Adds [] (pure x : Registration α β) := by
  intro r y _ name
  simp only [List.not_mem_nil, or_false]
  exact Iff.rfl

/-- The second registration is looked at for the results that the first one can have. -/
theorem adds_bind {a b : List String} {m : Registration α β} {f : β → Registration α γ}
    (hm : Adds a m) (hf : ∀ r x, (m r).result = .ok x → Adds b (f x)) :
    Adds (a ++ b) (m >>= f) := by
  intro r y hy name
  cases hx : (m r).result with
  | error e =>
    rw [bind_of_error hx] at hy
    cases hy
  | ok x =>
    rw [bind_of_ok hx] at hy ⊢
    change name ∈ (f x (m r).registry).registry.names ↔ _
    rw [hf r x hx _ y hy, hm r x hx, List.mem_append, or_assoc]

/-- A result that is given binds nothing. -/
theorem adds_ofExcept_bind {a : List String} {x : Except (MeasureError α) β}
    {f : β → Registration α γ} (hf : ∀ y, x = .ok y → Adds a (f y)) :
    Adds a (ofExcept x >>= f) := by
  cases x with
  | error e =>
    intro r y hy
    cases (congrArg Outcome.result (bind_of_error (m := ofExcept (.error e)) rfl)).symm.trans hy
  | ok y =>
    rw [bind_ofExcept_ok]
    exact hf y rfl

section

variable [Scalar α] {u : UnitOfMeasure α} {symbol : String}

theorem adds_bindName (name : String) (u : UnitOfMeasure α) : Adds [name] (bindName name u) := by
  intro r x _ other
  rw [mem_names, mem_names, get?_bindName, List.mem_singleton]
  cases r.get? other with
  | some v => simp
  | none =>
    by_cases h : other = name <;> simp [h]

theorem adds_bindNames (u : UnitOfMeasure α) (names : List String) :
    Adds names (bindNames u names) := by
  induction names with
  | nil => exact adds_pure ()
  | cons name names ih => exact adds_bind (adds_bindName name u) fun _ _ _ => ih

theorem adds_define (hs : u.symbol? = some symbol) : Adds [symbol] (define u) := by
  rw [define_of_symbol? hs]
  exact adds_bindName symbol u

/-- The names of a unit under one prefix. -/
def namesUnder (symbol : String) (name? : Option String) (p : Prefix) : List String :=
  (p.symbol ++ symbol) :: prefixedNames symbol name? p

theorem adds_definePrefixed (hs : u.symbol? = some symbol) (name? : Option String)
    (prefixes : List Prefix) :
    Adds (prefixes.flatMap (namesUnder symbol name?)) (definePrefixed u symbol name? prefixes) := by
  induction prefixes with
  | nil => exact adds_pure 0
  | cons p prefixes ih =>
    refine adds_ofExcept_bind fun v hv => ?_
    have hv : v.symbol? = some (p.symbol ++ symbol) := by
      obtain ⟨-, rfl⟩ := UnitOfMeasure.prefixed_eq_ok_iff.mp hv
      rw [← UnitOfMeasure.text_eq_of_symbol? hs]
      rfl
    have hall := adds_bind (adds_define hv) fun _ defined _ =>
      adds_bind (adds_bindNames v (prefixedNames symbol name? p)) fun _ _ _ =>
        adds_bind ih fun _ count _ => adds_pure (α := α) (if defined then count + 1 else count)
    refine hall.congr fun name => ?_
    simp [namesUnder]

/-- What the names under all prefixes are, but for their order. -/
theorem mem_flatMap_namesUnder {name? : Option String} {name : String} :
    name ∈ Prefix.all.flatMap (namesUnder symbol name?) ↔
      name ∈ ("u" ++ symbol) :: Prefix.all.map (·.symbol ++ symbol) ++
        name?.toList.flatMap fun name => Prefix.all.map (·.name ++ name) := by
  simp only [List.mem_flatMap, namesUnder, prefixedNames, List.mem_cons, List.mem_append,
    List.mem_map, Option.mem_toList]
  constructor
  · rintro ⟨p, hp, rfl | hu | hname⟩
    · exact .inl (.inr ⟨p, hp, rfl⟩)
    · split at hu
      · exact .inl (.inl (List.mem_singleton.mp hu))
      · cases hu
    · cases name? with
      | none => cases hname
      | some long => exact .inr ⟨long, rfl, p, hp, (List.mem_singleton.mp hname).symm⟩
  · rintro ((rfl | ⟨p, hp, rfl⟩) | ⟨long, rfl, p, hp, rfl⟩)
    -- the name with the letter u comes from the one prefix that has it as a second symbol
    · exact ⟨.micro, Prefix.mem_all _, .inr (.inl (List.mem_singleton.mpr rfl))⟩
    · exact ⟨p, hp, .inl rfl⟩
    · exact ⟨p, hp, .inr (.inr (List.mem_singleton.mpr rfl))⟩

theorem adds_declare (hs : u.symbol? = some symbol) (name? : Option String) (prefixable : Bool)
    (aliases : List String) :
    Adds (declaredNames symbol name? prefixable aliases) (declare u name? prefixable aliases) := by
  have hfamily : Adds (if prefixable then Prefix.all.flatMap (namesUnder symbol name?) else [])
      (if prefixable then do let _ ← defineMetricFamily u name? else pure () :
        Registration α Unit) := by
    cases prefixable with
    | false => exact adds_pure ()
    | true =>
      have hall := adds_definePrefixed hs name? Prefix.all
      rw [← defineMetricFamily_of_symbol? hs] at hall
      have hpure := adds_bind hall fun _ _ _ => adds_pure (α := α) ()
      rwa [List.append_nil] at hpure
  have hall := adds_bind (adds_define hs) fun _ _ _ =>
    adds_bind (adds_bindNames u (name?.toList ++ aliases)) fun _ _ _ => hfamily
  refine hall.congr fun name => ?_
  rw [← List.append_assoc, declaredNames]
  refine List.mem_append.trans (Iff.trans (or_congr Iff.rfl ?_) List.mem_append.symm)
  cases prefixable with
  | false => exact Iff.rfl
  | true => exact mem_flatMap_namesUnder

end

end Registration

namespace Configuration

open Registration

section

variable [Scalar α] {e : UnitEntry α} {r : Registry α} {n : String}

/-! ### Names of configurations -/

theorem adds_applyBase (e : BaseEntry) : Adds e.declared (applyBase e : Registration α Unit) :=
  adds_declare rfl e.name? e.prefixable e.aliases

theorem adds_applyUnit (e : UnitEntry α) : Adds e.declared (applyUnit e) := by
  intro r x hx
  cases hu : e.unitIn r with
  | error err =>
    rw [applyUnit_of_error hu] at hx
    cases hx
  | ok u =>
    rw [applyUnit_of_ok hu] at hx ⊢
    exact adds_declare (symbol?_of_unitIn hu) e.name? e.prefixable e.aliases r x hx

theorem adds_applyBases (entries : List BaseEntry) :
    Adds (entries.flatMap BaseEntry.declared) (applyBases entries : Registration α Unit) := by
  induction entries with
  | nil => exact adds_pure ()
  | cons e entries ih => exact adds_bind (adds_applyBase e) fun _ _ _ => ih

theorem adds_applyUnits (entries : List (UnitEntry α)) :
    Adds (entries.flatMap UnitEntry.declared) (applyUnits entries) := by
  induction entries with
  | nil => exact adds_pure ()
  | cons e entries ih => exact adds_bind (adds_applyUnit e) fun _ _ _ => ih

theorem adds_apply (c : Configuration α) :
    Adds (c.bases.flatMap BaseEntry.declared ++ c.units.flatMap UnitEntry.declared) c.apply :=
  adds_bind (adds_applyBases c.bases) fun _ _ _ => adds_applyUnits c.units

/-! ### Unknown units -/

/-- The unit of an entry may be refused, but not for being unknown. -/
theorem unitOf_ne_unknownUnit (source : UnitOfMeasure α) :
    unitOf e source ≠ .error (.unknownUnit n) := by
  unfold unitOf UnitOfMeasure.scaled UnitOfMeasure.affine
  split_ifs <;> simp

theorem unitIn_eq_unknownUnit_iff :
    e.unitIn r = .error (.unknownUnit n) ↔ e.source = n ∧ n ∉ r.names := by
  rw [UnitEntry.unitIn, bind_eq_error, lookup_eq_error_iff]
  constructor
  · rintro (⟨herror, hn⟩ | ⟨source, -, hu⟩)
    · cases herror
      exact ⟨rfl, hn⟩
    · exact absurd hu (unitOf_ne_unknownUnit source)
  · rintro ⟨rfl, hn⟩
    exact .inl ⟨rfl, hn⟩

theorem applyUnit_eq_unknownUnit_iff :
    (applyUnit e r).result = .error (.unknownUnit n) ↔ e.source = n ∧ n ∉ r.names := by
  rw [← unitIn_eq_unknownUnit_iff]
  constructor
  · intro h
    rcases applyUnit_eq_error h with ⟨hu, -⟩ | ⟨u, -, -, -, herror, -⟩
    · exact hu
    · cases herror
  · intro h
    rw [applyUnit_of_error h]

/-- The application of unit entries ends at the first that is rejected. -/
theorem result_applyUnits_of_error {before : List (UnitEntry α)} {err : MeasureError α}
    (hbefore : (applyUnits before r).result = .ok ())
    (he : (applyUnit e (applyUnits before r).registry).result = .error err)
    (after : List (UnitEntry α)) : (applyUnits (before ++ e :: after) r).result = .error err := by
  induction before generalizing r with
  | nil =>
    have he : (applyUnit e r).result = .error err := he
    rw [List.nil_append, applyUnits_cons_of_error he]
  | cons e' before ih =>
    cases he' : (applyUnit e' r).result with
    | error err' =>
      rw [applyUnits_cons_of_error he'] at hbefore
      cases hbefore
    | ok x =>
      rw [applyUnits_cons_of_ok he'] at hbefore he
      rw [List.cons_append, applyUnits_cons_of_ok he']
      exact ih hbefore he

theorem applyUnits_eq_unknownUnit_iff {entries : List (UnitEntry α)} :
    (applyUnits entries r).result = .error (.unknownUnit n) ↔
      ∃ before e after, entries = before ++ e :: after ∧ e.source = n ∧
        (applyUnits before r).result = .ok () ∧ n ∉ (applyUnits before r).registry.names := by
  constructor
  · intro h
    obtain ⟨before, e, after, hentries, hok, herror, -⟩ := applyUnits_eq_error h
    obtain ⟨hsource, hn⟩ := applyUnit_eq_unknownUnit_iff.mp herror
    exact ⟨before, e, after, hentries, hsource, hok, hn⟩
  · rintro ⟨before, e, after, rfl, hsource, hok, hn⟩
    exact result_applyUnits_of_error hok (applyUnit_eq_unknownUnit_iff.mpr ⟨hsource, hn⟩) after

end

/-! ### Scopes -/

/-- Base entries do not fail, so an application ends as that of its unit entries after them. -/
theorem apply_eq_applyUnits (c : Configuration Float) (r : Registry Float) :
    (c.apply r).result = (applyUnits c.units (applyBases c.bases r).registry).result ∧
      (c.apply r).registry = (applyUnits c.units (applyBases c.bases r).registry).registry := by
  obtain ⟨x, hx⟩ := total_applyBases (α := Float) rfl c.bases r
  have happly : c.apply r = _ := bind_of_ok (f := fun _ => applyUnits c.units) hx
  rw [happly]
  exact ⟨rfl, rfl⟩

theorem mem_names_apply {c : Configuration Float} {r : Registry Float}
    (h : (c.apply r).result = .ok ()) (name : String) :
    name ∈ (c.apply r).registry.names ↔
      name ∈ r.names ∨ (∃ e ∈ c.bases, name ∈ e.declared) ∨ ∃ e ∈ c.units, name ∈ e.declared := by
  rw [adds_apply c r () h, List.mem_append, List.mem_flatMap, List.mem_flatMap]

/-- **Scopes.**  Base entries do not fail.  When an application succeeds, the names are those of the
registry and those that the entries declare, whatever conflicts there were.  It fails for an unknown
unit exactly when a unit entry is measured by a name that is neither in the registry nor declared by a
base entry or an earlier unit entry, and all earlier unit entries succeed. -/
theorem scope_laws (c : Configuration Float) (r : Registry Float) :
    (∀ (e : BaseEntry) (r : Registry Float), (applyBase e r).result = .ok ()) ∧
      ((c.apply r).result = .ok () → ∀ name, name ∈ (c.apply r).registry.names ↔
        name ∈ r.names ∨ (∃ e ∈ c.bases, name ∈ e.declared) ∨
          ∃ e ∈ c.units, name ∈ e.declared) ∧
      ∀ n, (c.apply r).result = .error (.unknownUnit n) ↔
        ∃ before e after, c.units = before ++ e :: after ∧ e.source = n ∧
          (({ c with units := before } : Configuration Float).apply r).result = .ok () ∧
          n ∉ r.names ∧ (∀ e ∈ c.bases, n ∉ e.declared) ∧ ∀ e ∈ before, n ∉ e.declared := by
  refine ⟨fun e r => (total_applyBase rfl e r).choose_spec, mem_names_apply, fun n => ?_⟩
  rw [(apply_eq_applyUnits c r).1, applyUnits_eq_unknownUnit_iff]
  refine exists_congr fun before => exists_congr fun e => exists_congr fun after => ?_
  obtain ⟨hresult, hregistry⟩ := apply_eq_applyUnits { c with units := before } r
  rw [← hresult, ← hregistry]
  refine and_congr_right fun _ => and_congr_right fun _ => and_congr_right fun hok => ?_
  rw [mem_names_apply hok, not_or, not_or]
  simp only [not_exists, not_and]

/-- A bit under all prefixes, and a byte of eight bits under all prefixes. -/
def informationUnits : Configuration Float where
  bases := [⟨"bit", some "bit", "information", true, []⟩]
  units := [⟨"B", some "byte", "bit", 8, 0, true, ["octet"]⟩]

/-- The names under prefixes are in scope for the entries that follow, but there are no binary
prefixes. -/
theorem scope_laws_information :
    let page : UnitEntry Float := ⟨"page", none, "KiB", 4, 0, false, []⟩
    let pages : Configuration Float :=
      { informationUnits with units := informationUnits.units ++ [page] }
    (informationUnits.apply .empty).result = .ok () ∧
      "kilobyte" ∈ (informationUnits.apply .empty).registry.names ∧
      "KiB" ∉ (informationUnits.apply .empty).registry.names ∧
      (pages.apply .empty).result = .error (.unknownUnit "KiB") := by
  intro page pages
  obtain ⟨x, hok⟩ : ∃ x, (informationUnits.apply .empty).result = .ok x :=
    exists_of_isOk (by decide +kernel)
  obtain ⟨-, hnames, -⟩ := scope_laws informationUnits .empty
  obtain ⟨-, -, hunknown⟩ := scope_laws pages .empty
  refine ⟨hok, (hnames hok _).mpr (by decide +kernel), fun h => ?_, (hunknown _).mpr ?_⟩
  · exact absurd ((hnames hok _).mp h) (by decide +kernel)
  · exact ⟨informationUnits.units, page, [], rfl, rfl, hok, by decide +kernel⟩

end Configuration

end Metrology
