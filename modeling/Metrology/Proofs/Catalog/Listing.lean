import Metrology.Catalog.Builtin
import Metrology.Proofs.Catalog.Names
import Metrology.Proofs.Registry.Rejection
import Metrology.Proofs.UnitOfMeasure.NormalForm

/-!
# What the catalog binds

All units of the catalog come about by the operations on units, and the symbol of each is bound to an
equal unit (`exists_symbol_builtin`).  The catalog is gone through part by part under an invariant that
knows the names of the lines so far (`Tidy`).  A line keeps it because its symbol is new.  Only `kg` is
the symbol of two lines, but whatever is registered under it is equal to the base unit of mass.

`Lists lines m R` says that a registration keeps the invariant over given lines, also when it fails
halfway, and that its result has a property.
-/

namespace Metrology.Catalog

open Registration Registry UnitOfMeasure

variable {β γ : Type} {u v : UnitOfMeasure Float} {symbol name : String} {seen : List String}
  {r : Registry Float}

/-! ### The invariant -/

/-- The base unit of mass. -/
def kilogram : UnitOfMeasure Float :=
  base "kg" (.of .mass)

/-- A unit of a symbol that can be built. -/
structure Named (symbol : String) (u : UnitOfMeasure Float) : Prop where
  reachable : Reachable u
  symbol_eq : u.symbol? = some symbol

/-- A unit that may be registered under its symbol. -/
structure Proper (symbol : String) (u : UnitOfMeasure Float) : Prop extends Named symbol u where
  eq_kilogram : symbol = "kg" → (u == kilogram) = true

/-- A registry of units that can be built, where the symbol of each is bound to an equal unit, and all
names are among the given ones. -/
structure Tidy (seen : List String) (r : Registry Float) : Prop where
  mem : ∀ name u, r.get? name = some u → name ∈ seen
  symbol : ∀ name u, r.get? name = some u → Reachable u ∧
    ∃ symbol v, u.symbol? = some symbol ∧ r.get? symbol = some v ∧ (v == u) = true
  eq_kilogram : ∀ u, r.get? "kg" = some u → (u == kilogram) = true

theorem tidy_empty : Tidy [] .empty where
  mem name u h := by cases h
  symbol name u h := by cases h
  eq_kilogram u h := by cases h

theorem Tidy.mono {seen' : List String} (h : Tidy seen r) (hs : ∀ name ∈ seen, name ∈ seen') :
    Tidy seen' r :=
  ⟨fun name u hu => hs name (h.mem name u hu), h.symbol, h.eq_kilogram⟩

/-- What is bound after a line was bound before, or is the unit of the line. -/
theorem get?_of_bind_line {names : List String}
    (h : (bindAll (names.map (·, u)) r).registry.get? name = some v) :
    r.get? name = some v ∨ (name ∈ names ∧ v = u) := by
  rw [get?_bindAll_map, Option.or_eq_some_iff] at h
  rcases h with h | ⟨-, h⟩
  · exact .inl h
  · split at h
    · cases h
      exact .inr ⟨by assumption, rfl⟩
    · cases h

/-- A symbol that is new is bound to the unit, and `kg` is bound to an equal unit in any case. -/
theorem Tidy.get?_symbol (h : Tidy seen r) (hu : Proper symbol u)
    (hnew : symbol ∉ seen ∨ symbol = "kg") (names : List String) :
    ∃ v, (bindAll ((symbol :: names).map (·, u)) r).registry.get? symbol = some v ∧
      (v == u) = true := by
  cases hold : r.get? symbol with
  | none =>
    refine ⟨u, ?_, beq_self u⟩
    rw [get?_bindAll_map, hold, if_pos List.mem_cons_self, Option.none_or]
  | some v =>
    have hkg := hnew.resolve_left fun hn => hn (h.mem _ _ hold)
    refine ⟨v, extends_bindAll _ r _ _ hold, ?_⟩
    rw [hkg] at hold
    exact BEq.trans (h.eq_kilogram v hold) (BEq.symm (hu.eq_kilogram hkg))

/-- A unit is bound to the names of a line whose symbol is new. -/
theorem Tidy.bind_line {l : Line} (h : Tidy seen r) (hu : Proper l.symbol.text u)
    (hnew : l.symbol.text ∉ seen ∨ l.symbol.text = "kg") (hothers : "kg" ∉ l.otherNames) :
    Tidy (l.names ++ seen) (bindAll (l.names.map (·, u)) r).registry where
  mem name v hv := by
    rcases get?_of_bind_line hv with hold | ⟨hn, -⟩
    · exact List.mem_append_right _ (h.mem name v hold)
    · exact List.mem_append_left _ hn
  symbol name v hv := by
    rcases get?_of_bind_line hv with hold | ⟨-, rfl⟩
    · obtain ⟨hreachable, symbol, w, hs, hw, heq⟩ := h.symbol name v hold
      exact ⟨hreachable, symbol, w, hs, extends_bindAll _ r _ _ hw, heq⟩
    · obtain ⟨w, hw, heq⟩ := h.get?_symbol hu hnew l.otherNames
      exact ⟨hu.reachable, l.symbol.text, w, hu.symbol_eq, hw, heq⟩
  eq_kilogram v hv := by
    rcases get?_of_bind_line hv with hold | ⟨hn, rfl⟩
    · exact h.eq_kilogram v hold
    · exact hu.eq_kilogram ((List.mem_cons.mp hn).resolve_right hothers).symm

/-! ### Rules -/

/-- A registration keeps the invariant over some lines, and its result has a property, if there is a
result. -/
def Lists (lines : List Line) (m : Registration Float β) (R : β → Prop) : Prop :=
  ∀ seen r, FreshAfter seen lines → Tidy seen r →
    Tidy (namesAfter seen lines) (m r).registry ∧ ∀ x, (m r).result = .ok x → R x

variable {lines lines' : List Line} {R : β → Prop} {S : γ → Prop}

theorem lists_ofExcept {x : Except (MeasureError Float) β} (h : ∀ y, x = .ok y → R y) :
    Lists [] (ofExcept x) R :=
  fun _ _ _ hr => ⟨hr, h⟩

theorem lists_pure {x : β} (h : R x) : Lists [] (pure x : Registration Float β) R :=
  lists_ofExcept fun y hy => by
    cases hy
    exact h

theorem lists_lookup (name : String) : Lists [] (lookup name) Reachable :=
  fun _ _ _ hr => ⟨hr, fun u hu => (hr.symbol name u (lookup_eq_ok_iff.mp hu)).1⟩

theorem lists_bind {m : Registration Float β} {f : β → Registration Float γ}
    (hm : Lists lines m R) (hf : ∀ x, R x → Lists lines' (f x) S) :
    Lists (lines ++ lines') (m >>= f) S := by
  intro seen r hfresh hr
  obtain ⟨hfirst, hlast⟩ := hfresh.of_append
  obtain ⟨hregistry, hresult⟩ := hm seen r hfirst hr
  rw [namesAfter_append]
  cases hx : (m r).result with
  | error e =>
    rw [bind_of_error hx]
    -- the lines that are not reached add names only
    exact ⟨hregistry.mono fun name hn => mem_namesAfter.mpr (.inl hn), fun y hy => by cases hy⟩
  | ok x =>
    rw [bind_of_ok hx]
    exact hf x (hresult x hx) _ _ hlast hregistry

/-- What binds nothing comes before the lines. -/
theorem lists_step {m : Registration Float β} {f : β → Registration Float γ} (hm : Lists [] m R)
    (hf : ∀ x, R x → Lists lines (f x) S) : Lists lines (m >>= f) S :=
  lists_bind hm hf

/-- A unit is bound to the names of a line, its symbol first. -/
theorem lists_define_bind {l : Line} {f : Bool → Registration Float γ}
    (hu : Proper l.symbol.text u) (hf : ∀ b, Lists lines (f b) S) :
    Lists (l :: lines) (define u >>= fun b => bindNames u l.otherNames >>= fun _ => f b) S := by
  intro seen r hfresh hr
  obtain ⟨hnew, hothers, hlines⟩ := hfresh
  obtain ⟨b, hb⟩ := total_define hu.symbol_eq r
  obtain ⟨x, hx⟩ := total_bindNames u l.otherNames (define u r).registry
  have hown : (bindNames u l.otherNames (define u r).registry).registry =
      (bindAll (l.names.map (·, u)) r).registry := by
    rw [bindNames_eq_bindAll, define_of_symbol? hu.symbol_eq]
    change _ = (bindAll ((l.symbol.text, u) :: _) r).registry
    rw [bindAll_cons]
  rw [bind_of_ok hb, bind_of_ok hx, hown]
  exact hf b _ _ hlines (hr.bind_line hu hnew hothers)

/-! ### Declarations -/

theorem lists_definePrefixed {e : Entry}
    (h : ∀ p v, prefixed p u = .ok v → Proper (p.symbol ++ e.symbol) v) (prefixes : List Prefix) :
    Lists (prefixes.map e.under) (definePrefixed u e.symbol (some e.name) prefixes)
      fun _ => True := by
  induction prefixes with
  | nil => exact lists_pure trivial
  | cons p prefixes ih =>
    have hprefixed := lists_ofExcept (x := prefixed p u) (h p)
    refine lists_step hprefixed fun v hv => ?_
    rw [← e.otherNames_under]
    refine lists_define_bind hv fun defined => ?_
    rw [← List.append_nil (prefixes.map _)]
    exact lists_bind ih fun count _ => lists_pure trivial

/-- A unit is declared as its entry says. -/
theorem lists_declare {e : Entry} (hu : Proper e.symbol u)
    (hp : e.prefixable = true → ∀ p v, prefixed p u = .ok v → Proper (p.symbol ++ e.symbol) v) :
    Lists e.lines (declare u (some e.name) e.prefixable e.aliases) fun _ => True := by
  change Lists (e.own :: _) (define u >>= fun _ => bindNames u (e.name :: e.aliases) >>= fun _ => _) _
  rw [← e.otherNames_own]
  refine lists_define_bind hu fun _ => ?_
  cases hprefixable : e.prefixable with
  | false => exact lists_pure trivial
  | true =>
    rw [if_pos rfl, if_pos rfl, defineMetricFamily_of_symbol? hu.symbol_eq,
      ← List.append_nil (Prefix.all.map _)]
    exact lists_bind (lists_definePrefixed (hp hprefixable) _) fun _ _ => lists_pure trivial

/-- The first line of the rest is that of the entry at hand. -/
theorem lists_entry {e : Entry} {es : List Entry} {m : Registration Float β}
    {f : β → Registration Float γ} (hm : Lists e.lines m R)
    (hf : ∀ x, R x → Lists (es.flatMap Entry.lines) (f x) S) :
    Lists ((e :: es).flatMap Entry.lines) (m >>= f) S :=
  lists_bind hm hf

theorem lists_last {e : Entry} {m : Registration Float β} (hm : Lists e.lines m R) :
    Lists ([e].flatMap Entry.lines) m R := by
  rwa [List.flatMap_singleton]

/-- Under a prefix, `kg` is the kilogram as a multiple of the gram. -/
theorem eq_of_append_eq_kg {p : Prefix} {s : String} (h : p.symbol ++ s = "kg") :
    p = .kilo ∧ s = "g" := by
  have hchars := congrArg String.toList h
  rw [String.toList_append] at hchars
  cases p <;> simp [Prefix.symbol] at hchars
  exact ⟨rfl, String.toList_injective hchars⟩

theorem named_prefixed {p : Prefix} (hu : Named symbol u) (h : prefixed p u = .ok v) :
    Named (p.symbol ++ symbol) v := by
  refine ⟨.prefixed hu.reachable h, ?_⟩
  obtain ⟨-, rfl⟩ := prefixed_eq_ok_iff.mp h
  rw [← text_eq_of_symbol? hu.symbol_eq]
  rfl

/-- Most entries have nothing to do with the kilogram. -/
theorem lists_unit {e : Entry} (hu : Named e.symbol u) (he : e.symbol ∉ ["kg", "g"]) :
    Lists e.lines (declare u (some e.name) e.prefixable e.aliases) fun _ => True := by
  refine lists_declare ⟨hu, fun hs => ?_⟩ fun _ p v hv => ⟨named_prefixed hu hv, fun hs => ?_⟩
  · simp [hs] at he
  · simp [(eq_of_append_eq_kg hs).2] at he

/-! ### Rules for definitions -/

theorem named_base (symbol : String) (d : Dimension) : Named symbol (base symbol d) :=
  ⟨.base symbol d, rfl⟩

theorem named_withSymbol (hu : Reachable u) (symbol : String) :
    Named symbol (u.withSymbol symbol) :=
  ⟨.withSymbol hu symbol, rfl⟩

theorem named_scaled {factor : Float} (hu : Reachable u) (h : scaled symbol u factor = .ok v) :
    Named symbol v := by
  refine ⟨.scaled hu h, ?_⟩
  obtain ⟨-, -, rfl⟩ := scaled_eq_ok_iff.mp h
  rfl

theorem lists_scaled {factor : Float} (hu : Reachable u) :
    Lists [] (ofExcept (scaled symbol u factor)) (Named symbol) :=
  lists_ofExcept fun _ h => named_scaled hu h

theorem lists_asUnit {value : Float} (hu : Reachable u) :
    Lists [] (ofExcept (Quantity.asUnit ⟨value, u⟩ symbol)) (Named symbol) :=
  lists_ofExcept fun _ h => named_scaled hu (asUnit_eq_ok_iff.mp h)

theorem lists_affine {factor offset : Float} (hu : Reachable u) :
    Lists [] (ofExcept (affine symbol u factor offset)) (Named symbol) := by
  refine lists_ofExcept fun v h => ⟨.affine hu h, ?_⟩
  obtain ⟨-, -, -, rfl⟩ := affine_eq_ok_iff.mp h
  rfl

theorem lists_prefixed {p : Prefix} (hu : Named symbol u) :
    Lists [] (ofExcept (prefixed p u)) (Named (p.symbol ++ symbol)) :=
  lists_ofExcept fun _ h => named_prefixed hu h

theorem lists_multiply (hu : Reachable u) (hv : Reachable v) :
    Lists [] (ofExcept (u.multiply v)) Reachable :=
  lists_ofExcept fun _ => .multiply hu hv

theorem lists_divide (hu : Reachable u) (hv : Reachable v) :
    Lists [] (ofExcept (u.divide v)) Reachable :=
  lists_ofExcept fun _ => .divide hu hv

theorem lists_invert (hu : Reachable u) : Lists [] (ofExcept u.invert) Reachable :=
  lists_ofExcept fun _ => hu.invert

theorem lists_power {p : Exponent} (hu : Reachable u) : Lists [] (ofExcept (u.power p)) Reachable :=
  lists_ofExcept fun _ => .power hu trivial

/-! ### The parts of the catalog -/

/-- A thousand grams are the base unit again. -/
theorem beq_kilogram_of_gram (hu : scaled "g" kilogram 1e-3 = .ok u)
    (hv : prefixed .kilo u = .ok v) : (v == kilogram) = true := by
  obtain ⟨-, -, rfl⟩ := scaled_eq_ok_iff.mp hu
  obtain ⟨-, rfl⟩ := prefixed_eq_ok_iff.mp hv
  decide +kernel

theorem lists_baseUnits : Lists (baseEntries.flatMap Entry.lines) baseUnits fun _ => True := by
  refine lists_entry (lists_unit (named_base _ _) (by decide)) fun _ _ => ?_
  refine lists_entry (lists_unit (named_base _ _) (by decide)) fun _ _ => ?_
  refine lists_entry (lists_unit (named_base _ _) (by decide)) fun _ _ => ?_
  refine lists_entry (lists_unit (named_base _ _) (by decide)) fun _ _ => ?_
  refine lists_entry (lists_unit (named_base _ _) (by decide)) fun _ _ => ?_
  refine lists_entry (lists_unit (named_base _ _) (by decide)) fun _ _ => ?_
  have hkilogram : Proper "kg" kilogram := ⟨named_base _ _, fun _ => beq_self _⟩
  refine lists_entry (lists_declare hkilogram fun hp => by cases hp) fun _ _ => ?_
  refine lists_step (lists_ofExcept fun gram hgram => hgram) fun gram hgram => ?_
  have hnamed := named_scaled hkilogram.reachable hgram
  refine lists_last (lists_declare ⟨hnamed, fun hs => ?_⟩ fun _ p v hv =>
    ⟨named_prefixed hnamed hv, fun hs => ?_⟩)
  · cases (show "g" ≠ "kg" by decide) hs
  · obtain ⟨rfl, -⟩ := eq_of_append_eq_kg hs
    exact beq_kilogram_of_gram hgram hv

theorem lists_derivedUnits :
    Lists (derivedEntries.flatMap Entry.lines) derivedUnits fun _ => True := by
  refine lists_step (lists_lookup _) fun m hm => ?_
  refine lists_step (lists_lookup _) fun kg hkg => ?_
  refine lists_step (lists_lookup _) fun s hs => ?_
  refine lists_step (lists_lookup _) fun a ha => ?_
  refine lists_step (lists_lookup _) fun mol hmol => ?_
  refine lists_step (lists_lookup _) fun cd hcd => ?_
  refine lists_step (lists_power hm) fun m2 hm2 => ?_
  refine lists_step (lists_invert hs) fun hertz hhertz => ?_
  refine lists_step (lists_multiply hkg hm) fun momentum hmomentum => ?_
  refine lists_step (lists_power hs) fun s2 hs2 => ?_
  refine lists_step (lists_divide hmomentum hs2) fun newton hnewton => ?_
  refine lists_step (lists_divide (.withSymbol hnewton _) hm2) fun pascal hpascal => ?_
  refine lists_step (lists_multiply (.withSymbol hnewton _) hm) fun joule hjoule => ?_
  refine lists_step (lists_divide (.withSymbol hjoule _) hs) fun watt hwatt => ?_
  refine lists_step (lists_multiply ha hs) fun coulomb hcoulomb => ?_
  refine lists_step (lists_divide (.withSymbol hwatt _) ha) fun volt hvolt => ?_
  refine lists_step (lists_divide (.withSymbol hcoulomb _) (.withSymbol hvolt _))
    fun farad hfarad => ?_
  refine lists_step (lists_divide (.withSymbol hvolt _) ha) fun ohm hohm => ?_
  refine lists_step (lists_invert (.withSymbol hohm _)) fun siemens hsiemens => ?_
  refine lists_step (lists_multiply (.withSymbol hvolt _) hs) fun weber hweber => ?_
  refine lists_step (lists_divide (.withSymbol hweber _) hm2) fun tesla htesla => ?_
  refine lists_step (lists_divide (.withSymbol hweber _) ha) fun henry hhenry => ?_
  refine lists_step (lists_divide (.withSymbol hjoule _) hkg) fun gray hgray => ?_
  refine lists_step (lists_divide (.withSymbol hjoule _) hkg) fun sievert hsievert => ?_
  refine lists_step (lists_invert hs) fun becquerel hbecquerel => ?_
  refine lists_step (lists_divide hmol hs) fun katal hkatal => ?_
  refine lists_step (lists_divide hm hm) fun radian hradian => ?_
  refine lists_step (lists_divide hm2 hm2) fun steradian hsteradian => ?_
  refine lists_step (lists_multiply hcd (.withSymbol hsteradian _)) fun lumen hlumen => ?_
  refine lists_step (lists_divide (.withSymbol hlumen _) hm2) fun lux hlux => ?_
  refine lists_entry (lists_unit (named_withSymbol hhertz _) (by decide)) fun _ _ => ?_
  refine lists_entry (lists_unit (named_withSymbol hnewton _) (by decide)) fun _ _ => ?_
  refine lists_entry (lists_unit (named_withSymbol hpascal _) (by decide)) fun _ _ => ?_
  refine lists_entry (lists_unit (named_withSymbol hjoule _) (by decide)) fun _ _ => ?_
  refine lists_entry (lists_unit (named_withSymbol hwatt _) (by decide)) fun _ _ => ?_
  refine lists_entry (lists_unit (named_withSymbol hcoulomb _) (by decide)) fun _ _ => ?_
  refine lists_entry (lists_unit (named_withSymbol hvolt _) (by decide)) fun _ _ => ?_
  refine lists_entry (lists_unit (named_withSymbol hfarad _) (by decide)) fun _ _ => ?_
  refine lists_entry (lists_unit (named_withSymbol hohm _) (by decide)) fun _ _ => ?_
  refine lists_entry (lists_unit (named_withSymbol hsiemens _) (by decide)) fun _ _ => ?_
  refine lists_entry (lists_unit (named_withSymbol hweber _) (by decide)) fun _ _ => ?_
  refine lists_entry (lists_unit (named_withSymbol htesla _) (by decide)) fun _ _ => ?_
  refine lists_entry (lists_unit (named_withSymbol hhenry _) (by decide)) fun _ _ => ?_
  refine lists_entry (lists_unit (named_withSymbol hgray _) (by decide)) fun _ _ => ?_
  refine lists_entry (lists_unit (named_withSymbol hsievert _) (by decide)) fun _ _ => ?_
  refine lists_entry (lists_unit (named_withSymbol hbecquerel _) (by decide)) fun _ _ => ?_
  refine lists_entry (lists_unit (named_withSymbol hkatal _) (by decide)) fun _ _ => ?_
  refine lists_entry (lists_unit (named_withSymbol hlumen _) (by decide)) fun _ _ => ?_
  refine lists_entry (lists_unit (named_withSymbol hlux _) (by decide)) fun _ _ => ?_
  refine lists_entry (lists_unit (named_withSymbol hradian _) (by decide)) fun _ _ => ?_
  exact lists_last (lists_unit (named_withSymbol hsteradian _) (by decide))

theorem lists_temperatureScales :
    Lists (temperatureEntries.flatMap Entry.lines) temperatureScales fun _ => True := by
  refine lists_step (lists_lookup _) fun kelvin hkelvin => ?_
  refine lists_step (lists_affine hkelvin) fun celsius hcelsius => ?_
  refine lists_step (lists_affine hkelvin) fun fahrenheit hfahrenheit => ?_
  refine lists_step (lists_scaled hkelvin) fun rankine hrankine => ?_
  refine lists_entry (lists_unit hcelsius (by decide)) fun _ _ => ?_
  refine lists_entry (lists_unit hfahrenheit (by decide)) fun _ _ => ?_
  exact lists_last (lists_unit hrankine (by decide))

theorem lists_timeUnits : Lists (timeEntries.flatMap Entry.lines) timeUnits fun _ => True := by
  refine lists_step (lists_lookup _) fun second hsecond => ?_
  refine lists_step (lists_scaled hsecond) fun minute hminute => ?_
  refine lists_step (lists_scaled hminute.reachable) fun hour hhour => ?_
  refine lists_step (lists_scaled hhour.reachable) fun day hday => ?_
  refine lists_step (lists_scaled hday.reachable) fun week hweek => ?_
  refine lists_step (lists_scaled hday.reachable) fun year hyear => ?_
  refine lists_entry (lists_unit hminute (by decide)) fun _ _ => ?_
  refine lists_entry (lists_unit hhour (by decide)) fun _ _ => ?_
  refine lists_entry (lists_unit hday (by decide)) fun _ _ => ?_
  refine lists_entry (lists_unit hweek (by decide)) fun _ _ => ?_
  exact lists_last (lists_unit hyear (by decide))

theorem lists_generalUnits :
    Lists (generalEntries.flatMap Entry.lines) generalUnits fun _ => True := by
  refine lists_step (lists_lookup _) fun m hm => ?_
  refine lists_step (lists_lookup _) fun kg hkg => ?_
  refine lists_step (lists_lookup _) fun pascal hpascal => ?_
  refine lists_step (lists_lookup _) fun joule hjoule => ?_
  refine lists_step (lists_lookup _) fun watt hwatt => ?_
  refine lists_step (lists_lookup _) fun hour hhour => ?_
  refine lists_step (lists_lookup _) fun radian hradian => ?_
  refine lists_step (lists_power hm) fun m3 hm3 => ?_
  refine lists_step (lists_scaled hm3) fun litre hlitre => ?_
  refine lists_entry (lists_unit hlitre (by decide)) fun _ _ => ?_
  refine lists_step (lists_power hm) fun m2 hm2 => ?_
  refine lists_step (lists_scaled hm2) fun hectare hhectare => ?_
  refine lists_entry (lists_unit hhectare (by decide)) fun _ _ => ?_
  refine lists_step (lists_scaled hkg) fun tonne htonne => ?_
  refine lists_entry (lists_unit htonne (by decide)) fun _ _ => ?_
  refine lists_step (lists_scaled hm) fun angstrom hangstrom => ?_
  refine lists_entry (lists_unit hangstrom (by decide)) fun _ _ => ?_
  refine lists_step (lists_scaled hpascal) fun bar hbar => ?_
  refine lists_entry (lists_unit hbar (by decide)) fun _ _ => ?_
  refine lists_step (lists_scaled hpascal) fun atmosphere hatmosphere => ?_
  refine lists_entry (lists_unit hatmosphere (by decide)) fun _ _ => ?_
  refine lists_step (lists_scaled hjoule) fun electronvolt helectronvolt => ?_
  refine lists_entry (lists_unit helectronvolt (by decide)) fun _ _ => ?_
  refine lists_step (lists_scaled hjoule) fun calorie hcalorie => ?_
  refine lists_entry (lists_unit hcalorie (by decide)) fun _ _ => ?_
  refine lists_step (lists_multiply hwatt hhour) fun wattHour hwattHour => ?_
  refine lists_entry (lists_unit (named_withSymbol hwattHour _) (by decide)) fun _ _ => ?_
  refine lists_step (lists_asUnit hjoule) fun btu hbtu => ?_
  refine lists_entry (lists_unit hbtu (by decide)) fun _ _ => ?_
  refine lists_step (lists_scaled hjoule) fun erg herg => ?_
  refine lists_entry (lists_unit herg (by decide)) fun _ _ => ?_
  refine lists_step (lists_scaled hradian) fun degree hdegree => ?_
  refine lists_entry (lists_unit hdegree (by decide)) fun _ _ => ?_
  refine lists_step (lists_scaled hdegree.reachable) fun arcminute harcminute => ?_
  refine lists_entry (lists_unit harcminute (by decide)) fun _ _ => ?_
  refine lists_step (lists_scaled hdegree.reachable) fun arcsecond harcsecond => ?_
  exact lists_last (lists_unit harcsecond (by decide))

theorem lists_customaryLengths :
    Lists (lengthEntries.flatMap Entry.lines) customaryLengths fun _ => True := by
  refine lists_step (lists_lookup _) fun m hm => ?_
  refine lists_step (lists_scaled hm) fun inchUnit hinchUnit => ?_
  refine lists_step (lists_scaled hinchUnit.reachable) fun foot hfoot => ?_
  refine lists_step (lists_scaled hfoot.reachable) fun yard hyard => ?_
  refine lists_step (lists_scaled hyard.reachable) fun mile hmile => ?_
  refine lists_step (lists_scaled hm) fun nauticalMile hnauticalMile => ?_
  refine lists_entry (lists_unit hinchUnit (by decide)) fun _ _ => ?_
  refine lists_entry (lists_unit hfoot (by decide)) fun _ _ => ?_
  refine lists_entry (lists_unit hyard (by decide)) fun _ _ => ?_
  refine lists_entry (lists_unit hmile (by decide)) fun _ _ => ?_
  exact lists_last (lists_unit hnauticalMile (by decide))

theorem lists_customaryUnits :
    Lists (customaryEntries.flatMap Entry.lines) customaryUnits fun _ => True := by
  refine lists_step (lists_lookup _) fun m hm => ?_
  refine lists_step (lists_lookup _) fun s hs => ?_
  refine lists_step (lists_lookup _) fun hour hhour => ?_
  refine lists_step (lists_lookup _) fun kg hkg => ?_
  refine lists_step (lists_scaled hkg) fun poundUnit hpoundUnit => ?_
  refine lists_entry (lists_unit hpoundUnit (by decide)) fun _ _ => ?_
  refine lists_step (lists_scaled hpoundUnit.reachable) fun ounce hounce => ?_
  refine lists_entry (lists_unit hounce (by decide)) fun _ _ => ?_
  refine lists_step (lists_lookup _) fun litre hlitre => ?_
  refine lists_step (lists_scaled hlitre) fun gallon hgallon => ?_
  refine lists_entry (lists_unit hgallon (by decide)) fun _ _ => ?_
  refine lists_step (lists_power hs) fun s2 hs2 => ?_
  refine lists_step (lists_divide hm hs2) fun acceleration hacceleration => ?_
  refine lists_step (lists_scaled hacceleration) fun gravity hgravity => ?_
  refine lists_step (lists_multiply hpoundUnit.reachable hgravity.reachable) fun force hforce => ?_
  refine lists_step (lists_lookup _) fun inchUnit hinchUnit => ?_
  refine lists_step (lists_power hinchUnit) fun inch2 hinch2 => ?_
  refine lists_step (lists_divide (.withSymbol hforce _) hinch2) fun psi hpsi => ?_
  refine lists_entry (lists_unit (named_withSymbol hforce _) (by decide)) fun _ _ => ?_
  refine lists_entry (lists_unit (named_withSymbol hpsi _) (by decide)) fun _ _ => ?_
  refine lists_step (lists_lookup _) fun mile hmile => ?_
  refine lists_step (lists_lookup _) fun nauticalMile hnauticalMile => ?_
  refine lists_step (lists_divide hmile hhour) fun mph hmph => ?_
  refine lists_entry (lists_unit (named_withSymbol hmph _) (by decide)) fun _ _ => ?_
  refine lists_step (lists_divide hnauticalMile hhour) fun knot hknot => ?_
  exact lists_last (lists_unit (named_withSymbol hknot _) (by decide))

theorem lists_astronomicalUnits :
    Lists (astronomicalEntries.flatMap Entry.lines) astronomicalUnits fun _ => True := by
  refine lists_step (lists_lookup _) fun m hm => ?_
  refine lists_step (lists_lookup _) fun year hyear => ?_
  refine lists_step (lists_scaled hm) fun au hau => ?_
  refine lists_step (lists_scaled hm) fun lightYear hlightYear => ?_
  refine lists_step (lists_scaled hau.reachable) fun parsec hparsec => ?_
  refine lists_entry (lists_unit hau (by decide)) fun _ _ => ?_
  refine lists_entry (lists_unit hlightYear (by decide)) fun _ _ => ?_
  refine lists_entry (lists_unit hparsec (by decide)) fun _ _ => ?_
  refine lists_step (lists_prefixed hparsec) fun kiloparsec hkiloparsec => ?_
  refine lists_entry (lists_unit hkiloparsec (by decide)) fun _ _ => ?_
  refine lists_step (lists_prefixed hparsec) fun megaparsec hmegaparsec => ?_
  refine lists_entry (lists_unit hmegaparsec (by decide)) fun _ _ => ?_
  refine lists_step (lists_prefixed hparsec) fun gigaparsec hgigaparsec => ?_
  exact lists_last (lists_unit hgigaparsec (by decide))

theorem lists_all : Lists (entries.flatMap Entry.lines) Catalog.all fun _ => True := by
  simp only [entries, List.flatMap_append]
  refine lists_bind lists_baseUnits fun _ _ => ?_
  refine lists_bind lists_derivedUnits fun _ _ => ?_
  refine lists_bind lists_temperatureScales fun _ _ => ?_
  refine lists_bind lists_timeUnits fun _ _ => ?_
  refine lists_bind lists_generalUnits fun _ _ => ?_
  refine lists_bind lists_customaryLengths fun _ _ => ?_
  refine lists_bind lists_customaryUnits fun _ _ => ?_
  exact lists_astronomicalUnits

theorem tidy_builtin :
    Tidy (namesAfter [] (entries.flatMap Entry.lines)) Registry.builtin := by
  rw [Registry.builtin, registryOf]
  exact (lists_all _ _ freshAfter_entries tidy_empty).1

/-- The names of the catalog can be found again in the text of a product. -/
theorem isWord_builtin (h : Registry.builtin.get? name = some u) : IsWord name :=
  isWord_of_mem_entries (tidy_builtin.mem name u h)

/-- The units of the catalog can be built, and the symbol of each is bound to an equal unit. -/
theorem exists_symbol_builtin (h : Registry.builtin.get? name = some u) :
    Reachable u ∧ ∃ symbol v, u.symbol? = some symbol ∧
      Registry.builtin.get? symbol = some v ∧ (v == u) = true :=
  tidy_builtin.symbol name u h

end Metrology.Catalog
