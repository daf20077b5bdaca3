import Metrology.Catalog.Builtin
import Metrology.Proofs.Registry.Invariant
import Metrology.Proofs.UnitOfMeasure.Grade

/-!
# Scales of the catalog

All units of the catalog have positive finite scales and finite offsets (`graded_builtin`).  The
catalog is gone through once, part by part, under one invariant of the registry (`Grown`): all bound
units are graded, and the units that later parts are defined by have known scales (`knownScales`).
These are the coherent units, which have scale one, and the three that other scales are computed
from.

A lookup that finds nothing and a definition that is refused need not be excluded: a registration
that fails leaves what it had bound before.  So the same invariant says that the first metric family
is there in the end (`get?_builtin_of_metres`).
-/

namespace Metrology.Catalog

open Binary64 Registration Registry UnitOfMeasure

/-- The scales that later parts of the catalog rely on, by the names they look up. -/
def knownScales : List (String × Float) :=
  [("m", 1), ("kg", 1), ("s", 1), ("A", 1), ("K", 1), ("mol", 1), ("cd", 1), ("Pa", 1), ("J", 1),
    ("W", 1), ("rad", 1), ("h", 3600), ("yr", 31557600), ("L", 1e-3)]

/-- A unit that may be bound to a name: its scale is positive and finite, and the one that is relied
on. -/
def Catalogued (name : String) (u : UnitOfMeasure Float) : Prop :=
  Graded (0 < toRat ·) u ∧ ∀ s, knownScales.lookup name = some s → Graded (· = s) u

/-- Whether names may be bound to units of a scale, as far as the known scales go. -/
def admits (scale : Float) (names : List String) : Bool :=
  names.all fun name => (knownScales.lookup name).all fun s => Scalar.same s scale

/-- Whether the names of a unit of a scale and of its multiples under the prefixes may be bound. -/
def admitsFamily (scale : Float) (symbol name : String) (aliases : List String) : Bool :=
  admits scale (symbol :: name :: aliases) && Prefix.all.all fun p =>
    admits (scale * p.factor) ((p.symbol ++ symbol) :: prefixedNames symbol (some name) p)

/-- Whether a scale is positive and finite. -/
def isPositive (scale : Float) : Bool :=
  Scalar.isFinite scale && Scalar.less 0 scale

/-- Whether a scale and its multiples under the prefixes are positive and finite. -/
def isPositiveFamily (scale : Float) : Bool :=
  isPositive scale && Prefix.all.all fun p => isPositive (scale * p.factor)

/-- A registry that units of the catalog have been added to. -/
structure Grown (r₀ r : Registry Float) : Prop where
  earlier : Extends r₀ r
  binds : Binds Catalogued r

/-- An atom of a known symbol and scale. -/
def IsAtom (symbol : String) (scale : Float) (u : UnitOfMeasure Float) : Prop :=
  ∃ a : Atom Float, u = atom a ∧ a.symbol = symbol ∧ a.scale = scale ∧
    Scalar.isFinite a.offset = true

variable {r₀ : Registry Float} {u v : UnitOfMeasure Float} {symbol name : String}
  {c factor offset : Float} {names aliases : List String} {P : Float → Prop}

/-! ### Atoms -/

theorem IsAtom.scale_eq (h : IsAtom symbol c u) : u.scale = c := by
  obtain ⟨a, rfl, -, hs, -⟩ := h
  exact hs

theorem IsAtom.graded (h : IsAtom symbol c u) (hP : P c) : Graded P u := by
  obtain ⟨a, rfl, -, rfl, ho⟩ := h
  exact graded_atom.mpr ⟨hP, ho⟩

theorem isAtom_base (symbol : String) (d : Dimension) : IsAtom symbol 1 (base symbol d) :=
  ⟨_, rfl, rfl, rfl, isFinite_zero⟩

theorem isAtom_withSymbol (h : Graded (· = c) u) (symbol : String) :
    IsAtom symbol c (u.withSymbol symbol) :=
  ⟨_, rfl, rfl, h.scale, h.offset⟩

theorem isAtom_scaled (hs : u.scale = c) (h : scaled symbol u factor = .ok v) :
    IsAtom symbol (c * factor) v := by
  obtain ⟨-, -, rfl⟩ := scaled_eq_ok_iff.mp h
  exact ⟨_, rfl, rfl, by rw [← hs], isFinite_zero⟩

theorem isAtom_prefixed {p : Prefix} (hu : IsAtom symbol c u) (h : prefixed p u = .ok v) :
    IsAtom (p.symbol ++ symbol) (c * p.factor) v := by
  obtain ⟨a, rfl, rfl, rfl, -⟩ := hu
  obtain ⟨-, rfl⟩ := prefixed_eq_ok_iff.mp h
  exact ⟨_, rfl, rfl, rfl, isFinite_zero⟩

/-! ### Rules for definitions -/

theorem keeps_scaled (hs : u.scale = c) :
    Keeps (Grown r₀) (ofExcept (scaled symbol u factor)) (IsAtom symbol (c * factor)) :=
  keeps_ofExcept fun _ h => isAtom_scaled hs h

theorem keeps_asUnit (hs : u.scale = c) :
    Keeps (Grown r₀) (ofExcept (Quantity.asUnit ⟨factor, u⟩ symbol))
      (IsAtom symbol (c * factor)) :=
  keeps_ofExcept fun _ h => isAtom_scaled hs (asUnit_eq_ok_iff.mp h)

theorem keeps_prefixed {p : Prefix} (hu : IsAtom symbol c u) :
    Keeps (Grown r₀) (ofExcept (prefixed p u)) (IsAtom (p.symbol ++ symbol) (c * p.factor)) :=
  keeps_ofExcept fun _ h => isAtom_prefixed hu h

theorem keeps_affine (hs : u.scale = c) (ho : Scalar.isFinite (c * offset) = true) :
    Keeps (Grown r₀) (ofExcept (affine symbol u factor offset)) (IsAtom symbol (c * factor)) := by
  refine keeps_ofExcept fun v h => ?_
  obtain ⟨-, -, -, rfl⟩ := affine_eq_ok_iff.mp h
  rw [← hs] at ho ⊢
  exact ⟨_, rfl, rfl, rfl, ho⟩

theorem keeps_multiply (hP : IsGrade P) (hu : Graded P u) (hv : Graded P v) :
    Keeps (Grown r₀) (ofExcept (u.multiply v)) (Graded P) :=
  keeps_ofExcept fun _ => hu.multiply hP hv

theorem keeps_divide (hP : IsGrade P) (hu : Graded P u) (hv : Graded P v) :
    Keeps (Grown r₀) (ofExcept (u.divide v)) (Graded P) :=
  keeps_ofExcept fun _ => hu.divide hP hv

theorem keeps_invert (hP : IsGrade P) (hu : Graded P u) :
    Keeps (Grown r₀) (ofExcept u.invert) (Graded P) :=
  keeps_ofExcept fun _ => hu.invert hP

theorem keeps_power (hP : IsGrade P) {p : Exponent} (hu : Graded P u)
    (hp : p.isInteger = true) (hlow : -0x80000000 ≤ p.value.num)
    (hhigh : p.value.num < 0x80000000) :
    Keeps (Grown r₀) (ofExcept (u.power p)) (Graded P) :=
  keeps_ofExcept fun _ => hu.power hP hp hlow hhigh

/-- A product of units of scales 1 and 3600 has one of these scales, and so have its atoms. -/
theorem keeps_wattHour (hu : Graded (· = 1) u) (hv : Graded (· = 3600) v) :
    Keeps (Grown r₀) (ofExcept (u.multiply v)) (Graded fun x => x = 1 ∨ x = 3600) := by
  refine keeps_ofExcept fun w h =>
    graded_of_multiply (fun _ => ?_) (hu.mono fun x => .inl) (hv.mono fun x => .inr) h
  rw [hu.scale, hv.scale]
  exact .inr (eq_of_toBits_eq (by decide +kernel))

theorem keeps_lookup_known (h : knownScales.lookup name = some c) :
    Keeps (Grown r₀) (lookup name) (Graded (· = c)) :=
  keeps_lookup fun _ u hr hu => (hr.binds name u hu).2 c h

theorem keeps_lookup_any : Keeps (Grown r₀) (lookup name) (Graded (0 < toRat ·)) :=
  keeps_lookup fun _ u hr hu => (hr.binds name u hu).1

/-! ### Rules for declarations -/

theorem keeps_bindName_grown (h : Catalogued name u) :
    Keeps (Grown r₀) (bindName name u) fun _ => True :=
  fun r hr => ⟨⟨(keeps_bindName_extends r₀ name u r hr.earlier).1,
    (keeps_bindName_binds h r hr.binds).1⟩, fun _ _ => trivial⟩

theorem toRat_pos_of_isPositive (h : isPositive c = true) : 0 < toRat c :=
  toRat_pos_iff.mpr (Bool.and_eq_true_iff.mp h)

theorem catalogued_of_admits (hu : IsAtom symbol c u) (hc : isPositive c = true)
    (h : admits c names = true) : ∀ name ∈ names, Catalogued name u := by
  refine fun name hn => ⟨hu.graded (toRat_pos_of_isPositive hc), fun s hs => hu.graded ?_⟩
  have hsame := List.all_eq_true.mp h name hn
  rw [hs, Option.all_some] at hsame
  exact (eq_of_toBits_eq (eq_of_beq hsame)).symm

theorem keeps_unit (hu : IsAtom symbol c u) (hc : isPositive c = true)
    (h : admits c (symbol :: name :: aliases) = true) :
    Keeps (Grown r₀) (Catalog.unit u name aliases) fun _ => True := by
  have hallowed := catalogued_of_admits hu hc h
  obtain ⟨a, rfl, rfl, -⟩ := hu
  exact keeps_declare (fun name hn => keeps_bindName_grown (hallowed name hn)) fun hp => by cases hp

theorem keeps_family (hu : IsAtom symbol c u) (hc : isPositiveFamily c = true)
    (h : admitsFamily c symbol name aliases = true) :
    Keeps (Grown r₀) (Catalog.family u name aliases) fun _ => True := by
  obtain ⟨hpos, hprefixes⟩ := Bool.and_eq_true_iff.mp hc
  obtain ⟨hunit, hfamily⟩ := Bool.and_eq_true_iff.mp h
  have hallowed := catalogued_of_admits hu hpos hunit
  have hprefixed (p : Prefix) (v) (hv : prefixed p u = .ok v) :=
    catalogued_of_admits (isAtom_prefixed hu hv)
      (List.all_eq_true.mp hprefixes p (Prefix.mem_all p))
      (List.all_eq_true.mp hfamily p (Prefix.mem_all p))
  obtain ⟨a, rfl, rfl, -⟩ := hu
  refine keeps_declare (fun name hn => keeps_bindName_grown (hallowed name hn))
    fun _ symbol hs p v hv name hn => keeps_bindName_grown (hprefixed p v hv name ?_)
  cases hs
  obtain ⟨-, rfl⟩ := prefixed_eq_ok_iff.mp hv
  exact hn

theorem isPositiveFamily_one : isPositiveFamily 1 = true := by
  decide +kernel

/-- Most units with a metric family have no factor of their own. -/
theorem keeps_coherent (hu : IsAtom symbol 1 u) (h : admitsFamily 1 symbol name aliases = true) :
    Keeps (Grown r₀) (Catalog.family u name aliases) fun _ => True :=
  keeps_family hu isPositiveFamily_one h

/-- The scale of a unit that nothing else relies on need not be known. -/
theorem keeps_unknown_unit (hu : Graded (0 < toRat ·) u)
    (h : ((symbol :: name :: aliases).all fun name => (knownScales.lookup name).isNone) = true) :
    Keeps (Grown r₀) (Catalog.unit (u.withSymbol symbol) name aliases) fun _ => True := by
  refine keeps_declare (fun name hn => keeps_bindName_grown
    ⟨hu.withSymbol symbol, fun s hs => ?_⟩) fun hp => by cases hp
  have hnone := List.all_eq_true.mp h name hn
  rw [hs] at hnone
  cases hnone

/-! ### The parts of the catalog -/

/-- The registry of the first metric family. -/
def metres : Registry Float :=
  (family (base "m" (.of .length)) "meter" ["metre"]).registryOf

theorem grown_metres : Grown metres metres := by
  have hkeeps : Keeps (Grown .empty) (family (base "m" (.of .length)) "meter" ["metre"])
      fun _ => True := keeps_coherent (isAtom_base _ _) (by decide +kernel)
  unfold metres
  exact ⟨.refl _, (registryOf_of_keeps ⟨.refl _, fun _ _ hu => by cases hu⟩ hkeeps).binds⟩

theorem grown_baseUnits : Grown metres baseUnits.registryOf := by
  refine registryOf_bind grown_metres fun _ => ?_
  refine keeps_bind (keeps_coherent (isAtom_base _ _) (by decide +kernel)) fun _ _ => ?_
  refine keeps_bind (keeps_coherent (isAtom_base _ _) (by decide +kernel)) fun _ _ => ?_
  refine keeps_bind (keeps_coherent (isAtom_base _ _) (by decide +kernel)) fun _ _ => ?_
  refine keeps_bind (keeps_coherent (isAtom_base _ _) (by decide +kernel)) fun _ _ => ?_
  refine keeps_bind (keeps_coherent (isAtom_base _ _) (by decide +kernel)) fun _ _ => ?_
  refine keeps_bind (keeps_unit (isAtom_base _ _) (by decide) (by decide)) fun _ _ => ?_
  refine keeps_bind (keeps_scaled (isAtom_base _ _).scale_eq) fun g hg => ?_
  exact keeps_family hg (by decide +kernel) (by decide +kernel)

theorem keeps_derivedUnits : Keeps (Grown r₀) derivedUnits fun _ => True := by
  refine keeps_bind (keeps_lookup_known (c := 1) rfl) fun m hm => ?_
  refine keeps_bind (keeps_lookup_known (c := 1) rfl) fun kg hkg => ?_
  refine keeps_bind (keeps_lookup_known (c := 1) rfl) fun s hs => ?_
  refine keeps_bind (keeps_lookup_known (c := 1) rfl) fun a ha => ?_
  refine keeps_bind (keeps_lookup_known (c := 1) rfl) fun mol hmol => ?_
  refine keeps_bind (keeps_lookup_known (c := 1) rfl) fun cd hcd => ?_
  -- The units that were looked up are coherent, and so is what is composed of them.
  refine keeps_bind (keeps_power isGrade_one hm rfl (by decide) (by decide)) fun m2 hm2 => ?_
  refine keeps_bind (keeps_invert isGrade_one hs) fun hertz hhertz => ?_
  refine keeps_bind (keeps_multiply isGrade_one hkg hm) fun momentum hmomentum => ?_
  refine keeps_bind (keeps_power isGrade_one hs rfl (by decide) (by decide)) fun s2 hs2 => ?_
  refine keeps_bind (keeps_divide isGrade_one hmomentum hs2) fun newton hnewton => ?_
  refine keeps_bind (keeps_divide isGrade_one (hnewton.withSymbol _) hm2) fun pascal hpascal => ?_
  refine keeps_bind (keeps_multiply isGrade_one (hnewton.withSymbol _) hm) fun joule hjoule => ?_
  refine keeps_bind (keeps_divide isGrade_one (hjoule.withSymbol _) hs) fun watt hwatt => ?_
  refine keeps_bind (keeps_multiply isGrade_one ha hs) fun coulomb hcoulomb => ?_
  refine keeps_bind (keeps_divide isGrade_one (hwatt.withSymbol _) ha) fun volt hvolt => ?_
  refine keeps_bind (keeps_divide isGrade_one (hcoulomb.withSymbol _) (hvolt.withSymbol _))
    fun farad hfarad => ?_
  refine keeps_bind (keeps_divide isGrade_one (hvolt.withSymbol _) ha) fun ohm hohm => ?_
  refine keeps_bind (keeps_invert isGrade_one (hohm.withSymbol _)) fun siemens hsiemens => ?_
  refine keeps_bind (keeps_multiply isGrade_one (hvolt.withSymbol _) hs) fun weber hweber => ?_
  refine keeps_bind (keeps_divide isGrade_one (hweber.withSymbol _) hm2) fun tesla htesla => ?_
  refine keeps_bind (keeps_divide isGrade_one (hweber.withSymbol _) ha) fun henry hhenry => ?_
  refine keeps_bind (keeps_divide isGrade_one (hjoule.withSymbol _) hkg) fun gray hgray => ?_
  refine keeps_bind (keeps_divide isGrade_one (hjoule.withSymbol _) hkg) fun sievert hsievert => ?_
  refine keeps_bind (keeps_invert isGrade_one hs) fun becquerel hbecquerel => ?_
  refine keeps_bind (keeps_divide isGrade_one hmol hs) fun katal hkatal => ?_
  refine keeps_bind (keeps_divide isGrade_one hm hm) fun radian hradian => ?_
  refine keeps_bind (keeps_divide isGrade_one hm2 hm2) fun steradian hsteradian => ?_
  refine keeps_bind (keeps_multiply isGrade_one hcd (hsteradian.withSymbol _))
    fun lumen hlumen => ?_
  refine keeps_bind (keeps_divide isGrade_one (hlumen.withSymbol _) hm2) fun lux hlux => ?_
  refine keeps_bind (keeps_coherent (isAtom_withSymbol hhertz _) (by decide +kernel)) fun _ _ => ?_
  refine keeps_bind (keeps_coherent (isAtom_withSymbol hnewton _) (by decide +kernel)) fun _ _ => ?_
  refine keeps_bind (keeps_coherent (isAtom_withSymbol hpascal _) (by decide +kernel)) fun _ _ => ?_
  refine keeps_bind (keeps_coherent (isAtom_withSymbol hjoule _) (by decide +kernel)) fun _ _ => ?_
  refine keeps_bind (keeps_coherent (isAtom_withSymbol hwatt _) (by decide +kernel)) fun _ _ => ?_
  refine keeps_bind (keeps_coherent (isAtom_withSymbol hcoulomb _) (by decide +kernel))
    fun _ _ => ?_
  refine keeps_bind (keeps_coherent (isAtom_withSymbol hvolt _) (by decide +kernel)) fun _ _ => ?_
  refine keeps_bind (keeps_coherent (isAtom_withSymbol hfarad _) (by decide +kernel)) fun _ _ => ?_
  refine keeps_bind (keeps_coherent (isAtom_withSymbol hohm _) (by decide +kernel)) fun _ _ => ?_
  refine keeps_bind (keeps_coherent (isAtom_withSymbol hsiemens _) (by decide +kernel))
    fun _ _ => ?_
  refine keeps_bind (keeps_coherent (isAtom_withSymbol hweber _) (by decide +kernel)) fun _ _ => ?_
  refine keeps_bind (keeps_coherent (isAtom_withSymbol htesla _) (by decide +kernel)) fun _ _ => ?_
  refine keeps_bind (keeps_coherent (isAtom_withSymbol hhenry _) (by decide +kernel)) fun _ _ => ?_
  refine keeps_bind (keeps_coherent (isAtom_withSymbol hgray _) (by decide +kernel)) fun _ _ => ?_
  refine keeps_bind (keeps_coherent (isAtom_withSymbol hsievert _) (by decide +kernel))
    fun _ _ => ?_
  refine keeps_bind (keeps_coherent (isAtom_withSymbol hbecquerel _) (by decide +kernel))
    fun _ _ => ?_
  refine keeps_bind (keeps_coherent (isAtom_withSymbol hkatal _) (by decide +kernel)) fun _ _ => ?_
  refine keeps_bind (keeps_coherent (isAtom_withSymbol hlumen _) (by decide +kernel)) fun _ _ => ?_
  refine keeps_bind (keeps_coherent (isAtom_withSymbol hlux _) (by decide +kernel)) fun _ _ => ?_
  refine keeps_bind (keeps_coherent (isAtom_withSymbol hradian _) (by decide +kernel)) fun _ _ => ?_
  exact keeps_unit (isAtom_withSymbol hsteradian _) (by decide) (by decide)

theorem keeps_temperatureScales : Keeps (Grown r₀) temperatureScales fun _ => True := by
  refine keeps_bind (keeps_lookup_known (c := 1) rfl) fun kelvin hkelvin => ?_
  refine keeps_bind (keeps_affine hkelvin.scale (by decide)) fun celsius hcelsius => ?_
  refine keeps_bind (keeps_affine hkelvin.scale (by decide)) fun fahrenheit hfahrenheit => ?_
  refine keeps_bind (keeps_scaled hkelvin.scale) fun rankine hrankine => ?_
  refine keeps_bind (keeps_unit hcelsius (by decide) (by decide)) fun _ _ => ?_
  refine keeps_bind (keeps_unit hfahrenheit (by decide) (by decide)) fun _ _ => ?_
  exact keeps_unit hrankine (by decide) (by decide)

theorem keeps_timeUnits : Keeps (Grown r₀) timeUnits fun _ => True := by
  refine keeps_bind (keeps_lookup_known (c := 1) rfl) fun second hsecond => ?_
  refine keeps_bind (keeps_scaled hsecond.scale) fun minute hminute => ?_
  refine keeps_bind (keeps_scaled hminute.scale_eq) fun hour hhour => ?_
  refine keeps_bind (keeps_scaled hhour.scale_eq) fun day hday => ?_
  refine keeps_bind (keeps_scaled hday.scale_eq) fun week hweek => ?_
  refine keeps_bind (keeps_scaled hday.scale_eq) fun year hyear => ?_
  refine keeps_bind (keeps_unit hminute (by decide) (by decide)) fun _ _ => ?_
  refine keeps_bind (keeps_unit hhour (by decide) (by decide)) fun _ _ => ?_
  refine keeps_bind (keeps_unit hday (by decide) (by decide)) fun _ _ => ?_
  refine keeps_bind (keeps_unit hweek (by decide) (by decide)) fun _ _ => ?_
  exact keeps_unit hyear (by decide) (by decide)

theorem keeps_generalUnits : Keeps (Grown r₀) generalUnits fun _ => True := by
  refine keeps_bind (keeps_lookup_known (c := 1) rfl) fun m hm => ?_
  refine keeps_bind (keeps_lookup_known (c := 1) rfl) fun kg hkg => ?_
  refine keeps_bind (keeps_lookup_known (c := 1) rfl) fun pascal hpascal => ?_
  refine keeps_bind (keeps_lookup_known (c := 1) rfl) fun joule hjoule => ?_
  refine keeps_bind (keeps_lookup_known (c := 1) rfl) fun watt hwatt => ?_
  refine keeps_bind (keeps_lookup_known (c := 3600) rfl) fun hour hhour => ?_
  refine keeps_bind (keeps_lookup_known (c := 1) rfl) fun radian hradian => ?_
  refine keeps_bind (keeps_power isGrade_one hm rfl (by decide) (by decide)) fun m3 hm3 => ?_
  refine keeps_bind (keeps_scaled hm3.scale) fun litre hlitre => ?_
  refine keeps_bind (keeps_family hlitre (by decide +kernel) (by decide +kernel)) fun _ _ => ?_
  refine keeps_bind (keeps_power isGrade_one hm rfl (by decide) (by decide)) fun m2 hm2 => ?_
  refine keeps_bind (keeps_scaled hm2.scale) fun hectare hhectare => ?_
  refine keeps_bind (keeps_unit hhectare (by decide) (by decide)) fun _ _ => ?_
  refine keeps_bind (keeps_scaled hkg.scale) fun tonne htonne => ?_
  refine keeps_bind (keeps_unit htonne (by decide) (by decide)) fun _ _ => ?_
  refine keeps_bind (keeps_scaled hm.scale) fun angstrom hangstrom => ?_
  refine keeps_bind (keeps_unit hangstrom (by decide) (by decide)) fun _ _ => ?_
  refine keeps_bind (keeps_scaled hpascal.scale) fun bar hbar => ?_
  refine keeps_bind (keeps_family hbar (by decide +kernel) (by decide +kernel)) fun _ _ => ?_
  refine keeps_bind (keeps_scaled hpascal.scale) fun atmosphere hatmosphere => ?_
  refine keeps_bind (keeps_unit hatmosphere (by decide) (by decide)) fun _ _ => ?_
  refine keeps_bind (keeps_scaled hjoule.scale) fun electronvolt helectronvolt => ?_
  refine keeps_bind (keeps_family helectronvolt (by decide +kernel) (by decide +kernel))
    fun _ _ => ?_
  refine keeps_bind (keeps_scaled hjoule.scale) fun calorie hcalorie => ?_
  refine keeps_bind (keeps_family hcalorie (by decide +kernel) (by decide +kernel)) fun _ _ => ?_
  -- The watt hour has the computed scale, or that of an atom on record: it is not known which.
  refine keeps_bind (keeps_wattHour hwatt hhour) fun wattHour hwattHour => ?_
  refine keeps_bind (R := fun _ => True) ?_ fun _ _ => ?_
  · have hw (c : Float) (hc : wattHour.scale = c) : IsAtom "Wh" c (wattHour.withSymbol "Wh") :=
      ⟨_, rfl, rfl, hc, hwattHour.offset⟩
    rcases hwattHour.scale with hscale | hscale
    · exact keeps_family (hw _ hscale) (by decide +kernel) (by decide +kernel)
    · exact keeps_family (hw _ hscale) (by decide +kernel) (by decide +kernel)
  refine keeps_bind (keeps_asUnit hjoule.scale) fun btu hbtu => ?_
  refine keeps_bind (keeps_unit hbtu (by decide) (by decide)) fun _ _ => ?_
  refine keeps_bind (keeps_scaled hjoule.scale) fun erg herg => ?_
  refine keeps_bind (keeps_unit herg (by decide) (by decide)) fun _ _ => ?_
  refine keeps_bind (keeps_scaled hradian.scale) fun degree hdegree => ?_
  refine keeps_bind (keeps_unit hdegree (by decide) (by decide)) fun _ _ => ?_
  refine keeps_bind (keeps_scaled hdegree.scale_eq) fun arcminute harcminute => ?_
  refine keeps_bind (keeps_unit harcminute (by decide) (by decide)) fun _ _ => ?_
  refine keeps_bind (keeps_scaled hdegree.scale_eq) fun arcsecond harcsecond => ?_
  exact keeps_unit harcsecond (by decide) (by decide)

theorem keeps_customaryLengths : Keeps (Grown r₀) customaryLengths fun _ => True := by
  refine keeps_bind (keeps_lookup_known (c := 1) rfl) fun m hm => ?_
  refine keeps_bind (keeps_scaled hm.scale) fun inchUnit hinchUnit => ?_
  refine keeps_bind (keeps_scaled hinchUnit.scale_eq) fun foot hfoot => ?_
  refine keeps_bind (keeps_scaled hfoot.scale_eq) fun yard hyard => ?_
  refine keeps_bind (keeps_scaled hyard.scale_eq) fun mile hmile => ?_
  refine keeps_bind (keeps_scaled hm.scale) fun nauticalMile hnauticalMile => ?_
  refine keeps_bind (keeps_unit hinchUnit (by decide) (by decide)) fun _ _ => ?_
  refine keeps_bind (keeps_unit hfoot (by decide) (by decide)) fun _ _ => ?_
  refine keeps_bind (keeps_unit hyard (by decide) (by decide)) fun _ _ => ?_
  refine keeps_bind (keeps_unit hmile (by decide) (by decide)) fun _ _ => ?_
  exact keeps_unit hnauticalMile (by decide) (by decide)

theorem keeps_customaryUnits : Keeps (Grown r₀) customaryUnits fun _ => True := by
  refine keeps_bind (keeps_lookup_known (c := 1) rfl) fun m hm => ?_
  refine keeps_bind (keeps_lookup_known (c := 1) rfl) fun s hs => ?_
  refine keeps_bind keeps_lookup_any fun hour hhour => ?_
  refine keeps_bind (keeps_lookup_known (c := 1) rfl) fun kg hkg => ?_
  refine keeps_bind (keeps_scaled hkg.scale) fun poundUnit hpoundUnit => ?_
  refine keeps_bind (keeps_unit hpoundUnit (by decide) (by decide)) fun _ _ => ?_
  refine keeps_bind (keeps_scaled hpoundUnit.scale_eq) fun ounce hounce => ?_
  refine keeps_bind (keeps_unit hounce (by decide) (by decide)) fun _ _ => ?_
  refine keeps_bind (keeps_lookup_known (c := 1e-3) rfl) fun litre hlitre => ?_
  refine keeps_bind (keeps_scaled hlitre.scale) fun gallon hgallon => ?_
  refine keeps_bind (keeps_unit hgallon (by decide) (by decide)) fun _ _ => ?_
  refine keeps_bind (keeps_power isGrade_one hs rfl (by decide) (by decide)) fun s2 hs2 => ?_
  refine keeps_bind (keeps_divide isGrade_one hm hs2) fun acceleration hacceleration => ?_
  refine keeps_bind (keeps_scaled hacceleration.scale) fun gravity hgravity => ?_
  -- From here on the scales are of no use to other units, and known to be positive only.
  have hpoundUnit' := hpoundUnit.graded (P := (0 < toRat ·)) (toRat_pos_of_isPositive (by decide))
  have hgravity' := hgravity.graded (P := (0 < toRat ·)) (toRat_pos_of_isPositive (by decide))
  refine keeps_bind (keeps_multiply isGrade_pos hpoundUnit' hgravity') fun force hforce => ?_
  refine keeps_bind keeps_lookup_any fun inchUnit hinchUnit => ?_
  refine keeps_bind (keeps_power isGrade_pos hinchUnit rfl (by decide) (by decide))
    fun inch2 hinch2 => ?_
  refine keeps_bind (keeps_divide isGrade_pos (hforce.withSymbol _) hinch2) fun psi hpsi => ?_
  refine keeps_bind (keeps_unknown_unit hforce (by decide)) fun _ _ => ?_
  refine keeps_bind (keeps_unknown_unit hpsi (by decide)) fun _ _ => ?_
  refine keeps_bind keeps_lookup_any fun mile hmile => ?_
  refine keeps_bind keeps_lookup_any fun nauticalMile hnauticalMile => ?_
  refine keeps_bind (keeps_divide isGrade_pos hmile hhour) fun mph hmph => ?_
  refine keeps_bind (keeps_unknown_unit hmph (by decide)) fun _ _ => ?_
  refine keeps_bind (keeps_divide isGrade_pos hnauticalMile hhour) fun knot hknot => ?_
  exact keeps_unknown_unit hknot (by decide)

theorem keeps_astronomicalUnits : Keeps (Grown r₀) astronomicalUnits fun _ => True := by
  refine keeps_bind (keeps_lookup_known (c := 1) rfl) fun m hm => ?_
  refine keeps_bind (keeps_lookup_known (c := 31557600) rfl) fun year hyear => ?_
  refine keeps_bind (keeps_scaled hm.scale) fun au hau => ?_
  refine keeps_bind (keeps_scaled hm.scale) fun lightYear hlightYear => ?_
  rw [hyear.scale] at hlightYear
  refine keeps_bind (keeps_scaled hau.scale_eq) fun parsec hparsec => ?_
  refine keeps_bind (keeps_unit hau (by decide) (by decide)) fun _ _ => ?_
  refine keeps_bind (keeps_unit hlightYear (by decide) (by decide)) fun _ _ => ?_
  refine keeps_bind (keeps_unit hparsec (by decide) (by decide)) fun _ _ => ?_
  refine keeps_bind (keeps_prefixed hparsec) fun kiloparsec hkiloparsec => ?_
  refine keeps_bind (keeps_unit hkiloparsec (by decide) (by decide)) fun _ _ => ?_
  refine keeps_bind (keeps_prefixed hparsec) fun megaparsec hmegaparsec => ?_
  refine keeps_bind (keeps_unit hmegaparsec (by decide) (by decide)) fun _ _ => ?_
  refine keeps_bind (keeps_prefixed hparsec) fun gigaparsec hgigaparsec => ?_
  exact keeps_unit hgigaparsec (by decide) (by decide)

theorem grown_builtin : Grown metres Registry.builtin := by
  rw [Registry.builtin]
  refine registryOf_bind grown_baseUnits fun _ => ?_
  refine keeps_bind keeps_derivedUnits fun _ _ => ?_
  refine keeps_bind keeps_temperatureScales fun _ _ => ?_
  refine keeps_bind keeps_timeUnits fun _ _ => ?_
  refine keeps_bind keeps_generalUnits fun _ _ => ?_
  refine keeps_bind keeps_customaryLengths fun _ _ => ?_
  refine keeps_bind keeps_customaryUnits fun _ _ => ?_
  exact keeps_astronomicalUnits

/-- Whatever of the catalog is registered has a positive finite scale and a finite offset. -/
theorem graded_builtin (h : Registry.builtin.get? name = some u) : Graded (0 < toRat ·) u :=
  (grown_builtin.binds name u h).1

/-- What the first metric family binds is there in the end. -/
theorem get?_builtin_of_metres (h : metres.get? name = some u) :
    Registry.builtin.get? name = some u :=
  grown_builtin.earlier name u h

end Metrology.Catalog
