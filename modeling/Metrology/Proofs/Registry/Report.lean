import Metrology.Proofs.Registry.Commutation
import Metrology.Proofs.Scalar.Lawful

/-!
# What registrations report

A registration reports whether a name is bound to a unit equal to the given one, or how many symbols
are.  It finds out before it is done: later bindings of the same call may take names too.  None of
them takes a bound name away, so what was found out about a name that is bound by then still holds at
the end (`Extends.knows_eq`), and the reports can be read off the registry that is left behind
(`report_laws`).

Two units are equal also when they are one and the same.  That makes no difference to units under a
prefix, which are made anew whenever they are asked for: they have no offset and a defined scale, so
that those which are the same are worth the same (`knowsSymbol_prefixed`).
-/

namespace Metrology

variable {α : Type} [Scalar α]

namespace Registry

variable {r r' : Registry α} {name : String}

/-- Whether a name is bound to a unit equal to a given one. -/
def knows (r : Registry α) (name : String) (u : UnitOfMeasure α) : Bool :=
  (r.get? name).any (· == u)

/-- Whether the symbol of a unit is bound to an equal unit; a unit without symbol is not known. -/
def knowsSymbol (r : Registry α) (u : UnitOfMeasure α) : Bool :=
  u.symbol?.any (r.knows · u)

/-- The number of the given prefixes under which the symbol of a unit is bound to the unit under that
prefix. -/
def countPrefixed (r : Registry α) (u : UnitOfMeasure α) (prefixes : List Prefix) : Nat :=
  prefixes.countP fun p => (UnitOfMeasure.prefixed p u).toOption.any r.knowsSymbol

theorem knowsSymbol_of_symbol? {u : UnitOfMeasure α} {symbol : String}
    (h : u.symbol? = some symbol) : r.knowsSymbol u = r.knows symbol u := by
  rw [knowsSymbol, h, Option.any_some]

/-- What is known of a bound name does not change when names are added. -/
theorem Extends.knows_eq (h : Extends r r') {v : UnitOfMeasure α} (hv : r.get? name = some v)
    (u : UnitOfMeasure α) : r'.knows name u = r.knows name u := by
  rw [knows, knows, h name v hv, hv]

end Registry

namespace Registration

open Registry UnitOfMeasure

variable {r : Registry α} {u : UnitOfMeasure α} {symbol name : String}

/-! ### One name -/

theorem result_bindName (name : String) (u : UnitOfMeasure α) (r : Registry α) :
    (bindName name u r).result = .ok ((bindName name u r).registry.knows name u) := by
  unfold bindName
  split
  · rw [knows, get?_push, if_pos rfl, Option.any_some, beq_self]
  · rename_i v hv
    split <;> rename_i hvu <;> simp [knows, hv, hvu]

/-- A name that was to be bound is bound, to whatever unit. -/
theorem exists_get?_bindName (name : String) (u : UnitOfMeasure α) (r : Registry α) :
    ∃ v, (bindName name u r).registry.get? name = some v := by
  rw [get?_bindName, if_pos rfl]
  cases r.get? name with
  | none => exact ⟨u, rfl⟩
  | some v => exact ⟨v, rfl⟩

theorem result_define (hs : u.symbol? = some symbol) (r : Registry α) :
    (define u r).result = .ok ((define u r).registry.knowsSymbol u) := by
  rw [define_of_symbol? hs, knowsSymbol_of_symbol? hs]
  exact result_bindName symbol u r

/-- What is known of the symbol of a unit when it is defined does not change afterwards. -/
theorem knowsSymbol_of_extends_define (hs : u.symbol? = some symbol) {r' : Registry α}
    (h : Extends (define u r).registry r') :
    r'.knowsSymbol u = (define u r).registry.knowsSymbol u := by
  obtain ⟨v, hv⟩ := exists_get?_bindName symbol u r
  rw [← define_of_symbol? hs] at hv
  rw [knowsSymbol_of_symbol? hs, knowsSymbol_of_symbol? hs]
  exact h.knows_eq hv u

/-! ### Further names -/

theorem extends_bindName (name : String) (u : UnitOfMeasure α) (r : Registry α) :
    Extends r (bindName name u r).registry :=
  (keeps_bindName_extends r name u r (.refl r)).1

theorem extends_bindNames (u : UnitOfMeasure α) (names : List String) (r : Registry α) :
    Extends r (bindNames u names r).registry := by
  rw [bindNames_eq_bindAll]
  exact extends_bindAll _ r

theorem extends_definePrefixed (u : UnitOfMeasure α) (symbol : String) (name? : Option String)
    (prefixes : List Prefix) (r : Registry α) :
    Extends r (definePrefixed u symbol name? prefixes r).registry :=
  (keeps_definePrefixed (fun _ _ v _ name _ => keeps_bindName_extends r name v) r (.refl r)).1

/-- Binding a further name changes neither the report nor what is known of the symbol. -/
theorem result_defineNamed (hs : u.symbol? = some symbol) (name : String) (r : Registry α) :
    (defineNamed u name r).result = (define u r).result ∧
      (defineNamed u name r).result = .ok ((defineNamed u name r).registry.knowsSymbol u) := by
  have hdefined := result_define hs r
  have heq : defineNamed u name r = _ :=
    bind_of_ok (f := fun defined => bindName name u >>= fun _ => pure defined) hdefined
  rw [bind_pure_eq, result_bindName] at heq
  have hknown := knowsSymbol_of_extends_define hs (extends_bindName name u (define u r).registry)
  rw [heq, hknown]
  exact ⟨hdefined.symm, rfl⟩

/-! ### Prefixes -/

/-- The first of several prefixes: the unit under it is defined and gets its names, and then come the
other prefixes. -/
theorem definePrefixed_cons {p : Prefix} {v : UnitOfMeasure α} (hv : prefixed p u = .ok v)
    (symbol : String) (name? : Option String) (prefixes : List Prefix) (r : Registry α) :
    ∃ r', Extends (define v r).registry r' ∧
      (definePrefixed u symbol name? (p :: prefixes) r).registry =
        (definePrefixed u symbol name? prefixes r').registry ∧
      ∀ n, (definePrefixed u symbol name? prefixes r').result = .ok n →
        (definePrefixed u symbol name? (p :: prefixes) r).result =
          .ok (if (define v r).registry.knowsSymbol v then n + 1 else n) := by
  have hs : v.symbol? = some v.text := by
    obtain ⟨-, rfl⟩ := prefixed_eq_ok_iff.mp hv
    rfl
  have hdefined := result_define hs r
  obtain ⟨x, hnames⟩ :=
    total_bindNames v (prefixedNames symbol name? p) (define v r).registry
  have heq : definePrefixed u symbol name? (p :: prefixes) =
      define v >>= fun defined => bindNames v (prefixedNames symbol name? p) >>= fun _ =>
        definePrefixed u symbol name? prefixes >>= fun count =>
          pure (if defined then count + 1 else count) := by
    rw [definePrefixed, hv]
    exact bind_ofExcept_ok _
  refine ⟨_, extends_bindNames v (prefixedNames symbol name? p) _, ?_⟩
  rw [heq, bind_of_ok hdefined, bind_of_ok hnames, bind_pure_eq]
  refine ⟨rfl, fun n hn => ?_⟩
  dsimp only
  rw [hn]
  rfl

/-- **Counting.**  A prefix counts when its symbol is bound to the unit under it right after this unit
was defined, and the names that are bound later do not change that. -/
theorem result_definePrefixed (h : u.isAffine = false) (symbol : String) (name? : Option String)
    (prefixes : List Prefix) (r : Registry α) :
    (definePrefixed u symbol name? prefixes r).result =
      .ok ((definePrefixed u symbol name? prefixes r).registry.countPrefixed u prefixes) := by
  induction prefixes generalizing r with
  | nil => rfl
  | cons p prefixes ih =>
    obtain ⟨v, hv⟩ : ∃ v, prefixed p u = .ok v := ⟨_, prefixed_eq_ok_iff.mpr ⟨h, rfl⟩⟩
    have hs : v.symbol? = some v.text := by
      obtain ⟨-, rfl⟩ := prefixed_eq_ok_iff.mp hv
      rfl
    obtain ⟨r', hnames, hregistry, hresult⟩ := definePrefixed_cons hv symbol name? prefixes r
    have hknown := knowsSymbol_of_extends_define hs
      (hnames.trans (extends_definePrefixed u symbol name? prefixes r'))
    rw [hresult _ (ih r'), hregistry, countPrefixed, countPrefixed, List.countP_cons, hv, ← hknown]
    split <;> simp_all [Except.toOption]

theorem result_defineMetricFamily (hs : u.symbol? = some symbol) (h : u.isAffine = false)
    (name? : Option String) (r : Registry α) :
    (defineMetricFamily u name? r).result =
      .ok ((defineMetricFamily u name? r).registry.countPrefixed u Prefix.all) := by
  rw [defineMetricFamily_of_symbol? hs]
  exact result_definePrefixed h symbol name? Prefix.all r

/-! ### Refusals -/

section

variable {e : MeasureError α}

theorem define_eq_error (h : (define u r).result = .error e) :
    u.symbol? = none ∧ (define u r).registry = r := by
  cases hs : u.symbol? with
  | none => exact ⟨rfl, congrArg Outcome.registry (define_of_anonymous hs r)⟩
  | some symbol => cases (result_define hs r).symm.trans h

theorem defineNamed_eq_error (h : (defineNamed u name r).result = .error e) :
    u.symbol? = none ∧ (defineNamed u name r).registry = r := by
  cases hs : u.symbol? with
  | none => exact ⟨rfl, congrArg Outcome.registry (defineNamed_of_anonymous hs name r)⟩
  | some symbol => cases (result_defineNamed hs name r).2.symm.trans h

theorem defineMetricFamily_eq_error {name? : Option String}
    (h : (defineMetricFamily u name? r).result = .error e) :
    (u.symbol? = none ∨ u.isAffine = true) ∧ (defineMetricFamily u name? r).registry = r := by
  cases hs : u.symbol? with
  | none => exact ⟨.inl rfl, congrArg Outcome.registry (defineMetricFamily_of_anonymous hs name? r)⟩
  | some symbol =>
    cases ha : u.isAffine with
    | true =>
      exact ⟨.inr rfl, congrArg Outcome.registry (defineMetricFamily_of_affine hs ha name? r)⟩
    | false => cases (result_defineMetricFamily hs ha name? r).symm.trans h

end

/-! ### Units made anew -/

theorem isFactor_prefixFactor (p : Prefix) : Scalar.isFactor (p.factor : Float) = true := by
  cases p <;> decide +kernel

/-- Scales may overflow, but they are defined. -/
theorem beq_self_scale {u : UnitOfMeasure Float} (h : Reachable u) : (u.scale == u.scale) = true := by
  have hone : ((1 : Float) == 1) = true := by decide +kernel
  refine (h.invariant (P := fun u => (u.scale == u.scale) = true) ?_ ?_ ?_ ?_ ?_ ?_ ?_ ?_).1
  · exact fun _ _ => hone
  · intro symbol u v factor hu h
    obtain ⟨-, hfactor, rfl⟩ := scaled_eq_ok_iff.mp h
    exact Binary64.beq_self_mul_of_isFactor hu hfactor
  · intro p u v hu h
    obtain ⟨-, rfl⟩ := prefixed_eq_ok_iff.mp h
    exact Binary64.beq_self_mul_of_isFactor hu (isFactor_prefixFactor p)
  · intro symbol u v factor offset hu h
    obtain ⟨-, hfactor, -, rfl⟩ := affine_eq_ok_iff.mp h
    exact Binary64.beq_self_mul_of_isFactor hu hfactor
  · exact fun _ hu => hu
  · intro u tag hu
    cases u with
    | atom a => exact hu
    | product factors d s => exact hu
  · exact hone
  · intro factors d s hs
    exact Binary64.beq_self_of_isFinite (Bool.and_eq_true_iff.mp hs).2

/-- Units that are the same are worth the same if their worth is defined. -/
theorem beq_eq_isEqualSize [LawfulScalar α] {u v : UnitOfMeasure α}
    (hs : (v.scale == v.scale) = true) (ho : (v.offset == v.offset) = true) :
    (u == v) = u.isEqualSize v := by
  change (u.isSame v || u.isEqualSize v) = u.isEqualSize v
  rw [Bool.or_eq_right_iff_imp]
  intro hsame
  simp only [isSame, Bool.and_eq_true, beq_iff_eq] at hsame
  obtain ⟨⟨⟨⟨-, -⟩, hdimension⟩, hscale⟩, hoffset⟩ := hsame
  rw [isEqualSize, hdimension, LawfulScalar.eq_of_same hscale, LawfulScalar.eq_of_same hoffset, hs, ho,
    beq_self_eq_true]
  rfl

/-- The symbol of a unit under a prefix is known when it is bound to a unit that is worth the same. -/
theorem knowsSymbol_prefixed {u v : UnitOfMeasure Float} {p : Prefix} (hu : Reachable u)
    (hv : prefixed p u = .ok v) (r : Registry Float) :
    r.knowsSymbol v = v.symbol?.any fun symbol => (r.get? symbol).any (·.isEqualSize v) := by
  have hzero : ((0 : Float) == 0) = true := by decide +kernel
  have hscale := beq_self_scale (.prefixed hu hv)
  have hoffset : (v.offset == v.offset) = true := by
    obtain ⟨-, rfl⟩ := prefixed_eq_ok_iff.mp hv
    exact hzero
  simp only [knowsSymbol, knows, beq_eq_isEqualSize hscale hoffset]

/-! ### Reports -/

/-- **Reports are true.**  Binding a name reports whether the name is bound to an equal unit at the
end.  Defining a unit, with a further name or without, reports the same of its symbol, and a metric
family the number of the prefixes whose symbols are bound to the units under them, also where the names
of one prefix are the symbols of another.  A unit without symbol is refused, and so is the metric
family of an affine unit; then the registry is what it was. -/
theorem report_laws (r : Registry α) (u : UnitOfMeasure α) (name : String)
    (name? : Option String) :
    let bound := bindName name u r
    let defined := define u r
    let named := defineNamed u name r
    let family := defineMetricFamily u name? r
    bound.result = .ok (bound.registry.knows name u) ∧
      (u.symbol?.isSome = true →
        defined.result = .ok (defined.registry.knowsSymbol u) ∧
        named.result = .ok (named.registry.knowsSymbol u) ∧
        named.result = defined.result ∧
        (u.isAffine = false →
          family.result = .ok (family.registry.countPrefixed u Prefix.all))) ∧
      (∀ e, defined.result = .error e → u.symbol? = none ∧ defined.registry = r) ∧
      (∀ e, named.result = .error e → u.symbol? = none ∧ named.registry = r) ∧
      ∀ e, family.result = .error e →
        (u.symbol? = none ∨ u.isAffine = true) ∧ family.registry = r := by
  intro bound defined named family
  refine ⟨result_bindName name u r, fun hsome => ?_, fun _ => define_eq_error,
    fun _ => defineNamed_eq_error, fun _ => defineMetricFamily_eq_error⟩
  obtain ⟨symbol, hs⟩ := Option.isSome_iff_exists.mp hsome
  obtain ⟨hsame, hnamed⟩ := result_defineNamed hs name r
  exact ⟨result_define hs r, hnamed, hsame, fun hl => result_defineMetricFamily hs hl name? r⟩

/-- A unit whose symbol under the smallest prefix is its name under the largest one: the largest prefix
comes first, so the smallest one is not counted. -/
theorem report_laws_colliding :
    let u : UnitOfMeasure Float := base "uettam" (.of .length)
    let family := defineMetricFamily u (some "m") .empty
    u.symbol?.isSome = true ∧ u.isAffine = false ∧ family.result = .ok 23 ∧
      (family.registry.get? "quettam").map (·.text) = some "Quettam" := by
  intro u family
  have hsymbol : u.symbol?.isSome = true := rfl
  have hlinear : u.isAffine = false := by decide +kernel
  obtain ⟨-, hresults, -⟩ := report_laws .empty u "m" (some "m")
  have hcount : family.registry.countPrefixed u Prefix.all = 23 := by decide +kernel
  refine ⟨hsymbol, hlinear, ?_, by decide +kernel⟩
  rw [← hcount]
  exact (hresults hsymbol).2.2.2 hlinear

end Registration

end Metrology
