import Metrology.Proofs.Text.Product
import Metrology.Proofs.UnitOfMeasure.Balance
import Metrology.Proofs.UnitOfMeasure.Worth

/-!
# What a text says of a unit

The text of a unit lists the symbols and exponents of its factors, so it says what the unit is worth if
a symbol says what an atom is worth.  It does for the base units of a `Vocabulary` and for these under
a prefix, the *leaves*, and all factors of a unit that is made of leaves are leaves (`Made.leaf`).
A unit is `Spelled` by a list of leaves that has its text and its worth; two units of one text are
spelled by the same symbols and exponents, and so they are equal (`texts_tell_units`).

A prefix before a product is not understood so: a thousand square metres are written `km^2`, like the
square of a kilometre (`thousand_square_metres`).
-/

namespace Metrology

/-- The unit of a text is known: it is a base unit, given by the dimensions of the symbols of base units,
or the unit that is written `1`. -/
def IsPlain (dimension? : String → Option Dimension) (s : String) (d : Dimension) : Prop :=
  dimension? s = some d ∨ (s = "1" ∧ d = .dimensionless)

/-- Base units whose symbols can be found in the text of a product, and told apart from those of base
units, or of the unit `1`, under a prefix. -/
structure Vocabulary where
  /-- The dimension of the base unit of a symbol. -/
  dimension? : String → Option Dimension
  isWord : ∀ s d, dimension? s = some d → IsWord s
  prefixed_ne : ∀ (p : Prefix) s d t e, IsPlain dimension? s d → dimension? t = some e →
    p.symbol ++ s ≠ t
  prefixed_inj : ∀ (p q : Prefix) s d t e, IsPlain dimension? s d → IsPlain dimension? t e →
    p.symbol ++ s = q.symbol ++ t → p = q ∧ s = t

namespace Vocabulary

variable {V : Vocabulary} {s : String} {d e : Dimension}

theorem isWord_of_isPlain (h : IsPlain V.dimension? s d) : IsWord s ∨ s = "1" := by
  rcases h with h | ⟨rfl, -⟩
  · exact .inl (V.isWord s d h)
  · exact .inr rfl

theorem dimension_unique (hd : IsPlain V.dimension? s d) (he : IsPlain V.dimension? s e) : d = e := by
  rcases hd with hd | ⟨rfl, rfl⟩ <;> rcases he with he | ⟨hs, rfl⟩
  · exact Option.some.inj (hd.symm.trans he)
  · exact absurd hs (V.isWord s d hd).ne_one
  · exact absurd rfl (V.isWord _ e he).ne_one
  · rfl

/-- The symbols of a list of base units, and that of the unit `1`. -/
def symbols (bases : List (String × Dimension)) : List String :=
  "1" :: bases.map Prod.fst

theorem mem_of_lookup {bases : List (String × Dimension)} (h : bases.lookup s = some d) :
    (s, d) ∈ bases := by
  obtain ⟨l, l', rfl, -⟩ := List.lookup_eq_some_iff.mp h
  simp

theorem mem_symbols {bases : List (String × Dimension)} (h : IsPlain (bases.lookup ·) s d) :
    s ∈ symbols bases := by
  rcases h with h | ⟨rfl, -⟩
  · exact List.mem_cons_of_mem _ (List.mem_map_of_mem (mem_of_lookup h))
  · exact List.mem_cons_self

/-- The vocabulary of a list of base units. -/
def ofList (bases : List (String × Dimension)) (hword : ∀ b ∈ bases, IsWord b.1)
    (hne : ∀ p ∈ Prefix.all, ∀ s ∈ symbols bases, ∀ b ∈ bases, p.symbol ++ s ≠ b.1)
    (hinj : ∀ p ∈ Prefix.all, ∀ q ∈ Prefix.all, ∀ s ∈ symbols bases, ∀ t ∈ symbols bases,
      p.symbol ++ s = q.symbol ++ t → p = q ∧ s = t) : Vocabulary where
  dimension? := (bases.lookup ·)
  isWord s d h := hword (s, d) (mem_of_lookup h)
  prefixed_ne p s _ t e hs ht := hne p p.mem_all s (mem_symbols hs) (t, e) (mem_of_lookup ht)
  prefixed_inj p q s _ t _ hs ht :=
    hinj p p.mem_all q q.mem_all s (mem_symbols hs) t (mem_symbols ht)

end Vocabulary

namespace UnitOfMeasure

theorem text_eq_factorsText {α : Type} (u : UnitOfMeasure α) :
    u.text = factorsText u.factors := by
  cases u with
  | atom a => exact (productText_single a.symbol).symm
  | product factors d s => rfl

open scoped Exact

variable {K : Type} [Field K] [LinearOrder K] [IsStrictOrderedRing K] [FloorRing K] [RealPowers K]

/-! ### Leaves -/

/-- An atom that is a base unit, or a base unit or the unit `1` under a prefix. -/
inductive Leaf (V : Vocabulary) (a : Atom K) : Prop
  | base (h : V.dimension? a.symbol = some a.dimension) (hscale : a.scale = 1)
      (hoffset : a.offset = 0)
  | prefixed (p : Prefix) (s : String) (h : IsPlain V.dimension? s a.dimension)
      (hsymbol : a.symbol = p.symbol ++ s) (hscale : a.scale = p.factor) (hoffset : a.offset = 0)

namespace Leaf

variable {V : Vocabulary} {a b : Atom K}

theorem offset_eq (h : Leaf V a) : a.offset = 0 := by
  cases h with
  | base _ _ ho => exact ho
  | prefixed _ _ _ _ _ ho => exact ho

/-- The symbol of a leaf is a word. -/
theorem isWord (h : Leaf V a) : IsWord a.symbol := by
  cases h with
  | base h => exact V.isWord _ _ h
  | prefixed p s h hsymbol =>
    rw [hsymbol]
    exact p.isWord_append (Vocabulary.isWord_of_isPlain h)

/-- A leaf with the symbol of a base unit is worth that unit. -/
theorem of_base {d : Dimension} (h : Leaf V a) (hd : V.dimension? a.symbol = some d) :
    V.dimension? a.symbol = some a.dimension ∧ a.scale = 1 := by
  cases h with
  | base h hscale => exact ⟨h, hscale⟩
  | prefixed p s h hsymbol => exact absurd hsymbol.symm (V.prefixed_ne p s _ _ _ h hd)

/-- The symbol of a leaf says what it is worth. -/
theorem eq_of_symbol (ha : Leaf V a) (hb : Leaf V b) (h : a.symbol = b.symbol) :
    a.dimension = b.dimension ∧ a.scale = b.scale := by
  cases ha with
  | base hda hsa =>
    cases hb with
    | base hdb hsb =>
      rw [h, hdb] at hda
      exact ⟨(Option.some.inj hda).symm, hsa.trans hsb.symm⟩
    | prefixed q t hdb hsymbol => exact absurd (h.trans hsymbol).symm (V.prefixed_ne q t _ _ _ hdb hda)
  | prefixed p s hda hsymbol hsa =>
    cases hb with
    | base hdb => exact absurd (hsymbol.symm.trans h) (V.prefixed_ne p s _ _ _ hda hdb)
    | prefixed q t hdb hsymbol' hsb =>
      obtain ⟨rfl, rfl⟩ := V.prefixed_inj p q s _ t _ hda hdb (hsymbol.symm.trans (h.trans hsymbol'))
      exact ⟨Vocabulary.dimension_unique hda hdb, hsa.trans hsb.symm⟩

end Leaf

/-! ### Spelling -/

variable {V : Vocabulary} {u v w : UnitOfMeasure K} {l l' : List (Atom K × Exponent)}

/-- A unit has the text and the worth of a product of leaves. -/
structure Spelled (V : Vocabulary) (l : List (Atom K × Exponent)) (u : UnitOfMeasure K) : Prop where
  leaf : ∀ f ∈ l, Leaf V f.1
  text_eq : u.text = factorsText l
  degree_eq : u.dimension.degree = factorDegree l
  scale_eq : u.scale = worth l
  offset_eq : u.offset = 0

/-- Leaves that are written alike are worth the same. -/
theorem worth_eq_of_leaf (hl : ∀ f ∈ l, Leaf V f.1) (hl' : ∀ f ∈ l', Leaf V f.1)
    (h : l.map (fun f => (f.1.symbol, f.2)) = l'.map fun f => (f.1.symbol, f.2)) :
    factorDegree l = factorDegree l' ∧ worth l = worth l' := by
  induction l generalizing l' with
  | nil =>
    rw [List.map_eq_nil_iff.mp h.symm]
    exact ⟨rfl, rfl⟩
  | cons f l ih =>
    obtain ⟨g, l', rfl, hfg, hll'⟩ := List.map_eq_cons_iff.mp h.symm
    obtain ⟨hf, hl⟩ := List.forall_mem_cons.mp hl
    obtain ⟨hg, hl'⟩ := List.forall_mem_cons.mp hl'
    obtain ⟨hsymbol, hexponent⟩ := Prod.ext_iff.mp hfg
    obtain ⟨hdimension, hscale⟩ := hg.eq_of_symbol hf hsymbol
    obtain ⟨hdegree, hworth⟩ := ih hl hl' hll'.symm
    simp only at hexponent
    rw [worth_cons, worth_cons, hworth, hscale, hexponent]
    refine ⟨?_, rfl⟩
    unfold factorDegree at hdegree ⊢
    rw [total_cons, total_cons, hdegree, hdimension, hexponent]

/-- Units that are spelled by leaves are equal if they have one text. -/
theorem Spelled.beq_of_text (hu : Spelled V l u) (hv : Spelled V l' v) (h : u.text = v.text) :
    (u == v) = true := by
  rw [hu.text_eq, hv.text_eq] at h
  have hwords : ∀ {l : List (Atom K × Exponent)}, (∀ f ∈ l, Leaf V f.1) →
      ∀ f ∈ l.map fun f => (f.1.symbol, f.2), IsWord f.1 := by
    intro l hl f hf
    obtain ⟨g, hg, rfl⟩ := List.mem_map.mp hf
    exact (hl g hg).isWord
  have hl := productText_injective (hwords hu.leaf) (hwords hv.leaf) h
  obtain ⟨hdegree, hworth⟩ := worth_eq_of_leaf hu.leaf hv.leaf hl
  refine beq_iff.mpr ⟨Dimension.degree_injective ?_, ?_, hu.offset_eq.trans hv.offset_eq.symm⟩
  · rw [hu.degree_eq, hv.degree_eq, hdegree]
  · rw [hu.scale_eq, hv.scale_eq, hworth]

/-! ### Units made of leaves -/

/-- The units that come about from base units by products, quotients, integer powers, and prefixes of
base units and of units without factors. -/
inductive Made (V : Vocabulary) : UnitOfMeasure K → Prop
  | base {s : String} {d : Dimension} (h : V.dimension? s = some d) : Made V (base s d)
  | prefixed {p : Prefix} {s : String} {d : Dimension} {v : UnitOfMeasure K}
      (hd : V.dimension? s = some d) (h : prefixed p (base s d : UnitOfMeasure K) = .ok v) : Made V v
  | prefixedOne {p : Prefix} {u v : UnitOfMeasure K} (hu : Made V u) (hf : u.factors = [])
      (h : prefixed p u = .ok v) : Made V v
  | multiply {u v w : UnitOfMeasure K} (hu : Made V u) (hv : Made V v)
      (h : u.multiply v = .ok w) : Made V w
  | divide {u v w : UnitOfMeasure K} (hu : Made V u) (hv : Made V v)
      (h : u.divide v = .ok w) : Made V w
  | power {u w : UnitOfMeasure K} {p : Exponent} (hu : Made V u) (hp : p.isInteger = true)
      (h : u.power p = .ok w) : Made V w

namespace Made

theorem built (h : Made V u) : IntegrallyBuilt u := by
  induction h with
  | base => exact .base _ _
  | prefixed _ h => exact .prefixed (.base _ _) h
  | prefixedOne _ _ h ih => exact .prefixed ih h
  | multiply _ _ h ihu ihv => exact .multiply ihu ihv h
  | divide _ _ h ihu ihv => exact .divide ihu ihv h
  | power _ hp h ih => exact .power ih hp h

/-- A unit without factors is the unit `1` in text and worth. -/
theorem of_factors_nil (h : Made V u) (hf : u.factors = []) :
    u.text = "1" ∧ u.dimension = .dimensionless ∧ u.scale = 1 := by
  refine ⟨?_, h.built.dimension_of_factors_nil hf, ?_⟩
  · rw [text_eq_factorsText, hf]
    rfl
  · rw [h.built.faithful.scale_eq, hf, worth_nil]

/-- All factors are leaves. -/
theorem leaf (h : Made V u) : ∀ f ∈ u.factors, Leaf V f.1 := by
  induction h with
  | base h => exact forall_factor_atom (.base h rfl rfl)
  | @prefixed p s d v hd h =>
    obtain ⟨-, rfl⟩ := prefixed_eq_ok_iff.mp h
    exact forall_factor_atom (.prefixed p s (.inl hd) rfl (one_mul _) rfl)
  | @prefixedOne p u v hu hf h =>
    obtain ⟨htext, hdimension, hscale⟩ := hu.of_factors_nil hf
    obtain ⟨-, rfl⟩ := prefixed_eq_ok_iff.mp h
    refine forall_factor_atom (.prefixed p "1" (.inr ⟨rfl, hdimension⟩) ?_ ?_ rfl)
    · rw [htext]
    · rw [hscale, one_mul]
  | multiply _ _ h ihu ihv => exact forall_factor_of_multiply h ihu ihv
  | divide _ _ h ihu ihv => exact forall_factor_of_divide h ihu ihv
  | power _ _ h ih => exact forall_factor_of_power h ih

/-- A unit that is made of leaves is spelled by its factors. -/
theorem spelled (h : Made V u) : Spelled V u.factors u where
  leaf := h.leaf
  text_eq := text_eq_factorsText u
  degree_eq := h.built.balanced.1.degree_eq
  scale_eq := h.built.faithful.scale_eq
  offset_eq := by
    cases u with
    | atom a => exact (h.leaf (a, 1) (List.mem_singleton.mpr rfl)).offset_eq
    | product factors d s => rfl

end Made

/-- The units that are made of leaves, and those under a prefix whose text starts with a base unit. -/
inductive Shown (V : Vocabulary) : UnitOfMeasure K → Prop
  | made {u : UnitOfMeasure K} (hu : Made V u) : Shown V u
  | prefixed {p : Prefix} {a : Atom K} {d : Dimension} {rest : List (Atom K × Exponent)}
      {u v : UnitOfMeasure K} (hu : Made V u) (hf : u.factors = (a, 1) :: rest)
      (hd : V.dimension? a.symbol = some d) (h : prefixed p u = .ok v) : Shown V v

/-- A prefix before a product belongs to its first factor. -/
theorem Shown.exists_spelled (h : Shown V u) : ∃ l, Spelled V l u := by
  cases h with
  | made hu => exact ⟨u.factors, hu.spelled⟩
  | @prefixed p a d rest u v hu hf hd h =>
    obtain ⟨-, rfl⟩ := prefixed_eq_ok_iff.mp h
    have hspelled := hu.spelled
    rw [hf] at hspelled
    obtain ⟨ha, hrest⟩ := List.forall_mem_cons.mp hspelled.leaf
    obtain ⟨hplain, hscale⟩ := ha.of_base hd
    let first : Atom K := ⟨p.symbol ++ a.symbol, a.dimension, p.factor, 0, .base, 0⟩
    have hfirst : Leaf V first := .prefixed p a.symbol (.inl hplain) rfl rfl rfl
    have hone : (1 : Exponent).value.num = 1 := rfl
    refine ⟨(first, 1) :: rest, List.forall_mem_cons.mpr ⟨hfirst, hrest⟩, ?_, ?_, ?_, rfl⟩
    · change p.symbol ++ u.text = _
      rw [hspelled.text_eq]
      exact (productText_append p.symbol a.symbol _).symm
    · exact hspelled.degree_eq
    · change u.scale * p.factor = _
      rw [hspelled.scale_eq, worth_cons, worth_cons, hone, zpow_one, zpow_one, hscale, one_mul,
        mul_comm]

/-- **Texts tell units.**  Take base units whose symbols are words, so that no symbol of a base unit or
of the unit `1` is under a prefix the symbol of a base unit or of another one under a prefix.  Of the
units that are made of these by products, quotients, integer powers and prefixes, where a prefix stands
before a base unit or the unit `1`, or at last before a product that starts with a base unit, those of
one text are equal. -/
theorem texts_tell_units (hu : Shown V u) (hv : Shown V v) (h : u.text = v.text) :
    (u == v) = true := by
  obtain ⟨l, hl⟩ := hu.exists_spelled
  obtain ⟨l', hl'⟩ := hv.exists_spelled
  exact hl.beq_of_text hl' h

/-- The metre and the second as base units. -/
def metreAndSecond : Vocabulary :=
  .ofList [("m", .of .length), ("s", .of .time)] (by decide +kernel) (by decide +kernel)
    (by decide +kernel)

/-- Kilometres per second are written like a thousand metres per second, and equal to them. -/
theorem texts_tell_units_speed :
    ∃ km speed thousand : UnitOfMeasure ℚ,
      prefixed .kilo (base "m" (.of .length)) = .ok km ∧
      km.divide (base "s" (.of .time)) = .ok speed ∧
      ((base "m" (.of .length) : UnitOfMeasure ℚ).divide (base "s" (.of .time))).bind
        (prefixed .kilo) = .ok thousand ∧
      Shown metreAndSecond speed ∧ Shown metreAndSecond thousand ∧
      speed.text = "km s^-1" ∧ thousand.text = "km s^-1" ∧ (speed == thousand) = true := by
  let km : Except (MeasureError ℚ) (UnitOfMeasure ℚ) := prefixed .kilo (base "m" (.of .length))
  let second : UnitOfMeasure ℚ := base "s" (.of .time)
  let quotient := (base "m" (.of .length) : UnitOfMeasure ℚ).divide second
  obtain ⟨speed, hspeed⟩ := Result.exists_of_isOk (x := km.bind fun km => km.divide second)
    (by decide +kernel)
  obtain ⟨thousand, hthousand⟩ := Result.exists_of_isOk (x := quotient.bind (prefixed .kilo))
    (by decide +kernel)
  have htexts : ((km.bind fun km => km.divide second).map text).toOption = some "km s^-1" ∧
      ((quotient.bind (prefixed .kilo)).map text).toOption = some "km s^-1" := by decide +kernel
  obtain ⟨k, hk, hkspeed⟩ := Result.bind_eq_ok.mp hspeed
  obtain ⟨q, hq, hqthousand⟩ := Result.bind_eq_ok.mp hthousand
  rw [hspeed, hthousand] at htexts
  obtain ⟨hspeedText, hthousandText⟩ := htexts
  have hmetre : metreAndSecond.dimension? "m" = some (.of .length) := by decide +kernel
  have hsecond : metreAndSecond.dimension? "s" = some (.of .time) := by decide +kernel
  have hs : Shown metreAndSecond speed := .made (.divide (.prefixed hmetre hk) (.base hsecond) hkspeed)
  have ht : Shown metreAndSecond thousand := by
    have hfactors : (quotient.map fun q => q.factors.map fun f => (f.1.symbol, f.2)).toOption =
        some [("m", 1), ("s", .ofInt8 (-1))] := by decide +kernel
    rw [hq] at hfactors
    obtain ⟨⟨a, x⟩, rest, hf, ha, -⟩ := List.map_eq_cons_iff.mp (Option.some.inj hfactors)
    obtain ⟨ha, rfl⟩ := Prod.ext_iff.mp ha
    have hstart : metreAndSecond.dimension? a.symbol = some (.of .length) := by
      rw [show a.symbol = "m" from ha, hmetre]
    exact .prefixed (.divide (.base hmetre) (.base hsecond) hq) hf hstart hqthousand
  have htext : speed.text = thousand.text :=
    (Option.some.inj hspeedText).trans (Option.some.inj hthousandText).symm
  exact ⟨k, speed, thousand, hk, hkspeed, hthousand, hs, ht, Option.some.inj hspeedText,
    Option.some.inj hthousandText, texts_tell_units hs ht htext⟩

/-- A thousand square metres are written like a square kilometre, which is a million of them.  No prefix
is put before a unit under a prefix, and none makes two of the symbols alike. -/
theorem thousand_square_metres :
    ∃ square thousand km million : UnitOfMeasure ℚ,
      (base "m" (.of .length)).power (.ofInt8 2) = .ok square ∧
      prefixed .kilo square = .ok thousand ∧
      prefixed .kilo (base "m" (.of .length)) = .ok km ∧ km.power (.ofInt8 2) = .ok million ∧
      (∀ p q : Prefix, p.symbol ++ "m" ≠ "m" ∧ (p.symbol ++ "m" = q.symbol ++ "m" → p = q)) ∧
      thousand.text = "km^2" ∧ million.text = "km^2" ∧ (thousand == million) = false := by
  let metre : UnitOfMeasure ℚ := base "m" (.of .length)
  let run := (metre.power (.ofInt8 2)).bind (prefixed .kilo)
  let run' := (prefixed .kilo metre).bind (·.power (.ofInt8 2))
  obtain ⟨thousand, hthousand⟩ := Result.exists_of_isOk (x := run) (by decide +kernel)
  obtain ⟨million, hmillion⟩ := Result.exists_of_isOk (x := run') (by decide +kernel)
  have hrun : (run.bind fun t => run'.map fun m => (t.text, m.text, t == m)).toOption =
      some ("km^2", "km^2", false) := by decide +kernel
  obtain ⟨square, hsquare, hprefixed⟩ := Result.bind_eq_ok.mp hthousand
  obtain ⟨km, hkm, hpower⟩ := Result.bind_eq_ok.mp hmillion
  rw [hthousand, hmillion] at hrun
  obtain ⟨htext, hrest⟩ := Prod.ext_iff.mp (Option.some.inj hrun)
  obtain ⟨htext', hne⟩ := Prod.ext_iff.mp hrest
  refine ⟨square, thousand, km, million, hsquare, hprefixed, hkm, hpower, fun p q => ?_, htext,
    htext', hne⟩
  have hprefixes : ∀ p ∈ Prefix.all, ∀ q ∈ Prefix.all, p.symbol ++ "m" ≠ "m" ∧
      (p.symbol ++ "m" = q.symbol ++ "m" → p = q) := by decide +kernel
  exact hprefixes p p.mem_all q q.mem_all

end UnitOfMeasure

end Metrology
