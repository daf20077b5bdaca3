import Metrology.Dimension.Fields
import Metrology.Proofs.Dimension.Algebra
import Metrology.Proofs.Text.Bytes

/-!
# What is stored of a dimension

A dimension is stored as the map of its exponents.  Adding to an exponent removes its key when the sum
is zero, and sets it otherwise (`accumulate?`); a reciprocal or a power is stored as the map of the new
exponents, and no zero is looked for among them (`mapStored?`).  The operations on dimensions drop
zeros throughout.  Both come to the same: negating, and multiplying by an exponent that is not zero,
make no zeros out of other numbers (`mapStored?_entries`), so step by step the map that is stored is
the list of entries of the dimension (`stored_eq`).

A `Construction` is any way to come by a dimension.  What it stores is sparse: each base stands once,
in the order of the bases, with an exponent in lowest terms that is not zero (`Sparse`).  So dimensions
are equal exactly when their exponents are (`sparse_laws`).
-/

namespace Metrology

open SortedEntries

/-! ### Bases in order -/

/-- The base `a` stands before `b`: the bases of the system in their order, then the others in the
order of the bytes of their names. -/
def Base.Precedes (a b : Base) : Prop :=
  Base.si.idxOf a < Base.si.idxOf b ∨
    Base.si.idxOf a = Base.si.idxOf b ∧ Text.bytes a.symbol < Text.bytes b.symbol

theorem Base.rank_eq_idxOf (b : Base) : b.rank = Base.si.idxOf b := by
  cases b with
  | custom name => simp [rank, si]
  | _ => rfl

theorem Base.compare_eq_lt_iff {a b : Base} : compare a b = .lt ↔ a.Precedes b := by
  change compareLex (compareOn rank) (compareOn symbol) a b = .lt ↔ _
  rw [compareLex, Ordering.then_eq_lt, compareOn, compareOn, Nat.compare_eq_lt, Nat.compare_eq_eq,
    Text.compare_eq_lt_iff_bytes, rank_eq_idxOf, rank_eq_idxOf, Precedes]

namespace Dimension

/-! ### Maps of exponents -/

/-- The map of the exponents of a dimension, in the order of its keys. -/
abbrev Stored :=
  List (Base × Exponent)

/-- Adds to the exponent of one base. -/
def accumulate? (s : Stored) (b : Base) (x : Exponent) : Option Stored :=
  (((find? b s).getD 0).add? x).map fun sum => if sum = 0 then erase b s else put b sum s

/-- Adds a list of exponents from left to right. -/
def accumulateAll? (s : Stored) : List (Base × Exponent) → Option Stored
  | [] => some s
  | e :: pairs => (accumulate? s e.1 e.2).bind fun s => accumulateAll? s pairs

/-- The map of what an operation makes of the exponents of a map. -/
def mapStored? (f : Exponent → Option Exponent) (s : Stored) : Option Stored :=
  (s.mapM fun e => (f e.2).map (e.1, ·)).map collect

/-- The map of a power. -/
def powerStored? (s : Stored) (p : Exponent) : Option Stored :=
  if p = 0 then some [] else mapStored? (·.mul? p) s

/-- The map that a list of fields describes. -/
def storedOfFields? (fields : List (String × String)) : Option Stored :=
  match pairsOfFields (keyed fields) with
  | .ok pairs => accumulateAll? [] pairs
  | .error _ => none

theorem accumulate?_entries (d : Dimension) (b : Base) (x : Exponent) :
    accumulate? d.entries b x = (d.addAt? b x).map entries := by
  rw [accumulate?, addAt?, Option.map_map]
  congr 1
  funext sum
  by_cases h : sum = 0 <;> simp [set, h]

theorem accumulateAll?_entries (d : Dimension) (pairs : List (Base × Exponent)) :
    accumulateAll? d.entries pairs = (d.addAll? pairs).map entries := by
  induction pairs generalizing d with
  | nil => rfl
  | cons e pairs ih =>
    rw [accumulateAll?, addAll?, accumulate?_entries]
    cases d.addAt? e.1 e.2 with
    | none => rfl
    | some d' => exact ih d'

/-- An operation that makes no zeros leaves none to drop. -/
theorem mapEntries?_eq_mapM {f : Exponent → Option Exponent}
    (hf : ∀ x y, f x = some y → x ≠ 0 → y ≠ 0) {s : Stored} (hs : ∀ e ∈ s, e.2 ≠ 0) :
    mapEntries? f s = s.mapM fun e => (f e.2).map (e.1, ·) := by
  induction s with
  | nil => rfl
  | cons e s ih =>
    obtain ⟨b, x⟩ := e
    rw [mapEntries?, ih fun e he => hs e (List.mem_cons_of_mem _ he), List.mapM_cons]
    cases hx : f x with
    | none => rfl
    | some y =>
      have hy : y ≠ 0 := hf x y hx (hs (b, x) List.mem_cons_self)
      cases s.mapM fun e => (f e.2).map (e.1, ·) with
      | none => rfl
      | some mapped => simp [hy]

theorem mapStored?_entries {f : Exponent → Option Exponent}
    (hf : ∀ x y, f x = some y → x ≠ 0 → y ≠ 0) (d : Dimension) :
    mapStored? f d.entries = (d.mapExponents? f).map entries := by
  rw [mapStored?, ← mapEntries?_eq_mapM hf d.nonzero]
  unfold mapExponents?
  split
  · rename_i h
    simp only [h, Option.map_none]
  · rename_i mapped h
    -- the keys are still in order, so collecting the new entries changes nothing
    have hsorted : Sorted mapped := d.sorted.sublist_keys (keys_mapEntries? h)
    simp only [h, Option.map_some, collect_of_sorted hsorted]

theorem neg?_ne_zero (x y : Exponent) (h : x.neg? = some y) (hx : x ≠ 0) : y ≠ 0 := by
  rintro rfl
  have hv := Exponent.value_neg? h
  exact hx (Exponent.ext (by simpa using hv.symm))

theorem mul?_ne_zero {p : Exponent} (hp : p ≠ 0) (x y : Exponent) (h : x.mul? p = some y)
    (hx : x ≠ 0) : y ≠ 0 := by
  rintro rfl
  have hv : (0 : ℚ) = x.value * p.value := Exponent.value_mul? h
  rcases mul_eq_zero.mp hv.symm with h0 | h0
  · exact hx (Exponent.ext h0)
  · exact hp (Exponent.ext h0)

theorem powerStored?_entries (d : Dimension) (p : Exponent) :
    powerStored? d.entries p = (d.power? p).map entries := by
  unfold powerStored? power?
  split
  · rfl
  · rename_i hp
    exact mapStored?_entries (mul?_ne_zero hp) d

theorem ofPairs?_singleton (b : Base) : ofPairs? [(b, 1)] = some (of b) := by
  rw [ofPairs?, addAll?, addAt?_of_exponent_eq_zero rfl, Option.bind_some, addAll?, of]

theorem storedOfFields?_eq (fields : List (String × String)) :
    storedOfFields? fields = (ofFields fields).toOption.map entries := by
  unfold storedOfFields? ofFields ofKeyed
  cases pairsOfFields (keyed fields) with
  | error e => rfl
  | ok pairs =>
    have h : accumulateAll? [] pairs = (ofPairs? pairs).map entries :=
      accumulateAll?_entries dimensionless pairs
    simp only [h]
    cases ofPairs? pairs <;> rfl

/-! ### Histories -/

/-- A way to come by a dimension. -/
inductive Construction where
  | ofPairs (pairs : List (Base × Exponent))
  | of (b : Base)
  /-- Reading the fields that a dimension was written as. -/
  | ofFields (fields : List (String × String))
  | multiply (a b : Construction)
  | invert (a : Construction)
  | divide (a b : Construction)
  | power (a : Construction) (p : Exponent)

namespace Construction

/-- The dimension of a construction, if all its steps are defined. -/
def run : Construction → Option Dimension
  | ofPairs pairs => ofPairs? pairs
  | of b => some (.of b)
  | ofFields fields => (Dimension.ofFields fields).toOption
  | multiply a b => a.run.bind fun x => b.run.bind x.multiply?
  | invert a => a.run.bind invert?
  | divide a b => a.run.bind fun x => b.run.bind x.divide?
  | power a p => a.run.bind (·.power? p)

/-- The map that a construction stores. -/
def stored : Construction → Option Stored
  | ofPairs pairs => accumulateAll? [] pairs
  | of b => accumulateAll? [] [(b, 1)]
  | ofFields fields => storedOfFields? fields
  | multiply a b => a.stored.bind fun s => b.stored.bind (accumulateAll? s)
  | invert a => a.stored.bind (mapStored? Exponent.neg?)
  | divide a b =>
    a.stored.bind fun s => b.stored.bind fun t =>
      (mapStored? Exponent.neg? t).bind (accumulateAll? s)
  | power a p => a.stored.bind (powerStored? · p)

/-- **What is stored is the dimension.** -/
theorem stored_eq (c : Construction) : c.stored = c.run.map entries := by
  -- the operands are undefined on both sides, or stored as the entries of dimensions
  induction c with
  | ofPairs pairs => exact accumulateAll?_entries dimensionless pairs
  | of b =>
    rw [stored, run, ← ofPairs?_singleton]
    exact accumulateAll?_entries dimensionless [(b, 1)]
  | ofFields fields => exact storedOfFields?_eq fields
  | multiply a b iha ihb =>
    rw [stored, run, iha, ihb]
    cases a.run with
    | none => rfl
    | some x =>
      cases b.run with
      | none => rfl
      | some y => exact accumulateAll?_entries x y.entries
  | invert a ih =>
    rw [stored, run, ih]
    cases a.run with
    | none => rfl
    | some x => exact mapStored?_entries neg?_ne_zero x
  | divide a b iha ihb =>
    rw [stored, run, iha, ihb]
    cases a.run with
    | none => rfl
    | some x =>
      cases b.run with
      | none => rfl
      | some y =>
        change (mapStored? Exponent.neg? y.entries).bind (accumulateAll? x.entries) =
          (y.invert?.bind x.multiply?).map entries
        rw [mapStored?_entries neg?_ne_zero y]
        change (y.invert?.map entries).bind _ = _
        cases y.invert? with
        | none => rfl
        | some z => exact accumulateAll?_entries x z.entries
  | power a p ih =>
    rw [stored, run, ih]
    cases a.run with
    | none => rfl
    | some x => exact powerStored?_entries x p

end Construction

/-! ### Sparse maps -/

/-- A map without zeros, with each base once, in order, and with exponents in lowest terms whose
numerators and positive denominators are words. -/
structure Sparse (s : Stored) : Prop where
  nonzero : ∀ e ∈ s, e.2 ≠ 0
  once : (s.map Prod.fst).Nodup
  ordered : (s.map Prod.fst).Pairwise Base.Precedes
  reduced : ∀ e ∈ s, e.2.value.num.natAbs.Coprime e.2.value.den ∧ 0 < e.2.value.den
  inWord : ∀ e ∈ s, InWord e.2.value.num ∧ InWord e.2.value.den

theorem sparse_entries (d : Dimension) : Sparse d.entries where
  nonzero := d.nonzero
  once := d.sorted.nodup
  ordered := d.sorted.imp Base.compare_eq_lt_iff.mp
  reduced := fun e _ => ⟨e.2.value.reduced, e.2.value.den_pos⟩
  inWord := fun e _ => ⟨e.2.num_inWord, e.2.den_inWord⟩

theorem isDimensionless_iff {d : Dimension} :
    d.isDimensionless = true ↔ ∀ b, d.exponent b = 0 := by
  have hempty : d.isDimensionless = true ↔ d.entries = dimensionless.entries :=
    List.isEmpty_iff
  rw [hempty]
  constructor
  · intro h b
    rw [ext h]
    rfl
  · intro h
    exact congrArg entries (ext_exponent (b := dimensionless) h)

/-- **Dimensions are sparse.**  The map that any construction stores is the list of entries of its
dimension, and it is sparse.  So two dimensions are equal exactly when their exponents are, and a
dimension is that of a plain number exactly when its exponents are all zero. -/
theorem sparse_laws (c : Construction) :
    c.stored = c.run.map entries ∧
      ∀ s, c.stored = some s →
        Sparse s ∧
          ∃ d, c.run = some d ∧ d.entries = s ∧
            (∀ (c' : Construction) d', c'.run = some d' →
              ((d == d') = true ↔ ∀ b, d.exponent b = d'.exponent b)) ∧
            (d.isDimensionless = true ↔ ∀ b, d.exponent b = 0) := by
  refine ⟨c.stored_eq, fun s hs => ?_⟩
  rw [c.stored_eq] at hs
  obtain ⟨d, hd, rfl⟩ := Option.map_eq_some_iff.mp hs
  refine ⟨sparse_entries d, d, hd, rfl, fun c' d' _ => ?_, isDimensionless_iff⟩
  rw [beq_iff_eq]
  exact ⟨fun h b => by rw [h], ext_exponent⟩

/-- Information by the square of time, after a length has been read and divided out again. -/
theorem sparse_laws_information :
    let read : Construction := .ofFields [("information", "1/2"), ("length", " 1 "), ("T", "-2")]
    let length : Construction := .power (.multiply (.of .length) (.of .length)) .half
    let s : Stored := [(.time, .ofInt8 (-2)), (.custom "information", .half)]
    (Construction.divide read length).stored = some s ∧ Sparse s ∧
      ∃ d, (Construction.divide read length).run = some d ∧ d.entries = s := by
  intro read length s
  have hs : (Construction.divide read length).stored = some s := by decide +kernel
  obtain ⟨hsparse, d, hd, hentries, -⟩ := (sparse_laws (.divide read length)).2 s hs
  exact ⟨hs, hsparse, d, hd, hentries⟩

end Dimension

end Metrology
