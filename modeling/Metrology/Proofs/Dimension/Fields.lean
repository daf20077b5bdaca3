import Metrology.Dimension.Fields
import Metrology.Proofs.Dimension.Algebra
import Metrology.Proofs.Text.Bytes
import Metrology.Proofs.Text.Product

/-!
# Dimensions from the fields they are written as

A dimension is written as a map from the symbols of its bases to the texts of their exponents, and read
by resolving each key and adding up the exponents.  A base that was made from a name is found again
under its symbol (`ofName_symbol_of_isNamed`), so no two of the bases have one symbol, each field is
read as the entry that it was written for (`readsAs_field`), and the map has lost none of them.  The
keys of the map are in another order than the bases, which makes no difference to a sum over different
bases: reading undoes writing (`fields_laws`).
-/

namespace Metrology

open SortedEntries

/-! ### Bases and exponents -/

/-- A base that lies outside the system was made from a name. -/
def Base.IsNamed (b : Base) : Prop :=
  b.isCustom = true → ∃ s, b = ofName s

theorem Base.ofName_symbol_of_isNamed {b : Base} (h : b.IsNamed) : ofName b.symbol = b := by
  cases b with
  | custom name =>
    obtain ⟨s, hs⟩ := h rfl
    rw [hs, ofName_symbol_ofName]
  | _ => exact ofName_symbol (by decide)

theorem Text.isBlank_of_isDigit {c : Char} (h : c.isDigit = true) : isBlank c = false := by
  rw [Char.isDigit, Bool.and_eq_true, decide_eq_true_eq, decide_eq_true_eq] at h
  have hlow : 48 ≤ c.toNat := h.1
  have hhigh : c.toNat ≤ 57 := h.2
  rw [isBlank, List.any_eq_false]
  intro r hr
  simp only [blankRanges, List.mem_cons, List.not_mem_nil, or_false] at hr
  rw [Bool.and_eq_true, decide_eq_true_eq, decide_eq_true_eq]
  rcases hr with rfl | rfl | rfl | rfl | rfl | rfl | rfl | rfl | rfl | rfl <;> omega

theorem Exponent.isBlank_of_mem_chars {x : Exponent} {c : Char} (h : c ∈ x.chars) :
    Text.isBlank c = false := by
  rcases isDigit_of_mem_chars h with h | rfl | rfl
  · exact Text.isBlank_of_isDigit h
  · decide
  · decide

namespace Dimension

/-! ### Fields -/

/-- The field `f` is read as the entry `e`. -/
def ReadsAs (f : String × String) (e : Base × Exponent) : Prop :=
  Base.ofName f.1 = e.1 ∧ Exponent.ofChars? (Text.trim f.2.toList) = some e.2

theorem readsAs_field {e : Base × Exponent} (h : e.1.IsNamed) :
    ReadsAs (e.1.symbol, e.2.text) e := by
  refine ⟨Base.ofName_symbol_of_isNamed h, ?_⟩
  rw [Exponent.text, String.toList_ofList,
    Text.trim_eq_self fun _ => Exponent.isBlank_of_mem_chars, Exponent.ofChars?_chars]

theorem pairsOfFields_of_forall₂ {fields : List (String × String)} {pairs : List (Base × Exponent)}
    (h : List.Forall₂ ReadsAs fields pairs) : pairsOfFields fields = .ok pairs := by
  induction h with
  | nil => rfl
  | cons hf _ ih =>
    obtain ⟨hbase, hexponent⟩ := hf
    simp only [pairsOfFields, hexponent, ih, Except.map, hbase]

variable {d : Dimension}

theorem forall₂_toFields (h : ∀ e ∈ d.entries, e.1.IsNamed) :
    List.Forall₂ ReadsAs d.toFields d.entries := by
  rw [toFields, List.forall₂_map_left_iff, List.forall₂_same]
  exact fun e he => readsAs_field (h e he)

/-- Two bases that were made from names have two symbols. -/
theorem nodup_keys_toFields (h : ∀ e ∈ d.entries, e.1.IsNamed) :
    (d.toFields.map Prod.fst).Nodup := by
  have hkeys : d.toFields.map Prod.fst = (d.entries.map Prod.fst).map Base.symbol := by
    simp [toFields]
  rw [hkeys]
  refine List.Nodup.map_on ?_ d.sorted.nodup
  intro b hb c hc hbc
  obtain ⟨e, he, rfl⟩ := List.mem_map.mp hb
  obtain ⟨f, hf, rfl⟩ := List.mem_map.mp hc
  rw [← Base.ofName_symbol_of_isNamed (h e he), hbc, Base.ofName_symbol_of_isNamed (h f hf)]

theorem keyed_eq_collect (fields : List (String × String)) : keyed fields = collect fields :=
  rfl

theorem keyed_toFields_perm (h : ∀ e ∈ d.entries, e.1.IsNamed) :
    (keyed d.toFields).Perm d.toFields := by
  rw [keyed_eq_collect]
  exact collect_perm (nodup_keys_toFields h)

/-- The keys of a map are in the order of their bytes. -/
theorem pairwise_keyed (fields : List (String × String)) :
    ((keyed fields).map Prod.fst).Pairwise fun k l => Text.bytes k < Text.bytes l := by
  rw [keyed_eq_collect]
  exact (sorted_collect fields).imp Text.compare_eq_lt_iff_bytes.mp

theorem ofFields_toFields (h : ∀ e ∈ d.entries, e.1.IsNamed) : ofFields d.toFields = .ok d := by
  obtain ⟨pairs, hread, hperm⟩ :=
    List.perm_comp_forall₂ (keyed_toFields_perm h) (forall₂_toFields h)
  simp only [ofFields, ofKeyed, pairsOfFields_of_forall₂ hread, ofPairs?_of_perm hperm]

/-- **Reading undoes writing.**  A dimension whose bases were made from names is written as a map in
which every base has a key of its own, the keys in the order of their bytes, and it is read from that
map again.  So two such dimensions that are written as one map are the same. -/
theorem fields_laws (h : ∀ e ∈ d.entries, e.1.IsNamed) :
    ofFields d.toFields = .ok d ∧
      (keyed d.toFields).Perm d.toFields ∧
      ((keyed d.toFields).map Prod.fst).Pairwise (fun k l => Text.bytes k < Text.bytes l) ∧
      ∀ d' : Dimension, (∀ e ∈ d'.entries, e.1.IsNamed) →
        keyed d'.toFields = keyed d.toFields → d' = d := by
  refine ⟨ofFields_toFields h, keyed_toFields_perm h, pairwise_keyed _, fun d' h' hmap => ?_⟩
  have hread : ofFields d'.toFields = ofFields d.toFields := congrArg ofKeyed hmap
  rw [ofFields_toFields h, ofFields_toFields h'] at hread
  exact Except.ok.inj hread

/-- A dimension over time, a base without letters and a root of information: its fields, and the map
of them, whose keys come in another order. -/
theorem fields_laws_information :
    let d := (ofSmall [(.time, -2), (.ofName "", 1)]).set (.ofName "information") .half
    (∀ e ∈ d.entries, e.1.IsNamed) ∧
      d.toFields = [("T", "-2"), ("", "1"), ("information", "1/2")] ∧
      keyed d.toFields = [("", "1"), ("T", "-2"), ("information", "1/2")] ∧
      ofFields d.toFields = .ok d := by
  intro d
  have hsymbol : ∀ e ∈ d.entries, Base.ofName e.1.symbol = e.1 := by decide +kernel
  have hnamed : ∀ e ∈ d.entries, e.1.IsNamed := fun e he _ => ⟨_, (hsymbol e he).symm⟩
  exact ⟨hnamed, by decide +kernel, by decide +kernel, (fields_laws hnamed).1⟩

end Dimension

end Metrology
