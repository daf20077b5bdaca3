/-!
# Base dimensions

The axes of a dimension: the seven of the International System of Units and any number of custom
ones, told apart by their names.  They are ordered as `M L T I Θ N J`, then the custom ones by
their names; names compare by code points, which is also the order of their UTF-8 bytes.

`ofName` resolves a symbol or a name; a custom dimension made by it is never called like one of the
seven (`ofName_symbol`, `ofName_name`).
-/

namespace Metrology

/-- A base dimension. -/
inductive Base where
  | mass
  | length
  | time
  | current
  | temperature
  | amount
  | luminousIntensity
  | custom (name : String)
deriving DecidableEq

namespace Base

/-- The base dimensions of the International System, in order. -/
def si : List Base :=
  [mass, length, time, current, temperature, amount, luminousIntensity]

/-- The symbol that a dimension is written with; of a custom one, its name. -/
def symbol : Base → String
  | mass => "M"
  | length => "L"
  | time => "T"
  | current => "I"
  | temperature => "Θ"
  | amount => "N"
  | luminousIntensity => "J"
  | custom name => name

/-- The name in words. -/
def name : Base → String
  | mass => "mass"
  | length => "length"
  | time => "time"
  | current => "current"
  | temperature => "temperature"
  | amount => "amount"
  | luminousIntensity => "luminous_intensity"
  | custom name => name

/-- Whether the dimension lies outside the International System. -/
def isCustom : Base → Bool
  | custom _ => true
  | _ => false

/-- The dimension of a symbol or a name; what names none of the seven is a custom dimension. -/
def ofName (s : String) : Base :=
  (si.find? fun b => b.symbol == s || b.name == s).getD (custom s)

theorem ofName_symbol {b : Base} (h : b ∈ si) : ofName b.symbol = b := by
  simp only [si, List.mem_cons, List.not_mem_nil, or_false] at h
  rcases h with rfl | rfl | rfl | rfl | rfl | rfl | rfl <;> decide

theorem ofName_name {b : Base} (h : b ∈ si) : ofName b.name = b := by
  simp only [si, List.mem_cons, List.not_mem_nil, or_false] at h
  rcases h with rfl | rfl | rfl | rfl | rfl | rfl | rfl <;> decide

/-- A dimension made from a name is found again under its symbol. -/
theorem ofName_symbol_ofName (s : String) : ofName (ofName s).symbol = ofName s := by
  cases h : si.find? fun b => b.symbol == s || b.name == s with
  | none =>
    have hs : ofName s = custom s := by simp [ofName, h]
    rw [hs, symbol, hs]
  | some b =>
    have hs : ofName s = b := by simp [ofName, h]
    rw [hs, ofName_symbol (List.mem_of_find?_eq_some h)]

/-! ### Order -/

/-- The place of a dimension among the seven; the custom ones share the last. -/
def rank : Base → Nat
  | mass => 0
  | length => 1
  | time => 2
  | current => 3
  | temperature => 4
  | amount => 5
  | luminousIntensity => 6
  | custom _ => 7

instance : Ord Base where
  compare := compareLex (compareOn rank) (compareOn symbol)

instance : Std.TransOrd Base :=
  inferInstanceAs (Std.TransCmp (compareLex (compareOn rank) (compareOn symbol)))

theorem eq_of_rank_eq {a b : Base} (h : a.rank = b.rank) (hs : a.symbol = b.symbol) : a = b := by
  cases a <;> cases b <;> simp_all [rank, symbol]

instance : Std.LawfulEqOrd Base where
  compare_self := Std.ReflCmp.compare_self
  eq_of_compare {a b} h := by
    obtain ⟨hr, hs⟩ := compareLex_eq_eq.mp h
    exact eq_of_rank_eq (Std.LawfulEqCmp.eq_of_compare hr) (Std.LawfulEqCmp.eq_of_compare hs)

end Base

end Metrology
