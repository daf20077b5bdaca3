import Mathlib.Data.List.TakeWhile
import Metrology.Prefix
import Metrology.ProductText
import Metrology.Proofs.Exponent.Integer

/-!
# Reading a product of powers

The text of a product of powers is taken apart at its spaces, and the text of a power at its caret, if
the symbols have neither (`IsWord`) and none of them is the text of the empty product.  So products
of such symbols are written differently (`productText_injective`), and a product is written like one of
the symbols only if it is the first power of that symbol (`eq_single_of_isWord`).
-/

namespace Metrology

/-- A symbol that can be found again in the text of a product. -/
structure IsWord (s : String) : Prop where
  ne_empty : s ≠ ""
  ne_one : s ≠ "1"
  no_space : ' ' ∉ s.toList
  no_caret : '^' ∉ s.toList

instance (s : String) : Decidable (IsWord s) :=
  decidable_of_iff (s ≠ "" ∧ s ≠ "1" ∧ ' ' ∉ s.toList ∧ '^' ∉ s.toList)
    ⟨fun ⟨he, ho, hs, hc⟩ => ⟨he, ho, hs, hc⟩, fun ⟨he, ho, hs, hc⟩ => ⟨he, ho, hs, hc⟩⟩

/-- A word stays one with another word, or the text of the empty product, after it. -/
theorem IsWord.append {s t : String} (hs : IsWord s) (ht : IsWord t ∨ t = "1") :
    IsWord (s ++ t) := by
  have ht : t ≠ "" ∧ ' ' ∉ t.toList ∧ '^' ∉ t.toList := by
    rcases ht with ht | rfl
    · exact ⟨ht.ne_empty, ht.no_space, ht.no_caret⟩
    · decide
  have hlong : ∀ {s : String}, s ≠ "" → 0 < s.toList.length := fun h =>
    List.length_pos_iff.mpr fun hnil => h (String.toList_injective hnil)
  have htwo : 2 ≤ (s ++ t).toList.length := by
    have hs0 := hlong hs.ne_empty
    have ht0 := hlong ht.1
    rw [String.toList_append, List.length_append]
    omega
  refine ⟨fun h => ?_, fun h => ?_, ?_, ?_⟩
  · rw [h] at htwo
    exact absurd htwo (by decide)
  · rw [h] at htwo
    exact absurd htwo (by decide)
  · simp [String.toList_append, hs.no_space, ht.2.1]
  · simp [String.toList_append, hs.no_caret, ht.2.2]

namespace Prefix

theorem isWord_symbol (p : Prefix) : IsWord p.symbol := by
  cases p <;> decide +kernel

theorem isWord_name (p : Prefix) : IsWord p.name := by
  cases p <;> decide +kernel

/-- A word, and the text of the unit `1`, stay readable under a prefix. -/
theorem isWord_append (p : Prefix) {s : String} (h : IsWord s ∨ s = "1") :
    IsWord (p.symbol ++ s) :=
  p.isWord_symbol.append h

end Prefix

/-! ### Exponents -/

namespace Exponent

theorem chars_injective : Function.Injective chars := by
  intro x y h
  have hx := ofChars?_chars x
  rw [h, ofChars?_chars y] at hx
  exact (Option.some.inj hx).symm

/-- An exponent is written with digits, a minus sign and a slash. -/
theorem isDigit_of_mem_chars {x : Exponent} {c : Char} (h : c ∈ x.chars) :
    c.isDigit = true ∨ c = '-' ∨ c = '/' := by
  have hint : c ∈ Numeral.ofInt x.value.num → c.isDigit = true ∨ c = '-' ∨ c = '/' := by
    intro h
    unfold Numeral.ofInt at h
    split at h
    · rcases List.mem_cons.mp h with rfl | h
      · exact .inr (.inl rfl)
      · exact .inl (Numeral.isDigit_of_mem_ofNat h)
    · exact .inl (Numeral.isDigit_of_mem_ofNat h)
  unfold chars at h
  split at h
  · exact hint h
  · rcases List.mem_append.mp h with h | h
    · exact hint h
    · rcases List.mem_cons.mp h with rfl | h
      · exact .inr (.inr rfl)
      · exact .inl (Numeral.isDigit_of_mem_ofNat h)

theorem space_not_mem_chars (x : Exponent) : ' ' ∉ x.chars := by
  intro h
  rcases isDigit_of_mem_chars h with h | h | h <;> exact absurd h (by decide)

end Exponent

/-! ### Powers -/

variable {s t : String} {x y : Exponent}

theorem space_not_mem_powerChars (hs : ' ' ∉ s.toList) (x : Exponent) : ' ' ∉ powerChars s x := by
  unfold powerChars
  split
  · exact hs
  · simp [hs, x.space_not_mem_chars]

/-- A power is taken apart at its caret. -/
theorem takeWhile_powerChars (hs : '^' ∉ s.toList) (x : Exponent) :
    (powerChars s x).takeWhile (· != '^') = s.toList := by
  have hall : ∀ c ∈ s.toList, (c != '^') = true := by
    intro c hc
    rw [bne_iff_ne]
    rintro rfl
    exact hs hc
  unfold powerChars
  split
  · exact List.takeWhile_eq_self_iff.mpr hall
  · rw [List.takeWhile_append_of_pos hall]
    simp

theorem powerChars_injective (hs : '^' ∉ s.toList) (ht : '^' ∉ t.toList)
    (h : powerChars s x = powerChars t y) : s = t ∧ x = y := by
  have hst : s = t := String.toList_injective <| by
    rw [← takeWhile_powerChars hs x, h, takeWhile_powerChars ht y]
  subst hst
  refine ⟨rfl, ?_⟩
  unfold powerChars at h
  split at h <;> split at h
  · rename_i hx hy
    exact hx.trans hy.symm
  · simp at h
  · simp at h
  · exact Exponent.chars_injective (List.cons.inj (List.append_cancel_left h)).2

/-! ### Products -/

variable {l l' : List (String × Exponent)}

/-- A product is taken apart at its spaces. -/
theorem splitOn_productChars (hl : ∀ f ∈ l, IsWord f.1) :
    (productChars l).splitOn ' ' =
      if l = [] then [['1']] else l.map fun f => powerChars f.1 f.2 := by
  cases l with
  | nil => rfl
  | cons f l =>
    rw [if_neg (List.cons_ne_nil f l)]
    refine List.splitOn_intercalate ' ' (fun w hw => ?_) (by simp)
    obtain ⟨g, hg, rfl⟩ := List.mem_map.mp hw
    exact space_not_mem_powerChars (hl g hg).no_space g.2

/-- A power of a word is not the text of the empty product. -/
theorem powerChars_ne_one (hs : IsWord s) (x : Exponent) : powerChars s x ≠ ['1'] := by
  intro h
  have htake := takeWhile_powerChars hs.no_caret x
  rw [h] at htake
  exact hs.ne_one (String.toList_injective htake.symm)

theorem eq_of_map_powerChars (hl : ∀ f ∈ l, IsWord f.1) (hl' : ∀ f ∈ l', IsWord f.1)
    (h : l.map (fun f => powerChars f.1 f.2) = l'.map fun f => powerChars f.1 f.2) : l = l' := by
  induction l generalizing l' with
  | nil => exact (List.map_eq_nil_iff.mp h.symm).symm
  | cons f l ih =>
    obtain ⟨g, l', rfl, hfg, hll'⟩ := List.map_eq_cons_iff.mp h.symm
    obtain ⟨hf, hl⟩ := List.forall_mem_cons.mp hl
    obtain ⟨hg, hl'⟩ := List.forall_mem_cons.mp hl'
    rw [Prod.ext_iff.mpr (powerChars_injective hg.no_caret hf.no_caret hfg), ih hl hl' hll'.symm]

/-- **Products of words are written differently.** -/
theorem productText_injective (hl : ∀ f ∈ l, IsWord f.1) (hl' : ∀ f ∈ l', IsWord f.1)
    (h : productText l = productText l') : l = l' := by
  have hone : ∀ {l : List (String × Exponent)}, (∀ f ∈ l, IsWord f.1) →
      [['1']] ≠ l.map fun f => powerChars f.1 f.2 := by
    intro l hl h
    obtain ⟨f, rest, rfl, hf, -⟩ := List.map_eq_cons_iff.mp h.symm
    exact powerChars_ne_one (hl f List.mem_cons_self) f.2 hf
  have hsplit := congrArg (List.splitOn ' ') (String.ofList_injective h)
  rw [splitOn_productChars hl, splitOn_productChars hl'] at hsplit
  split at hsplit <;> split at hsplit
  · rename_i hnil hnil'
    exact hnil.trans hnil'.symm
  · exact absurd hsplit (hone hl')
  · exact absurd hsplit.symm (hone hl)
  · exact eq_of_map_powerChars hl hl' hsplit

theorem productText_single (s : String) : productText [(s, 1)] = s := by
  simp [productText, productChars, powerChars]

/-- What is written before a product that starts with a first power is written before its symbol. -/
theorem productText_append (before s : String) (l : List (String × Exponent)) :
    productText ((before ++ s, 1) :: l) = before ++ productText ((s, 1) :: l) := by
  refine String.toList_injective ?_
  cases l with
  | nil => simp [productText_single]
  | cons f l => simp [productText, productChars, powerChars, List.intercalate_cons_cons]

/-- A product that is written like a word is the first power of that word. -/
theorem eq_single_of_isWord (hl : ∀ f ∈ l, IsWord f.1) (h : IsWord (productText l)) :
    l = [(productText l, 1)] := by
  refine productText_injective hl (fun f hf => ?_) (productText_single _).symm
  rw [List.mem_singleton.mp hf]
  exact h

end Metrology
