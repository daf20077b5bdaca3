/-!
# Entries sorted by key

A finite map is kept as the list of its entries in strictly increasing order of their keys
(`Sorted`).  `find?` is the view of such a list as a function; `put` and `erase` act on the view as
one expects (`find?_put`, `find?_erase`), keep the order (`Sorted.put`, `Sorted.erase`), and two
sorted lists with the same view are the same list (`Sorted.ext`).
-/

namespace Metrology.SortedEntries

variable {κ β : Type} [Ord κ]

/-- The keys increase strictly. -/
def Sorted (entries : List (κ × β)) : Prop :=
  (entries.map Prod.fst).Pairwise fun k l => compare k l = .lt

/-- The value at a key. -/
def find? (k : κ) : List (κ × β) → Option β
  | [] => none
  | (l, v) :: entries => if compare k l = .eq then some v else find? k entries

/-- Sets the value at a key. -/
def put (k : κ) (v : β) : List (κ × β) → List (κ × β)
  | [] => [(k, v)]
  | (l, w) :: entries =>
    match compare k l with
    | .lt => (k, v) :: (l, w) :: entries
    | .eq => (k, v) :: entries
    | .gt => (l, w) :: put k v entries

/-- Removes a key. -/
def erase (k : κ) : List (κ × β) → List (κ × β)
  | [] => []
  | (l, w) :: entries => if compare k l = .eq then entries else (l, w) :: erase k entries

/-! ### Keys and members -/

theorem key_mem_of_mem_put {k l : κ} {v : β} {entries : List (κ × β)}
    (h : l ∈ (put k v entries).map Prod.fst) : l = k ∨ l ∈ entries.map Prod.fst := by
  induction entries with
  | nil => simpa [put] using h
  | cons e entries ih =>
    simp only [put] at h
    split at h
    · simpa using h
    · simp only [List.map_cons, List.mem_cons] at h ⊢
      rcases h with h | h
      · exact .inl h
      · exact .inr (.inr h)
    · simp only [List.map_cons, List.mem_cons] at h ⊢
      rcases h with h | h
      · exact .inr (.inl h)
      · exact (ih h).imp id .inr

theorem mem_of_mem_put {k : κ} {v : β} {e : κ × β} {entries : List (κ × β)}
    (h : e ∈ put k v entries) : e = (k, v) ∨ e ∈ entries := by
  induction entries with
  | nil => simpa [put] using h
  | cons f entries ih =>
    simp only [put] at h
    split at h
    · simpa using h
    · rcases List.mem_cons.mp h with h | h
      · exact .inl h
      · exact .inr (List.mem_cons_of_mem _ h)
    · rcases List.mem_cons.mp h with h | h
      · exact .inr (List.mem_cons.mpr (.inl h))
      · exact (ih h).imp id (List.mem_cons_of_mem _)

theorem erase_sublist (k : κ) (entries : List (κ × β)) : (erase k entries).Sublist entries := by
  induction entries with
  | nil => exact .slnil
  | cons e entries ih =>
    simp only [erase]
    split
    · exact List.sublist_cons_self _ _
    · exact ih.cons_cons _

theorem Sorted.sublist {entries entries' : List (κ × β)} (h : Sorted entries)
    (hs : entries'.Sublist entries) : Sorted entries' :=
  List.Pairwise.sublist (hs.map Prod.fst) h

theorem Sorted.sublist_keys {γ : Type} {entries : List (κ × β)} {entries' : List (κ × γ)}
    (h : Sorted entries) (hs : (entries'.map Prod.fst).Sublist (entries.map Prod.fst)) :
    Sorted entries' :=
  List.Pairwise.sublist hs h

theorem Sorted.erase {entries : List (κ × β)} (h : Sorted entries) (k : κ) :
    Sorted (erase k entries) :=
  h.sublist (erase_sublist k entries)

theorem Sorted.put [Std.TransOrd κ] [Std.LawfulEqOrd κ] {entries : List (κ × β)}
    (h : Sorted entries) (k : κ) (v : β) : Sorted (put k v entries) := by
  induction entries with
  | nil => exact List.pairwise_singleton _ _
  | cons e entries ih =>
    obtain ⟨l, w⟩ := e
    have hc := List.pairwise_cons.mp h
    simp only [SortedEntries.put]
    split
    · rename_i hlt
      refine List.pairwise_cons.mpr ⟨?_, h⟩
      intro m hm
      rcases List.mem_cons.mp hm with rfl | hm
      · exact hlt
      · exact Std.TransCmp.lt_trans hlt (hc.1 m hm)
    · rename_i heq
      cases Std.LawfulEqCmp.eq_of_compare heq
      exact h
    · rename_i hgt
      refine List.pairwise_cons.mpr ⟨?_, ih hc.2⟩
      intro m hm
      rcases key_mem_of_mem_put hm with rfl | hm
      · exact Std.OrientedCmp.lt_of_gt hgt
      · exact hc.1 m hm

/-! ### The view -/

theorem mem_of_find? [Std.LawfulEqOrd κ] {k : κ} {v : β} {entries : List (κ × β)}
    (h : find? k entries = some v) : (k, v) ∈ entries := by
  induction entries with
  | nil => cases h
  | cons e entries ih =>
    simp only [find?] at h
    split at h
    · rename_i heq
      cases Std.LawfulEqCmp.eq_of_compare heq
      cases h
      exact List.mem_cons_self
    · exact List.mem_cons_of_mem _ (ih h)

theorem find?_eq_none_of_lt [Std.OrientedOrd κ] {k : κ} {entries : List (κ × β)}
    (h : ∀ l ∈ entries.map Prod.fst, compare k l = .lt) : find? k entries = none := by
  induction entries with
  | nil => rfl
  | cons e entries ih =>
    have he := h e.1 (by simp)
    simp only [find?, he, reduceCtorEq, if_false]
    exact ih fun l hl => h l (List.mem_cons_of_mem _ hl)

theorem find?_put [Std.TransOrd κ] [Std.LawfulEqOrd κ] (k l : κ) (v : β)
    (entries : List (κ × β)) :
    find? l (put k v entries) = if compare l k = .eq then some v else find? l entries := by
  induction entries with
  | nil => simp [put, find?]
  | cons e entries ih =>
    obtain ⟨m, w⟩ := e
    simp only [put]
    split
    · simp [find?]
    · rename_i heq
      cases Std.LawfulEqCmp.eq_of_compare heq
      simp only [find?]
      split <;> rfl
    · rename_i hgt
      simp only [find?, ih]
      by_cases hm : compare l m = .eq
      · cases Std.LawfulEqCmp.eq_of_compare hm
        simp [Std.OrientedCmp.lt_of_gt hgt]
      · simp [hm]

theorem find?_erase [Std.TransOrd κ] [Std.LawfulEqOrd κ] {entries : List (κ × β)}
    (h : Sorted entries) (k l : κ) :
    find? l (erase k entries) = if compare l k = .eq then none else find? l entries := by
  induction entries with
  | nil => simp [erase, find?]
  | cons e entries ih =>
    obtain ⟨m, w⟩ := e
    have hc := List.pairwise_cons.mp h
    simp only [erase]
    split
    · rename_i heq
      cases Std.LawfulEqCmp.eq_of_compare heq
      simp only [find?]
      split
      · rename_i hl
        cases Std.LawfulEqCmp.eq_of_compare hl
        exact find?_eq_none_of_lt hc.1
      · rfl
    · rename_i hne
      simp only [find?, ih hc.2]
      by_cases hm : compare l m = .eq
      · cases Std.LawfulEqCmp.eq_of_compare hm
        have : compare l k ≠ .eq := fun h' => hne (Std.OrientedCmp.eq_symm h')
        simp [this]
      · simp [hm]

/-- A sorted list is determined by its view. -/
theorem Sorted.ext [Std.TransOrd κ] [Std.LawfulEqOrd κ] {a b : List (κ × β)} (ha : Sorted a)
    (hb : Sorted b) (h : ∀ k, find? k a = find? k b) : a = b := by
  induction a generalizing b with
  | nil =>
    cases b with
    | nil => rfl
    | cons e b => simpa [find?] using h e.1
  | cons e a ih =>
    obtain ⟨k, v⟩ := e
    cases b with
    | nil => simpa [find?] using h k
    | cons f b =>
      obtain ⟨l, w⟩ := f
      have hac := List.pairwise_cons.mp ha
      have hbc := List.pairwise_cons.mp hb
      have hkl : compare k l = .eq := by
        cases hc : compare k l with
        | eq => rfl
        | lt =>
          have hn : find? k ((l, w) :: b) = none := find?_eq_none_of_lt (by
            intro m hm
            rcases List.mem_cons.mp hm with rfl | hm
            · exact hc
            · exact Std.TransCmp.lt_trans hc (hbc.1 m hm))
          have := h k
          rw [hn] at this
          simp [find?] at this
        | gt =>
          have hc' := Std.OrientedCmp.lt_of_gt hc
          have hn : find? l ((k, v) :: a) = none := find?_eq_none_of_lt (by
            intro m hm
            rcases List.mem_cons.mp hm with rfl | hm
            · exact hc'
            · exact Std.TransCmp.lt_trans hc' (hac.1 m hm))
          have := h l
          rw [hn] at this
          simp [find?] at this
      cases Std.LawfulEqCmp.eq_of_compare hkl
      have hvw : v = w := by simpa [find?] using h k
      subst hvw
      congr 1
      refine ih hac.2 hbc.2 fun m => ?_
      by_cases hm : compare m k = .eq
      · cases Std.LawfulEqCmp.eq_of_compare hm
        rw [find?_eq_none_of_lt hac.1, find?_eq_none_of_lt hbc.1]
      · simpa [find?, hm] using h m

end Metrology.SortedEntries
