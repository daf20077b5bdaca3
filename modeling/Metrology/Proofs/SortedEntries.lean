import Mathlib
import Metrology.SortedEntries

/-!
# Maps made of lists of entries

A list of entries in any order becomes a map by putting its entries into the empty map one after the
other (`collect`).  The keys come out in order (`sorted_collect`).  If no key stands twice nothing is
lost, so the map is the list in another order (`collect_perm`), and a list that was in order already
stays as it is (`collect_of_sorted`).
-/

namespace Metrology.SortedEntries

variable {κ β : Type} [Ord κ]

/-- A list of entries as a map; of two entries for one key the later counts. -/
def collect (entries : List (κ × β)) : List (κ × β) :=
  entries.foldl (fun sorted e => put e.1 e.2 sorted) []

theorem put_perm [Std.LawfulEqOrd κ] {k : κ} {v : β} {entries : List (κ × β)}
    (h : k ∉ entries.map Prod.fst) : (put k v entries).Perm ((k, v) :: entries) := by
  induction entries with
  | nil => exact .refl _
  | cons e entries ih =>
    obtain ⟨l, w⟩ := e
    rw [List.map_cons, List.mem_cons, not_or] at h
    simp only [put]
    split
    · exact .refl _
    · rename_i heq
      exact absurd (Std.LawfulEqCmp.eq_of_compare heq) h.1
    · exact ((ih h.2).cons _).trans (.swap _ _ _)

theorem foldl_put_perm [Std.LawfulEqOrd κ] {sorted entries : List (κ × β)}
    (h : ((sorted ++ entries).map Prod.fst).Nodup) :
    (entries.foldl (fun sorted e => put e.1 e.2 sorted) sorted).Perm (sorted ++ entries) := by
  -- each entry goes from the head of the list into the map, so the map is general
  induction entries generalizing sorted with
  | nil => rw [List.append_nil]; exact .refl _
  | cons e entries ih =>
    have hperm : (sorted ++ e :: entries).Perm ((e :: sorted) ++ entries) := List.perm_middle
    have hnodup : (((e :: sorted) ++ entries).map Prod.fst).Nodup :=
      (hperm.map Prod.fst).nodup_iff.mp h
    have hk : e.1 ∉ sorted.map Prod.fst := fun hmem => by
      rw [List.cons_append, List.map_cons, List.map_append] at hnodup
      exact (List.nodup_cons.mp hnodup).1 (List.mem_append_left _ hmem)
    have hput : (put e.1 e.2 sorted ++ entries).Perm ((e :: sorted) ++ entries) :=
      (put_perm hk).append_right entries
    exact (ih ((hput.map Prod.fst).nodup_iff.mpr hnodup)).trans (hput.trans hperm.symm)

/-- A list in which no key stands twice loses nothing. -/
theorem collect_perm [Std.LawfulEqOrd κ] {entries : List (κ × β)}
    (h : (entries.map Prod.fst).Nodup) : (collect entries).Perm entries :=
  foldl_put_perm h

section

variable [Std.TransOrd κ]

theorem Sorted.nodup {entries : List (κ × β)} (h : Sorted entries) :
    (entries.map Prod.fst).Nodup := by
  refine List.Pairwise.imp ?_ h
  rintro k _ hlt rfl
  exact absurd hlt (by simp [Std.ReflCmp.compare_self])

/-- Two maps with the same entries are the same. -/
theorem Sorted.eq_of_perm {entries entries' : List (κ × β)} (h : Sorted entries)
    (h' : Sorted entries') (hperm : entries.Perm entries') : entries = entries' := by
  have hanti : ∀ e f : κ × β, e ∈ entries → f ∈ entries' →
      compare e.1 f.1 = .lt → compare f.1 e.1 = .lt → e = f := by
    intro e f _ _ hef hfe
    rw [Std.OrientedCmp.gt_of_lt hef] at hfe
    cases hfe
  exact hperm.eq_of_pairwise hanti (List.pairwise_map.mp h) (List.pairwise_map.mp h')

variable [Std.LawfulEqOrd κ]

theorem sorted_foldl_put {sorted : List (κ × β)} (h : Sorted sorted) (entries : List (κ × β)) :
    Sorted (entries.foldl (fun sorted e => put e.1 e.2 sorted) sorted) := by
  induction entries generalizing sorted with
  | nil => exact h
  | cons e entries ih => exact ih (h.put e.1 e.2)

theorem sorted_collect (entries : List (κ × β)) : Sorted (collect entries) := by
  have hnil : Sorted ([] : List (κ × β)) := .nil
  exact sorted_foldl_put hnil entries

theorem collect_of_sorted {entries : List (κ × β)} (h : Sorted entries) :
    collect entries = entries :=
  (sorted_collect entries).eq_of_perm h (collect_perm h.nodup)

end

end Metrology.SortedEntries
