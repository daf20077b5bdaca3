import Mathlib

/-!
# Results of partial operations

Operations on units and quantities give a result or an error.  Chained operations give a result
exactly when each of them does, one after the other, and otherwise the error of the first that
fails.
-/

namespace Metrology.Result

variable {ε ε' β γ : Type}

theorem bind_eq_ok {x : Except ε β} {f : β → Except ε γ} {c : γ} :
    x.bind f = .ok c ↔ ∃ b, x = .ok b ∧ f b = .ok c := by
  cases x <;> simp [Except.bind]

theorem bind_bind_eq_ok {δ : Type} {x : Except ε β} {y : Except ε γ} {f : β → γ → Except ε δ}
    {d : δ} :
    (x.bind fun b => y.bind (f b)) = .ok d ↔ ∃ b c, x = .ok b ∧ y = .ok c ∧ f b c = .ok d := by
  cases x <;> cases y <;> simp [Except.bind]

theorem map_eq_ok {x : Except ε β} {f : β → γ} {c : γ} :
    x.map f = .ok c ↔ ∃ b, x = .ok b ∧ f b = c := by
  cases x <;> simp [Except.map]

theorem bind_eq_error {x : Except ε β} {f : β → Except ε γ} {e : ε} :
    x.bind f = .error e ↔ x = .error e ∨ ∃ b, x = .ok b ∧ f b = .error e := by
  cases x <;> simp [Except.bind]

theorem map_eq_error {x : Except ε β} {f : β → γ} {e : ε} :
    x.map f = .error e ↔ x = .error e := by
  cases x <;> simp [Except.map]

theorem mapError_eq_ok {x : Except ε β} {f : ε → ε'} {b : β} :
    x.mapError f = .ok b ↔ x = .ok b := by
  cases x <;> simp [Except.mapError]

theorem exists_of_isOk {x : Except ε β} (h : x.isOk = true) : ∃ b, x = .ok b := by
  cases x with
  | error e => cases h
  | ok b => exact ⟨b, rfl⟩

theorem eq_ok_of_toOption {x : Except ε β} {b : β} (h : x.toOption = some b) : x = .ok b := by
  cases x with
  | error e => cases h
  | ok c =>
    cases h
    rfl

theorem exists_of_mem_mapM {f : β → Except ε γ} {l : List β} {r : List γ} (h : l.mapM f = .ok r) :
    ∀ c ∈ r, ∃ b ∈ l, f b = .ok c := by
  induction l generalizing r with
  | nil =>
    cases h
    exact fun c hc => by cases hc
  | cons b l ih =>
    rw [List.mapM_cons] at h
    obtain ⟨c, hc, h⟩ := bind_eq_ok.mp h
    obtain ⟨cs, hcs, h⟩ := bind_eq_ok.mp h
    cases h
    intro d hd
    rcases List.mem_cons.mp hd with rfl | hd
    · exact ⟨b, List.mem_cons_self, hc⟩
    · obtain ⟨b', hb', hd⟩ := ih hcs d hd
      exact ⟨b', List.mem_cons_of_mem _ hb', hd⟩

theorem exists_of_mapM_eq_error {f : β → Except ε γ} {l : List β} {e : ε}
    (h : l.mapM f = .error e) : ∃ b ∈ l, f b = .error e := by
  induction l with
  | nil => cases h
  | cons b l ih =>
    rw [List.mapM_cons] at h
    rcases bind_eq_error.mp h with hb | ⟨c, -, h⟩
    · exact ⟨b, List.mem_cons_self, hb⟩
    · rcases bind_eq_error.mp h with hl | ⟨cs, -, h⟩
      · obtain ⟨b', hb', he⟩ := ih hl
        exact ⟨b', List.mem_cons_of_mem _ hb', he⟩
      · cases h

end Metrology.Result
