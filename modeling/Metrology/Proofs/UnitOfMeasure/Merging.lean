import Metrology.Proofs.Result
import Metrology.UnitOfMeasure.Composition

/-!
# Taking like atoms together

The factors of a product are found by a search through the atoms met so far (`addFactor`), once for
every factor, and by dropping what cancels.  Most properties of the outcome do not hang on the order
of the search.  They follow from a relation that forgets it: `Merges l r` holds when `r` comes from
`l` by reordering, by adding the exponents of two like atoms and by dropping a zeroth power.

* `merges_of_remaining`: the factors that remain are a merger of the factors that were given.
* `Merges.invariant`: a property of single factors that survives the adding of exponents survives.
* `Merges.total_eq`: a sum of exponents times a weight, the same for like atoms, stays the same.
* `compose_eq_ok_iff`: a product is composed by settling on what remains, which is the atom itself
  if one atom to the first power remains (`settle`).
-/

namespace Metrology.UnitOfMeasure

open Result

variable {α : Type}

/-! ### Totals -/

section Total
variable {M : Type} [AddCommMonoid M] [Module ℚ M]

/-- The sum of the exponents of a product, each times a weight of its atom. -/
def total (φ : Atom α → M) (factors : List (Atom α × Exponent)) : M :=
  (factors.map fun f => f.2.value • φ f.1).sum

@[simp]
theorem total_nil (φ : Atom α → M) : total φ [] = 0 := rfl

@[simp]
theorem total_cons (φ : Atom α → M) (f : Atom α × Exponent) (factors : List (Atom α × Exponent)) :
    total φ (f :: factors) = f.2.value • φ f.1 + total φ factors := by
  simp [total]

@[simp]
theorem total_append (φ : Atom α → M) (l r : List (Atom α × Exponent)) :
    total φ (l ++ r) = total φ l + total φ r := by
  simp [total]

/-- Multiplying all exponents by a number multiplies a total by it. -/
theorem total_mapExponents? {f : Exponent → Option Exponent} {q : ℚ}
    (hf : ∀ x y, f x = some y → y.value = q * x.value) (φ : Atom α → M)
    {l r : List (Atom α × Exponent)} (h : mapExponents? f l = some r) :
    total φ r = q • total φ l := by
  induction l generalizing r with
  | nil =>
    cases h
    simp
  | cons e l ih =>
    simp only [mapExponents?] at h
    split at h
    · rename_i y mapped hy hm
      cases h
      rw [total_cons, total_cons, ih hm, hf _ _ hy, mul_smul, smul_add]
    · cases h

end Total

/-- The factors after a partial operation on the exponents, one by one. -/
theorem mem_of_mapExponents? {f : Exponent → Option Exponent} {l r : List (Atom α × Exponent)}
    (h : mapExponents? f l = some r) {e : Atom α × Exponent} (he : e ∈ r) :
    ∃ x, (e.1, x) ∈ l ∧ f x = some e.2 := by
  induction l generalizing r with
  | nil =>
    cases h
    cases he
  | cons g l ih =>
    simp only [mapExponents?] at h
    split at h
    · rename_i y mapped hy hm
      cases h
      rcases List.mem_cons.mp he with rfl | he
      · exact ⟨g.2, List.mem_cons_self, hy⟩
      · obtain ⟨x, hx, hfx⟩ := ih hm he
        exact ⟨x, List.mem_cons_of_mem _ hx, hfx⟩
    · cases h

theorem forall_atom_of_mapExponents? {P : Atom α → Prop} {f : Exponent → Option Exponent}
    {l r : List (Atom α × Exponent)} (h : mapExponents? f l = some r) (hl : ∀ e ∈ l, P e.1) :
    ∀ e ∈ r, P e.1 := by
  intro e he
  obtain ⟨x, hx, -⟩ := mem_of_mapExponents? h he
  exact hl (e.1, x) hx

/-! ### The relation -/

variable [Scalar α]

/-- One list of powers of atoms comes from another by reordering, by taking two like atoms together
and by dropping a zeroth power. -/
inductive Merges : List (Atom α × Exponent) → List (Atom α × Exponent) → Prop
  | perm {l r : List (Atom α × Exponent)} (h : l.Perm r) : Merges l r
  | like {a b : Atom α} {x y z : Exponent} (l : List (Atom α × Exponent)) (hab : a.isLike b = true)
      (hz : x.add? y = some z) : Merges ((a, x) :: (b, y) :: l) ((a, z) :: l)
  | zero (a : Atom α) (l : List (Atom α × Exponent)) : Merges ((a, 0) :: l) l
  | trans {l m r : List (Atom α × Exponent)} (hl : Merges l m) (hr : Merges m r) : Merges l r

namespace Merges

variable {l r : List (Atom α × Exponent)}

theorem refl (l : List (Atom α × Exponent)) : Merges l l :=
  perm (.refl l)

theorem append_right (h : Merges l r) (t : List (Atom α × Exponent)) :
    Merges (l ++ t) (r ++ t) := by
  induction h with
  | perm h => exact perm (h.append_right t)
  | like l hab hz => exact like (l ++ t) hab hz
  | zero a l => exact zero a (l ++ t)
  | trans _ _ ihl ihr => exact ihl.trans ihr

theorem cons (h : Merges l r) (f : Atom α × Exponent) : Merges (f :: l) (f :: r) :=
  (perm (List.perm_append_singleton f l).symm).trans
    ((h.append_right [f]).trans (perm (List.perm_append_singleton f r)))

/-- A property of factors that survives the adding of exponents holds after merging. -/
theorem invariant {P : Atom α → Exponent → Prop}
    (hP : ∀ a b x y z, a.isLike b = true → x.add? y = some z → P a x → P b y → P a z)
    (h : Merges l r) (hl : ∀ f ∈ l, P f.1 f.2) : ∀ f ∈ r, P f.1 f.2 := by
  induction h with
  | perm h => exact fun f hf => hl f (h.mem_iff.mpr hf)
  | @like a b x y z l hab hz =>
    intro f hf
    rcases List.mem_cons.mp hf with rfl | hf
    · exact hP a b x y z hab hz (hl (a, x) (by simp)) (hl (b, y) (by simp))
    · exact hl f (by simp [hf])
  | zero a l => exact fun f hf => hl f (List.mem_cons_of_mem _ hf)
  | trans _ _ ihl ihr => exact ihr (ihl hl)

/-- A property of the atoms alone holds after merging. -/
theorem invariant_atom {P : Atom α → Prop} (h : Merges l r) (hl : ∀ f ∈ l, P f.1) :
    ∀ f ∈ r, P f.1 :=
  h.invariant (P := fun a _ => P a) (fun _ _ _ _ _ _ _ ha _ => ha) hl

/-- Merging keeps every total whose weights do not tell like atoms apart. -/
theorem total_eq {M : Type} [AddCommMonoid M] [Module ℚ M] {φ : Atom α → M}
    (hφ : ∀ a b, a.isLike b = true → φ a = φ b) (h : Merges l r) : total φ l = total φ r := by
  induction h with
  | perm h => exact (h.map _).sum_eq
  | like l hab hz =>
    simp only [total_cons]
    rw [← add_assoc, ← hφ _ _ hab, ← add_smul, ← Exponent.value_add? hz]
  | zero a l => simp
  | trans _ _ ihl ihr => exact ihl.trans ihr

end Merges

/-! ### What remains of a product -/

/-- The powers of atoms that remain when like atoms are taken together. -/
def remaining (factors : List (Atom α × Exponent)) :
    Except (MeasureError α) (List (Atom α × Exponent)) :=
  (addFactors [] factors).map fun merged => merged.filter (·.2 ≠ 0)

/-- The unit of the powers that remain: an atom to the first power is the atom. -/
def settle (kept : List (Atom α × Exponent)) (dimension : Dimension) (scale : α) :
    UnitOfMeasure α :=
  match kept with
  | [(a, x)] => if x = 1 then atom a else product [(a, x)] dimension scale
  | kept => product kept dimension scale

theorem merges_of_addFactor {merged r : List (Atom α × Exponent)} {f : Atom α × Exponent}
    (h : addFactor merged f = .ok r) : Merges (f :: merged) r := by
  induction merged generalizing r with
  | nil =>
    cases h
    exact .refl [f]
  | cons e merged ih =>
    obtain ⟨a, x⟩ := e
    have hswap : Merges (f :: (a, x) :: merged) ((a, x) :: f :: merged) :=
      .perm (List.Perm.swap _ _ _)
    rw [addFactor] at h
    split at h
    · rename_i hlike
      split at h
      · rename_i sum hsum
        cases h
        exact hswap.trans (.like merged hlike hsum)
      · cases h
    · obtain ⟨r', hr', rfl⟩ := map_eq_ok.mp h
      exact hswap.trans ((ih hr').cons (a, x))

theorem merges_of_addFactors {merged factors r : List (Atom α × Exponent)}
    (h : addFactors merged factors = .ok r) : Merges (merged ++ factors) r := by
  induction factors generalizing merged with
  | nil =>
    cases h
    rw [List.append_nil]
    exact .refl r
  | cons f factors ih =>
    obtain ⟨m, hm, hr⟩ := bind_eq_ok.mp h
    have hmove : Merges (merged ++ f :: factors) (f :: merged ++ factors) :=
      .perm List.perm_middle
    exact hmove.trans (((merges_of_addFactor hm).append_right factors).trans (ih hr))

theorem merges_filter (l : List (Atom α × Exponent)) : Merges l (l.filter (·.2 ≠ 0)) := by
  induction l with
  | nil => exact .refl []
  | cons f l ih =>
    obtain ⟨a, x⟩ := f
    by_cases hx : x = 0
    · subst hx
      simpa using (Merges.zero a l).trans ih
    · simpa [hx] using ih.cons (a, x)

theorem merges_of_remaining {factors kept : List (Atom α × Exponent)}
    (h : remaining factors = .ok kept) : Merges factors kept := by
  obtain ⟨merged, hm, rfl⟩ := map_eq_ok.mp h
  exact (merges_of_addFactors hm).trans (merges_filter merged)

theorem ne_zero_of_remaining {factors kept : List (Atom α × Exponent)}
    (h : remaining factors = .ok kept) : ∀ f ∈ kept, f.2 ≠ 0 := by
  obtain ⟨merged, -, rfl⟩ := map_eq_ok.mp h
  intro f hf
  simpa using (List.mem_filter.mp hf).2

/-! ### Composition -/

omit [Scalar α] in
theorem settle_single_one (a : Atom α) (dimension : Dimension) (scale : α) :
    settle [(a, 1)] dimension scale = atom a := by
  simp [settle]

omit [Scalar α] in
theorem settle_single {a : Atom α} {x : Exponent} (hx : x ≠ 1) (dimension : Dimension) (scale : α) :
    settle [(a, x)] dimension scale = product [(a, x)] dimension scale := by
  simp [settle, hx]

omit [Scalar α] in
theorem settle_cases (kept : List (Atom α × Exponent)) (dimension : Dimension) (scale : α) :
    (∃ a, kept = [(a, 1)] ∧ settle kept dimension scale = atom a) ∨
      ((∀ a, kept ≠ [(a, 1)]) ∧ settle kept dimension scale = product kept dimension scale) := by
  unfold settle
  split
  · rename_i a x
    split
    · rename_i hx
      subst hx
      exact .inl ⟨a, rfl, rfl⟩
    · rename_i hx
      refine .inr ⟨fun b hb => hx ?_, rfl⟩
      simpa using congrArg (List.map Prod.snd) hb
  · rename_i hkept
    exact .inr ⟨fun a => hkept a 1, rfl⟩

theorem compose_eq_ok_iff {factors : List (Atom α × Exponent)} {dimension : Dimension} {scale : α}
    {u : UnitOfMeasure α} :
    compose factors dimension scale = .ok u ↔
      Scalar.isFactor scale = true ∧
        ∃ kept, remaining factors = .ok kept ∧ settle kept dimension scale = u := by
  have hc : compose factors dimension scale =
      if !Scalar.isFactor scale then .error (.invalidScale scale)
      else (remaining factors).map fun kept => settle kept dimension scale := by
    unfold compose remaining
    cases addFactors [] factors <;> rfl
  rw [hc]
  cases hs : Scalar.isFactor scale with
  | false => simp
  | true => simp [map_eq_ok]

/-! ### Errors of composition -/

theorem eq_exponentOverflow_of_addFactor {merged : List (Atom α × Exponent)}
    {f : Atom α × Exponent} {e : MeasureError α} (h : addFactor merged f = .error e) :
    ∃ overflow, e = .exponentOverflow overflow := by
  induction merged with
  | nil => cases h
  | cons g merged ih =>
    rw [addFactor] at h
    split at h
    · split at h
      · cases h
      · cases h
        exact ⟨_, rfl⟩
    · exact ih (map_eq_error.mp h)

theorem eq_exponentOverflow_of_addFactors {merged factors : List (Atom α × Exponent)}
    {e : MeasureError α} (h : addFactors merged factors = .error e) :
    ∃ overflow, e = .exponentOverflow overflow := by
  induction factors generalizing merged with
  | nil => cases h
  | cons f factors ih =>
    rcases bind_eq_error.mp h with hf | ⟨m, -, hm⟩
    · exact eq_exponentOverflow_of_addFactor hf
    · exact ih hm

/-- Composing fails for its scale or for an exponent, and for nothing else. -/
theorem error_of_compose {factors : List (Atom α × Exponent)} {dimension : Dimension} {scale : α}
    {e : MeasureError α} (h : compose factors dimension scale = .error e) :
    e = .invalidScale scale ∨ ∃ overflow, e = .exponentOverflow overflow := by
  unfold compose at h
  split at h
  · cases h
    exact .inl rfl
  · exact .inr (eq_exponentOverflow_of_addFactors (map_eq_error.mp h))

end Metrology.UnitOfMeasure
