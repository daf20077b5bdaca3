import Metrology.Proofs.UnitOfMeasure.Worth

/-!
# Signs and magnitudes of real scales

With roots the scale of a unit is no longer fixed by its factors: the square of a unit of scale -1
has the scale 1, its root is computed as 1, and the factors come down to the unit of scale -1.  What
the factors do fix is the magnitude.  A scale has the *size* of factors when its logarithm is the sum
of the logarithms of their scales, each times the exponent (`Sizes`); the logarithm of a real number
does not tell its sign.

* `sized_of_compose`: composing keeps sizes, and the result has the magnitude that was computed.
* `Built.sized`: the scale of every unit that is built has the size of its factors.
* `Overturns`: the factors come down to an atom of the opposite sign, which is when the sign of the
  result is not the one that was computed (`scale_of_compose`).
-/

namespace Metrology.UnitOfMeasure

open scoped Exact

/-! ### Magnitudes -/

/-- The logarithm of the magnitude that factors multiply up to. -/
noncomputable def logWorth (factors : List (Atom ℝ × Exponent)) : ℝ :=
  total (fun a => Real.log a.scale) factors

/-- A scale that has the magnitude that factors multiply up to. -/
structure Sizes (factors : List (Atom ℝ × Exponent)) (s : ℝ) : Prop where
  factor_ne_zero : ∀ f ∈ factors, f.1.scale ≠ 0
  scale_ne_zero : s ≠ 0
  log_eq : Real.log s = logWorth factors

/-- A unit whose scale has the magnitude of its factors. -/
abbrev Sized (u : UnitOfMeasure ℝ) : Prop :=
  Sizes u.factors u.scale

theorem logWorth_append (l r : List (Atom ℝ × Exponent)) :
    logWorth (l ++ r) = logWorth l + logWorth r :=
  total_append _ l r

theorem logWorth_mapExponents? {f : Exponent → Option Exponent} {q : ℚ}
    (hf : ∀ x y, f x = some y → y.value = q * x.value) {l r : List (Atom ℝ × Exponent)}
    (h : mapExponents? f l = some r) : logWorth r = q * logWorth l := by
  rw [logWorth, total_mapExponents? hf _ h, Rat.smul_def]
  rfl

theorem Merges.sizes {l r : List (Atom ℝ × Exponent)} {s : ℝ} (h : Merges l r) (hs : Sizes l s) :
    Sizes r s where
  factor_ne_zero := h.invariant_atom (P := fun a => a.scale ≠ 0) hs.factor_ne_zero
  scale_ne_zero := hs.scale_ne_zero
  log_eq := hs.log_eq.trans
    (h.total_eq fun _ _ hab => congrArg Real.log (scale_eq_of_isLike hab))

theorem Sizes.abs_eq {factors : List (Atom ℝ × Exponent)} {x y : ℝ} (hx : Sizes factors x)
    (hy : Sizes factors y) : |x| = |y| := by
  have hlog : Real.log |x| = Real.log |y| := by
    rw [Real.log_abs, Real.log_abs, hx.log_eq, hy.log_eq]
  exact Real.log_injOn_pos (abs_pos.mpr hx.scale_ne_zero) (abs_pos.mpr hy.scale_ne_zero) hlog

theorem sized_atom {a : Atom ℝ} (h : a.scale ≠ 0) : (atom a).Sized where
  factor_ne_zero f hf := by
    cases List.mem_singleton.mp hf
    exact h
  scale_ne_zero := h
  log_eq := by simp [logWorth, factors, scale]

theorem sized_one : (one : UnitOfMeasure ℝ).Sized where
  factor_ne_zero f hf := by cases hf
  scale_ne_zero := one_ne_zero
  log_eq := Real.log_one

/-- Composing factors of the computed magnitude gives a unit of that magnitude, also when the result
is an atom of the record. -/
theorem sized_of_compose {factors : List (Atom ℝ × Exponent)} {d : Dimension} {s : ℝ}
    {w : UnitOfMeasure ℝ} (h : compose factors d s = .ok w) (hs : Sizes factors s) :
    w.Sized ∧ |w.scale| = |s| := by
  obtain ⟨-, hm, hw⟩ := composed_of_compose h
  have hsw : Sizes w.factors s := hm.sizes hs
  have hsized : w.Sized := by
    rcases hw with ⟨a, rfl⟩ | hw
    · exact sized_atom (hsw.factor_ne_zero (a, 1) (List.mem_singleton.mpr rfl))
    · have hscale : w.scale = s := by
        rw [hw]
        rfl
      rw [Sized, hscale]
      exact hsw
  exact ⟨hsized, hsized.abs_eq hsw⟩

theorem sizes_multiply {u v : UnitOfMeasure ℝ} (hu : u.Sized) (hv : v.Sized) :
    Sizes (u.factors ++ v.factors) (u.scale * v.scale) where
  factor_ne_zero f hf :=
    (List.mem_append.mp hf).elim (hu.factor_ne_zero f) (hv.factor_ne_zero f)
  scale_ne_zero := mul_ne_zero hu.scale_ne_zero hv.scale_ne_zero
  log_eq := by
    rw [Real.log_mul hu.scale_ne_zero hv.scale_ne_zero, logWorth_append, hu.log_eq, hv.log_eq]

theorem sizes_divide {u v : UnitOfMeasure ℝ} {inverted : List (Atom ℝ × Exponent)} (hu : u.Sized)
    (hv : v.Sized) (h : mapExponents? Exponent.neg? v.factors = some inverted) :
    Sizes (u.factors ++ inverted) (u.scale / v.scale) where
  factor_ne_zero f hf := (List.mem_append.mp hf).elim (hu.factor_ne_zero f)
    (forall_atom_of_mapExponents? (P := fun a => a.scale ≠ 0) h hv.factor_ne_zero f)
  scale_ne_zero := div_ne_zero hu.scale_ne_zero hv.scale_ne_zero
  log_eq := by
    have hinv : logWorth inverted = (-1 : ℚ) * logWorth v.factors :=
      logWorth_mapExponents? (fun x y hxy => by rw [Exponent.value_neg? hxy, neg_one_mul]) h
    rw [Real.log_div hu.scale_ne_zero hv.scale_ne_zero, logWorth_append, hinv, hu.log_eq, hv.log_eq]
    push_cast
    ring

theorem sizes_power {u : UnitOfMeasure ℝ} {p : Exponent} {raised : List (Atom ℝ × Exponent)} {s : ℝ}
    (hu : u.Sized) (h : mapExponents? (·.mul? p) u.factors = some raised)
    (hs : Scalar.raise u.scale p = .ok s) : Sizes raised s where
  factor_ne_zero :=
    forall_atom_of_mapExponents? (P := fun a => a.scale ≠ 0) h hu.factor_ne_zero
  scale_ne_zero := Scalar.raise_ne_zero hu.scale_ne_zero hs
  log_eq := by
    have hraised : logWorth raised = p.value * logWorth u.factors :=
      logWorth_mapExponents? (fun x y hxy => by rw [Exponent.value_mul? hxy, mul_comm]) h
    rw [Scalar.log_raise hu.scale_ne_zero hs, hraised, hu.log_eq]

/-- **Sizes.**  Every unit that is built by the operations, roots included, has a scale of the
magnitude of its factors. -/
theorem Built.sized {powers : Exponent → Prop} {u : UnitOfMeasure ℝ} (h : Built powers u) :
    u.Sized := by
  induction h with
  | base symbol d => exact sized_atom one_ne_zero
  | one => exact sized_one
  | scaled _ h ih =>
    obtain ⟨-, hf, rfl⟩ := scaled_eq_ok_iff.mp h
    exact sized_atom (mul_ne_zero ih.scale_ne_zero (Scalar.exact_isFactor_iff.mp hf))
  | prefixed _ h ih =>
    obtain ⟨-, rfl⟩ := prefixed_eq_ok_iff.mp h
    exact sized_atom (mul_ne_zero ih.scale_ne_zero (prefixFactor_ne_zero _))
  | affine _ h ih =>
    obtain ⟨-, hf, -, rfl⟩ := affine_eq_ok_iff.mp h
    exact sized_atom (mul_ne_zero ih.scale_ne_zero (Scalar.exact_isFactor_iff.mp hf))
  | withSymbol _ symbol ih => exact sized_atom ih.scale_ne_zero
  | @tagged u _ tag ih =>
    cases u with
    | atom a => exact sized_atom ih.scale_ne_zero
    | product factors d s => exact ih
  | multiply _ _ h ihu ihv =>
    obtain ⟨-, -, d, -, hc⟩ := multiply_eq_ok_iff.mp h
    exact (sized_of_compose hc (sizes_multiply ihu ihv)).1
  | divide _ _ h ihu ihv =>
    obtain ⟨-, -, -, d, inverted, -, hi, hc⟩ := divide_eq_ok_iff.mp h
    exact (sized_of_compose hc (sizes_divide ihu ihv hi)).1
  | power _ _ h ih =>
    rcases power_eq_ok_iff.mp h with
      ⟨-, rfl⟩ | ⟨-, -, rfl⟩ | ⟨-, -, -, d, raised, s, -, hr, hs, hc⟩
    · exact ih
    · exact sized_one
    · exact (sized_of_compose hc (sizes_power ih hr hs)).1

/-! ### Signs -/

/-- The factors come down to an atom whose sign is not that of the computed scale. -/
def Overturns (factors : List (Atom ℝ × Exponent)) (s : ℝ) : Prop :=
  ∃ a, remaining factors = .ok [(a, 1)] ∧ a.scale * s < 0

/-- What is composed has the computed scale, with the sign reversed when the factors overturn it. -/
theorem scale_of_compose {factors : List (Atom ℝ × Exponent)} {d : Dimension} {s : ℝ}
    {w : UnitOfMeasure ℝ} (h : compose factors d s = .ok w) (hs : Sizes factors s) :
    (Overturns factors s → w.scale = -s) ∧ (¬Overturns factors s → w.scale = s) := by
  have habs := (sized_of_compose h hs).2
  obtain ⟨-, kept, hk, rfl⟩ := compose_eq_ok_iff.mp h
  rcases settle_cases kept d s with ⟨a, rfl, hw⟩ | ⟨hkept, hw⟩
  · rw [hw] at habs ⊢
    have hsq : 0 < s * s := mul_self_pos.mpr hs.scale_ne_zero
    constructor
    · rintro ⟨b, hb, hneg⟩
      rw [hk] at hb
      cases hb
      rcases abs_eq_abs.mp habs with heq | heq
      · have heq : a.scale = s := heq
        rw [heq] at hneg
        exact absurd hsq hneg.not_gt
      · exact heq
    · intro hover
      rcases abs_eq_abs.mp habs with heq | heq
      · exact heq
      · have heq : a.scale = -s := heq
        exact absurd ⟨a, hk, by rw [heq]; linarith⟩ hover
  · rw [hw]
    refine ⟨?_, fun _ => rfl⟩
    rintro ⟨a, ha, -⟩
    rw [hk] at ha
    exact absurd (Except.ok.inj ha) (hkept a)

end Metrology.UnitOfMeasure
