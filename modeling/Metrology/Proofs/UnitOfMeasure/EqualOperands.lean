import Metrology.Proofs.UnitOfMeasure.Balance
import Metrology.Proofs.UnitOfMeasure.Magnitude

/-!
# Products, quotients and powers of equal units

Units are equal when they are worth the same, so operations should not tell them apart.  Over the
real numbers they nearly do not: results of equal operands have the same dimension and the same
magnitude (`EqualUpToSign`).  Their signs can differ, for a result that is an atom of the record has
the sign of that atom and any other result the sign that was computed.  So the results are equal when
the record overturns the computed sign in both runs or in neither (`equal_iff_overturned_alike`).

Two kinds of records never overturn a sign: those of units that are built with integer powers only
(`equal_of_integral`), and those without negative scales (`equal_of_positive`).  The square of a unit
of negative scale belongs to neither, and its root is not that of an equal base unit
(`equal_areas_with_unequal_roots`).
-/

namespace Metrology.UnitOfMeasure

open scoped Exact

/-! ### Signs of results -/

/-- The sign of a product is not the product of the signs. -/
def ProductOverturns (u v : UnitOfMeasure ℝ) : Prop :=
  Overturns (u.factors ++ v.factors) (u.scale * v.scale)

/-- The sign of a quotient is not the quotient of the signs. -/
def QuotientOverturns (u v : UnitOfMeasure ℝ) : Prop :=
  ∃ inverted, mapExponents? Exponent.neg? v.factors = some inverted ∧
    Overturns (u.factors ++ inverted) (u.scale / v.scale)

/-- The sign of a power is not that of the power of the scale.  The zeroth and the first power are not
composed. -/
def PowerOverturns (u : UnitOfMeasure ℝ) (p : Exponent) : Prop :=
  p ≠ 0 ∧ p ≠ 1 ∧ ∃ raised s, mapExponents? (·.mul? p) u.factors = some raised ∧
    Scalar.raise u.scale p = .ok s ∧ Overturns raised s

/-! ### Runs from equal operands -/

/-- Units of one dimension and one offset whose scales are equal or opposite. -/
structure EqualUpToSign (u v : UnitOfMeasure ℝ) : Prop where
  dimension_eq : u.dimension = v.dimension
  abs_scale_eq : |u.scale| = |v.scale|
  offset_eq : u.offset = v.offset

theorem EqualUpToSign.of_beq {u v : UnitOfMeasure ℝ} (h : (u == v) = true) : EqualUpToSign u v := by
  obtain ⟨hd, hs, ho⟩ := beq_iff.mp h
  exact ⟨hd, by rw [hs], ho⟩

/-- Two records composed with one scale give results of that magnitude, which are equal when both
records overturn its sign or neither does. -/
theorem equal_iff_of_compose {factors factors' : List (Atom ℝ × Exponent)} {d d' : Dimension} {s : ℝ}
    {w w' : UnitOfMeasure ℝ} (h : compose factors d s = .ok w) (h' : compose factors' d' s = .ok w')
    (hs : Sizes factors s) (hs' : Sizes factors' s)
    (hf : ∀ f ∈ factors, (atom f.1).isAffine = false)
    (hf' : ∀ f ∈ factors', (atom f.1).isAffine = false) (hd : w.dimension = w'.dimension) :
    EqualUpToSign w w' ∧ ((w == w') = true ↔ (Overturns factors s ↔ Overturns factors' s)) := by
  have ho : w.offset = w'.offset := (offset_of_compose h hf).trans (offset_of_compose h' hf').symm
  have habs : |w.scale| = |w'.scale| :=
    (sized_of_compose h hs).2.trans (sized_of_compose h' hs').2.symm
  have hbeq : (w == w') = true ↔ w.scale = w'.scale := by simp [beq_iff, hd, ho]
  have hne : s ≠ -s := fun heq => hs.scale_ne_zero (self_eq_neg.mp heq)
  obtain ⟨hover, hkeep⟩ := scale_of_compose h hs
  obtain ⟨hover', hkeep'⟩ := scale_of_compose h' hs'
  refine ⟨⟨hd, habs, ho⟩, ?_⟩
  rw [hbeq]
  by_cases hr : Overturns factors s <;> by_cases hr' : Overturns factors' s
  · simp [hr, hr', hover hr, hover' hr']
  · simp [hr, hr', hover hr, hkeep' hr', hne.symm]
  · simp [hr, hr', hkeep hr, hover' hr', hne]
  · simp [hr, hr', hkeep hr, hkeep' hr']

section Runs
variable {u u' v v' w w' : UnitOfMeasure ℝ}

theorem multiply_equal_iff (hu : Reachable u) (hu' : Reachable u') (hv : Reachable v)
    (hv' : Reachable v') (huu : (u == u') = true) (hvv : (v == v') = true)
    (h : u.multiply v = .ok w) (h' : u'.multiply v' = .ok w') :
    EqualUpToSign w w' ∧
      ((w == w') = true ↔ (ProductOverturns u v ↔ ProductOverturns u' v')) := by
  have hdim : w.dimension = w'.dimension := Dimension.degree_injective (by
    rw [(multiply_balanced hu.balanced hv.balanced h).2,
      (multiply_balanced hu'.balanced hv'.balanced h').2, (beq_iff.mp huu).1, (beq_iff.mp hvv).1])
  obtain ⟨hlu, hlv, d, -, hc⟩ := multiply_eq_ok_iff.mp h
  obtain ⟨hlu', hlv', d', -, hc'⟩ := multiply_eq_ok_iff.mp h'
  have hs := sizes_multiply hu.sized hv.sized
  have hs' := sizes_multiply hu'.sized hv'.sized
  unfold ProductOverturns
  rw [← (beq_iff.mp huu).2.1, ← (beq_iff.mp hvv).2.1] at hs' hc' ⊢
  refine equal_iff_of_compose hc hc' hs hs' (fun f hf => ?_) (fun f hf => ?_) hdim
  · exact (List.mem_append.mp hf).elim (hu.isLinear_factor hlu f) (hv.isLinear_factor hlv f)
  · exact (List.mem_append.mp hf).elim (hu'.isLinear_factor hlu' f) (hv'.isLinear_factor hlv' f)

theorem divide_equal_iff (hu : Reachable u) (hu' : Reachable u') (hv : Reachable v)
    (hv' : Reachable v') (huu : (u == u') = true) (hvv : (v == v') = true)
    (h : u.divide v = .ok w) (h' : u'.divide v' = .ok w') :
    EqualUpToSign w w' ∧
      ((w == w') = true ↔ (QuotientOverturns u v ↔ QuotientOverturns u' v')) := by
  have hdim : w.dimension = w'.dimension := Dimension.degree_injective (by
    rw [(divide_balanced hu.balanced hv.balanced h).2,
      (divide_balanced hu'.balanced hv'.balanced h').2, (beq_iff.mp huu).1, (beq_iff.mp hvv).1])
  obtain ⟨hlu, hlv, -, d, inverted, -, hi, hc⟩ := divide_eq_ok_iff.mp h
  obtain ⟨hlu', hlv', -, d', inverted', -, hi', hc'⟩ := divide_eq_ok_iff.mp h'
  have hs := sizes_divide hu.sized hv.sized hi
  have hs' := sizes_divide hu'.sized hv'.sized hi'
  have hfi := forall_atom_of_mapExponents? (P := fun a => (atom a).isAffine = false) hi
    (hv.isLinear_factor hlv)
  have hfi' := forall_atom_of_mapExponents? (P := fun a => (atom a).isAffine = false) hi'
    (hv'.isLinear_factor hlv')
  simp only [QuotientOverturns, hi, hi', Option.some.injEq, exists_eq_left']
  rw [← (beq_iff.mp huu).2.1, ← (beq_iff.mp hvv).2.1] at hs' hc' ⊢
  refine equal_iff_of_compose hc hc' hs hs' (fun f hf => ?_) (fun f hf => ?_) hdim
  · exact (List.mem_append.mp hf).elim (hu.isLinear_factor hlu f) (hfi f)
  · exact (List.mem_append.mp hf).elim (hu'.isLinear_factor hlu' f) (hfi' f)

theorem power_equal_iff {p : Exponent} (hu : Reachable u) (hu' : Reachable u')
    (huu : (u == u') = true) (h : u.power p = .ok w) (h' : u'.power p = .ok w') :
    EqualUpToSign w w' ∧ ((w == w') = true ↔ (PowerOverturns u p ↔ PowerOverturns u' p)) := by
  have hdim : w.dimension = w'.dimension := Dimension.degree_injective (by
    rw [(power_balanced hu.balanced h).2, (power_balanced hu'.balanced h').2, (beq_iff.mp huu).1])
  rcases power_eq_ok_iff.mp h with
    ⟨rfl, rfl⟩ | ⟨rfl, -, rfl⟩ | ⟨h1, h0, hl, d, raised, s, -, hr, hraise, hc⟩
  · rcases power_eq_ok_iff.mp h' with ⟨-, rfl⟩ | ⟨h, -⟩ | ⟨h, -⟩
    · exact ⟨.of_beq huu, by simp [huu, PowerOverturns]⟩
    · exact absurd h (by decide)
    · exact absurd rfl h
  · rcases power_eq_ok_iff.mp h' with ⟨h, -⟩ | ⟨-, -, rfl⟩ | ⟨-, h, -⟩
    · exact absurd h (by decide)
    · exact ⟨.of_beq (beq_self _), by simp [beq_self, PowerOverturns]⟩
    · exact absurd rfl h
  · rcases power_eq_ok_iff.mp h' with
      ⟨h, -⟩ | ⟨h, -⟩ | ⟨-, -, hl', d', raised', s', -, hr', hraise', hc'⟩
    · exact absurd h h1
    · exact absurd h h0
    have hs := sizes_power hu.sized hr hraise
    have hs' := sizes_power hu'.sized hr' hraise'
    have hf := forall_atom_of_mapExponents? (P := fun a => (atom a).isAffine = false) hr
      (hu.isLinear_factor hl)
    have hf' := forall_atom_of_mapExponents? (P := fun a => (atom a).isAffine = false) hr'
      (hu'.isLinear_factor hl')
    rw [← (beq_iff.mp huu).2.1, hraise] at hraise'
    cases hraise'
    have hover : PowerOverturns u p ↔ Overturns raised s := by
      simp [PowerOverturns, h0, h1, hr, hraise]
    have hover' : PowerOverturns u' p ↔ Overturns raised' s := by
      simp [PowerOverturns, h0, h1, hr', ← (beq_iff.mp huu).2.1, hraise]
    rw [hover, hover']
    exact equal_iff_of_compose hc hc' hs hs' hf hf' hdim

end Runs

/-- **Equal operands.**  Products, quotients and powers of equal reachable units are equal up to sign,
and they are equal when the record overturns the computed sign in both runs or in neither.  The
exponents of the powers are rational, and the scales have any sign. -/
theorem equal_iff_overturned_alike {u u' v v' : UnitOfMeasure ℝ} (hu : Reachable u)
    (hu' : Reachable u') (hv : Reachable v) (hv' : Reachable v') (huu : (u == u') = true)
    (hvv : (v == v') = true) :
    (∀ w w', u.multiply v = .ok w → u'.multiply v' = .ok w' →
      EqualUpToSign w w' ∧
        ((w == w') = true ↔ (ProductOverturns u v ↔ ProductOverturns u' v'))) ∧
    (∀ w w', u.divide v = .ok w → u'.divide v' = .ok w' →
      EqualUpToSign w w' ∧
        ((w == w') = true ↔ (QuotientOverturns u v ↔ QuotientOverturns u' v'))) ∧
    (∀ p w w', u.power p = .ok w → u'.power p = .ok w' →
      EqualUpToSign w w' ∧ ((w == w') = true ↔ (PowerOverturns u p ↔ PowerOverturns u' p))) :=
  ⟨fun _ _ => multiply_equal_iff hu hu' hv hv' huu hvv,
    fun _ _ => divide_equal_iff hu hu' hv hv' huu hvv,
    fun _ _ _ => power_equal_iff hu hu' huu⟩

/-! ### Records that overturn nothing -/

/-- **Integer powers.**  Products, quotients and integer powers of equal units that are built with
integer powers are equal, whatever the signs of their scales. -/
theorem equal_of_integral {u u' v v' : UnitOfMeasure ℝ} (hu : IntegrallyBuilt u)
    (hu' : IntegrallyBuilt u') (hv : IntegrallyBuilt v) (hv' : IntegrallyBuilt v')
    (huu : (u == u') = true) (hvv : (v == v') = true) :
    (∀ w w', u.multiply v = .ok w → u'.multiply v' = .ok w' → (w == w') = true) ∧
    (∀ w w', u.divide v = .ok w → u'.divide v' = .ok w' → (w == w') = true) ∧
    (∀ (p : Exponent) (w w'), p.isInteger = true → u.power p = .ok w → u'.power p = .ok w' →
      (w == w') = true) := by
  have hus := (beq_iff.mp huu).2.1
  have hvs := (beq_iff.mp hvv).2.1
  refine ⟨?_, ?_, ?_⟩
  · intro w w' h h'
    have heq := (multiply_equal_iff hu.reachable hu'.reachable hv.reachable hv'.reachable huu hvv
      h h').1
    have hs : w.scale = w'.scale := by
      rw [(multiply_faithful hu.faithful hv.faithful h).2,
        (multiply_faithful hu'.faithful hv'.faithful h').2, hus, hvs]
    exact beq_iff.mpr ⟨heq.dimension_eq, hs, heq.offset_eq⟩
  · intro w w' h h'
    have heq := (divide_equal_iff hu.reachable hu'.reachable hv.reachable hv'.reachable huu hvv
      h h').1
    have hs : w.scale = w'.scale := by
      rw [(divide_faithful hu.faithful hv.faithful h).2,
        (divide_faithful hu'.faithful hv'.faithful h').2, hus, hvs]
    exact beq_iff.mpr ⟨heq.dimension_eq, hs, heq.offset_eq⟩
  · intro p w w' hp h h'
    have heq := (power_equal_iff hu.reachable hu'.reachable huu h h').1
    have hs : w.scale = w'.scale := by
      rw [(power_faithful hu.faithful hp h).2, (power_faithful hu'.faithful hp h').2, hus]
    exact beq_iff.mpr ⟨heq.dimension_eq, hs, heq.offset_eq⟩

/-- A unit of positive scale with factors of positive scales. -/
structure Positive (u : UnitOfMeasure ℝ) : Prop where
  scale_pos : 0 < u.scale
  factor_pos : ∀ f ∈ u.factors, 0 < f.1.scale

theorem not_overturns_of_pos {factors : List (Atom ℝ × Exponent)} {s : ℝ}
    (hf : ∀ f ∈ factors, 0 < f.1.scale) (hs : 0 < s) : ¬Overturns factors s := by
  rintro ⟨a, ha, hneg⟩
  have hpos := (merges_of_remaining ha).invariant_atom (P := fun a => 0 < a.scale) hf (a, 1)
    (List.mem_singleton.mpr rfl)
  exact (mul_pos hpos hs).not_gt hneg

theorem Positive.not_productOverturns {u v : UnitOfMeasure ℝ} (hu : u.Positive) (hv : v.Positive) :
    ¬ProductOverturns u v :=
  not_overturns_of_pos (fun f hf => (List.mem_append.mp hf).elim (hu.factor_pos f) (hv.factor_pos f))
    (mul_pos hu.scale_pos hv.scale_pos)

theorem Positive.not_quotientOverturns {u v : UnitOfMeasure ℝ} (hu : u.Positive)
    (hv : v.Positive) : ¬QuotientOverturns u v := by
  rintro ⟨inverted, hi, hover⟩
  have hfi := forall_atom_of_mapExponents? (P := fun a => 0 < a.scale) hi hv.factor_pos
  exact not_overturns_of_pos (fun f hf => (List.mem_append.mp hf).elim (hu.factor_pos f) (hfi f))
    (div_pos hu.scale_pos hv.scale_pos) hover

theorem Positive.not_powerOverturns {u : UnitOfMeasure ℝ} (hu : u.Positive) (p : Exponent) :
    ¬PowerOverturns u p := by
  rintro ⟨-, -, raised, s, hr, hraise, hover⟩
  have hfr := forall_atom_of_mapExponents? (P := fun a => 0 < a.scale) hr hu.factor_pos
  have hs : 0 < s := by
    rw [Scalar.raise_eq_rpow hu.scale_pos hraise]
    exact Real.rpow_pos_of_pos hu.scale_pos _
  exact not_overturns_of_pos hfr hs hover

/-- **Positive scales.**  Products, quotients and rational powers of equal units are equal when no
negative scale is on record. -/
theorem equal_of_positive {u u' v v' : UnitOfMeasure ℝ} (hu : Reachable u) (hu' : Reachable u')
    (hv : Reachable v) (hv' : Reachable v') (huu : (u == u') = true) (hvv : (v == v') = true)
    (hup : u.Positive) (hup' : u'.Positive) (hvp : v.Positive) (hvp' : v'.Positive) :
    (∀ w w', u.multiply v = .ok w → u'.multiply v' = .ok w' → (w == w') = true) ∧
    (∀ w w', u.divide v = .ok w → u'.divide v' = .ok w' → (w == w') = true) ∧
    (∀ p w w', u.power p = .ok w → u'.power p = .ok w' → (w == w') = true) := by
  refine ⟨?_, ?_, ?_⟩
  · intro w w' h h'
    exact (multiply_equal_iff hu hu' hv hv' huu hvv h h').2.mpr
      (iff_of_false (hup.not_productOverturns hvp) (hup'.not_productOverturns hvp'))
  · intro w w' h h'
    exact (divide_equal_iff hu hu' hv hv' huu hvv h h').2.mpr
      (iff_of_false (hup.not_quotientOverturns hvp) (hup'.not_quotientOverturns hvp'))
  · intro p w w' h h'
    exact (power_equal_iff hu hu' huu h h').2.mpr
      (iff_of_false (hup.not_powerOverturns p) (hup'.not_powerOverturns p))

/-! ### Equal operands with unequal roots -/

/-- A power of a unit with one factor. -/
theorem power_of_single {u : UnitOfMeasure ℝ} {a : Atom ℝ} {x y p : Exponent} {d : Dimension}
    {s : ℝ} (hu : u.factors = [(a, x)]) (ho : u.offset = 0) (hp : p ≠ 1 ∧ p ≠ 0)
    (hd : u.dimension.power? p = some d) (hy : x.mul? p = some y ∧ y ≠ 0)
    (hraise : Scalar.raise u.scale p = .ok s) (hs : s ≠ 0) :
    u.power p = .ok (settle [(a, y)] d s) := by
  have hr : mapExponents? (·.mul? p) u.factors = some [(a, y)] := by
    simp [hu, mapExponents?, hy.1]
  have hk : remaining [(a, y)] = .ok [(a, y)] := by
    simp [remaining, addFactors, addFactor, Except.bind, Except.map, hy.2]
  exact power_eq_ok_iff.mpr (.inr (.inr ⟨hp.1, hp.2, isAffine_eq_false_iff.mpr ho, d, _, s, hd, hr,
    hraise, compose_eq_ok_iff.mpr ⟨Scalar.exact_isFactor_iff.mpr hs, _, hk, rfl⟩⟩))

/-- The metre counted backwards. -/
noncomputable def backward : Atom ℝ :=
  ⟨"r", .of .length, 1 * -1, 0, .scaled (base "m" (.of .length)) (-1), 0⟩

theorem scaled_backward : scaled "r" (base "m" (.of .length)) (-1) = .ok (atom backward) :=
  scaled_eq_ok_iff.mpr ⟨isAffine_eq_false_iff.mpr rfl,
    Scalar.exact_isFactor_iff.mpr (by norm_num), rfl⟩

/-- The dimension of an area. -/
def area : Dimension :=
  .ofSmall [(.length, 2)]

/-- The square of a metre counted backwards is a square metre. -/
theorem power_backward :
    (atom backward).power (.ofInt8 2) = .ok (product [(backward, .ofInt8 2)] area 1) := by
  have hnum : (Exponent.ofInt8 2).value.num = 2 := by decide
  have hraise : Scalar.raise backward.scale (.ofInt8 2) = .ok 1 := by
    rw [Scalar.raise_of_isInteger (by norm_num [backward]) (by decide), hnum]
    norm_num [backward]
  rw [← settle_single (by decide +kernel) area 1]
  exact power_of_single rfl rfl (by decide +kernel) (by decide +kernel) (by decide +kernel) hraise
    one_ne_zero

/-- The root of that square metre is the metre counted backwards. -/
theorem power_half_square :
    (product [(backward, .ofInt8 2)] area 1).power .half = .ok (atom backward) := by
  rw [← settle_single_one backward (.of .length) 1]
  exact power_of_single rfl rfl (by decide +kernel) (by decide +kernel) (by decide +kernel)
    (Scalar.raise_one _) one_ne_zero

/-- The root of another square metre is of the length of a metre. -/
theorem power_half_area :
    ∃ w : UnitOfMeasure ℝ, (base "A" area).power .half = .ok w ∧ w.scale = 1 := by
  have h := power_of_single (u := base "A" area) (y := .half) (d := .of .length) rfl rfl
    (by decide +kernel : Exponent.half ≠ 1 ∧ Exponent.half ≠ 0) (by decide +kernel)
    (by decide +kernel) (Scalar.raise_one _) one_ne_zero
  rw [settle_single (by decide +kernel)] at h
  exact ⟨_, h, rfl⟩

/-- A square metre that is the square of a metre counted backwards, and one that is a base unit, have
roots of different signs. -/
theorem equal_areas_with_unequal_roots :
    ∃ r u w w' : UnitOfMeasure ℝ, scaled "r" (base "m" (.of .length)) (-1) = .ok r ∧
      r.power (.ofInt8 2) = .ok u ∧ Reachable u ∧ Reachable (base "A" area : UnitOfMeasure ℝ) ∧
      u.isAffine = false ∧ (base "A" area : UnitOfMeasure ℝ).isAffine = false ∧
      (u == base "A" area) = true ∧ u.power .half = .ok w ∧
      (base "A" area : UnitOfMeasure ℝ).power .half = .ok w' ∧ (w == w') = false := by
  obtain ⟨w', hw', hscale⟩ := power_half_area
  have hu : Reachable (product [(backward, .ofInt8 2)] area 1) :=
    .power (.scaled (.base _ _) scaled_backward) trivial power_backward
  have hne : ((atom backward : UnitOfMeasure ℝ) == w') = false := by
    rw [Bool.eq_false_iff, Ne, beq_iff, hscale]
    rintro ⟨-, hs, -⟩
    norm_num [scale, backward] at hs
  exact ⟨_, _, _, _, scaled_backward, power_backward, hu, .base _ _, isAffine_eq_false_iff.mpr rfl,
    isAffine_eq_false_iff.mpr rfl, beq_iff.mpr ⟨rfl, rfl, rfl⟩, power_half_square, hw', hne⟩

/-- The roots of both square metres are equal up to sign. -/
theorem equal_iff_overturned_alike_areas :
    ∃ w w' : UnitOfMeasure ℝ, (product [(backward, .ofInt8 2)] area 1).power .half = .ok w ∧
      (base "A" area).power .half = .ok w' ∧ EqualUpToSign w w' ∧
      ((w == w') = true ↔ (PowerOverturns (product [(backward, .ofInt8 2)] area 1) .half ↔
        PowerOverturns (base "A" area) .half)) := by
  obtain ⟨w', hw', -⟩ := power_half_area
  have hu : Reachable (product [(backward, .ofInt8 2)] area 1) :=
    .power (.scaled (.base _ _) scaled_backward) trivial power_backward
  have heq : (product [(backward, .ofInt8 2)] area 1 == (base "A" area : UnitOfMeasure ℝ)) = true :=
    beq_iff.mpr ⟨rfl, rfl, rfl⟩
  exact ⟨_, w', power_half_square, hw',
    (equal_iff_overturned_alike hu (.base "A" area) .one .one heq (beq_self one)).2.2 .half _ w'
      power_half_square hw'⟩

end Metrology.UnitOfMeasure
