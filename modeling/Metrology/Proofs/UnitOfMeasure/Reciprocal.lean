import Metrology.Proofs.Dimension.Storage
import Metrology.Proofs.UnitOfMeasure.EqualOperands
import Metrology.Proofs.UnitOfMeasure.Reduced

/-!
# Quotients, reciprocals and negative powers

A quotient is composed in one go, and not as the product with the reciprocal.  Over exact scalars the two
ways succeed together, and what they compose are the same factors under the same dimension: the
reciprocal has the negated exponents, even if it is an atom (`factors_of_invert`).  The reciprocal and the
power to -1 are the same throughout (`invert_eq_ok_iff_power`), for the negation of a word and its product
with -1 are out of range together.

The scales of the two ways are equal in magnitude.  In sign they differ when the reciprocal is an
atom of the record whose sign is not that of the computed scale, and the product with it is not an atom
again (`reciprocal_laws`, `divide_ne_multiply_invert`).  This does not happen with divisors that are built
with integer powers, nor with those that have no negative scale on record.
-/

namespace Metrology

/-- Taking a number times -1 is negating it, at the limits of the words too. -/
theorem Exponent.mul?_neg_one (x : Exponent) : x.mul? (.ofInt8 (-1)) = x.neg? := by
  have hvalue : (Exponent.ofInt8 (-1)).value = -1 := by decide
  rw [mul?, neg?, hvalue, mul_neg_one]

theorem Dimension.power?_neg_one (d : Dimension) : d.power? (.ofInt8 (-1)) = d.invert? := by
  have hne : Exponent.ofInt8 (-1) ≠ 0 := by decide
  rw [power?, if_neg hne, invert?]
  simp only [Exponent.mul?_neg_one]

theorem Dimension.dimensionless_divide? (d : Dimension) :
    dimensionless.divide? d = d.invert? := by
  rw [divide?]
  cases d.invert? with
  | none => rfl
  | some e => exact dimensionless_multiply? e

namespace UnitOfMeasure

open Result
open scoped Exact

theorem settle_cases_scale {α : Type} (kept : List (Atom α × Exponent)) (d : Dimension) (x y : α) :
    (settle kept d x = settle kept d y ∧ (settle kept d x).symbol? ≠ none) ∨
      (settle kept d x = product kept d x ∧ settle kept d y = product kept d y) := by
  rcases settle_cases kept d x with ⟨a, rfl, -⟩ | ⟨hne, hx⟩
  · rw [settle_single_one, settle_single_one]
    exact .inl ⟨rfl, Option.some_ne_none _⟩
  · rcases settle_cases kept d y with ⟨a, ha, -⟩ | ⟨-, hy⟩
    · exact absurd ha (hne a)
    · exact .inr ⟨hx, hy⟩

section Results
variable {K : Type} [Field K] [LinearOrder K] [IsStrictOrderedRing K] [FloorRing K] [RealPowers K]
  {u v w r : UnitOfMeasure K}

/-! ### Reciprocals -/

/-- The scales of units that are built are not zero, so a quotient fails for no scale. -/
theorem divide_eq_ok_iff_settle (hu : Reachable u) (hv : Reachable v) :
    u.divide v = .ok w ↔
      u.isAffine = false ∧ v.isAffine = false ∧
        ∃ d inverted kept, u.dimension.divide? v.dimension = some d ∧
          mapExponents? Exponent.neg? v.factors = some inverted ∧
          remaining (u.factors ++ inverted) = .ok kept ∧
          settle kept d (u.scale / v.scale) = w := by
  have hs : Scalar.isFactor (u.scale / v.scale) = true :=
    Scalar.exact_isFactor_iff.mpr (div_ne_zero hu.scale_ne_zero hv.scale_ne_zero)
  have hv0 : (v.scale == 0) = false := Scalar.exact_beq_eq_false_iff.mpr hv.scale_ne_zero
  simp only [divide_eq_ok_iff, compose_eq_ok_iff, hs, hv0, true_and, exists_and_left]

/-- There is nothing to take together in a reciprocal. -/
theorem invert_eq_ok_iff (hv : Reachable v) :
    v.invert = .ok r ↔
      v.isAffine = false ∧ ∃ d inverted, v.dimension.invert? = some d ∧
        mapExponents? Exponent.neg? v.factors = some inverted ∧ settle inverted d (1 / v.scale) = r := by
  have hone : (one : UnitOfMeasure K).isAffine = false := isAffine_eq_false_iff.mpr rfl
  have hd : (one : UnitOfMeasure K).dimension.divide? v.dimension = v.dimension.invert? :=
    Dimension.dimensionless_divide? _
  rw [invert, divide_eq_ok_iff_settle .one hv, hd]
  constructor
  · rintro ⟨-, hl, d, inverted, kept, hdv, hi, hk, rfl⟩
    have hreduced : Reduced inverted := hv.reduced.of_mapExponents? hi Dimension.neg?_ne_zero
    cases (remaining_of_reduced hreduced).symm.trans hk
    exact ⟨hl, d, inverted, hdv, hi, rfl⟩
  · rintro ⟨hl, d, inverted, hdv, hi, rfl⟩
    have hreduced : Reduced inverted := hv.reduced.of_mapExponents? hi Dimension.neg?_ne_zero
    exact ⟨hone, hl, d, inverted, inverted, hdv, hi, remaining_of_reduced hreduced, rfl⟩

theorem factors_of_invert (hv : Reachable v) (h : v.invert = .ok r) :
    mapExponents? Exponent.neg? v.factors = some r.factors := by
  obtain ⟨-, d, inverted, -, hi, rfl⟩ := (invert_eq_ok_iff hv).mp h
  rw [hi, factors_settle]

/-- The reciprocal has the inverted dimension, be it a product or an atom. -/
theorem dimension_of_invert (hv : Reachable v) (h : v.invert = .ok r) :
    v.dimension.invert? = some r.dimension := by
  obtain ⟨-, d, inverted, hd, -, -⟩ := (invert_eq_ok_iff hv).mp h
  have hdegree : r.dimension.degree = d.degree := by
    rw [(divide_balanced fullyBalanced_one hv.balanced h).2, Dimension.degree_invert? hd]
    exact zero_sub _
  rw [hd, Dimension.degree_injective hdegree]

/-- **Negative powers.**  The reciprocal and the power to -1 are defined for the same units, and are
the same. -/
theorem invert_eq_ok_iff_power (hv : Reachable v) :
    v.invert = .ok r ↔ v.power (.ofInt8 (-1)) = .ok r := by
  have hne : Exponent.ofInt8 (-1) ≠ 1 ∧ Exponent.ofInt8 (-1) ≠ 0 := by decide
  have hnum : (Exponent.ofInt8 (-1)).value.num = -1 := by decide
  have hraise : Scalar.raise v.scale (.ofInt8 (-1)) = .ok (1 / v.scale) := by
    rw [Scalar.raise_of_isInteger hv.scale_ne_zero (by decide), hnum, zpow_neg_one, one_div]
  have hs : Scalar.isFactor (1 / v.scale) = true :=
    Scalar.exact_isFactor_iff.mpr (one_div_ne_zero hv.scale_ne_zero)
  have hneg : (fun x : Exponent => x.mul? (.ofInt8 (-1))) = Exponent.neg? :=
    funext Exponent.mul?_neg_one
  rw [invert_eq_ok_iff hv, power_eq_ok_iff, hneg, Dimension.power?_neg_one, hraise]
  constructor
  · rintro ⟨hl, d, inverted, hd, hi, hr⟩
    have hreduced : Reduced inverted := hv.reduced.of_mapExponents? hi Dimension.neg?_ne_zero
    exact .inr (.inr ⟨hne.1, hne.2, hl, d, inverted, 1 / v.scale, hd, hi, rfl,
      (compose_eq_ok_of_reduced hreduced).mpr ⟨hs, hr.symm⟩⟩)
  · rintro (⟨h1, -⟩ | ⟨h0, -⟩ | ⟨-, -, hl, d, inverted, s, hd, hi, hraised, hc⟩)
    · exact absurd h1 hne.1
    · exact absurd h0 hne.2
    · have hreduced : Reduced inverted := hv.reduced.of_mapExponents? hi Dimension.neg?_ne_zero
      cases hraised
      exact ⟨hl, d, inverted, hd, hi, ((compose_eq_ok_of_reduced hreduced).mp hc).2.symm⟩

/-! ### Products with reciprocals -/

theorem exists_invert_of_divide (hu : Reachable u) (hv : Reachable v) (h : u.divide v = .ok w) :
    ∃ r, v.invert = .ok r := by
  obtain ⟨-, hl, d, inverted, kept, hd, hi, -, -⟩ := (divide_eq_ok_iff_settle hu hv).mp h
  obtain ⟨d', hd', -⟩ := Option.bind_eq_some_iff.mp hd
  exact ⟨_, (invert_eq_ok_iff hv).mpr ⟨hl, d', inverted, hd', hi, rfl⟩⟩

/-- A quotient in terms of the reciprocal of the divisor. -/
theorem divide_eq_ok_iff_of_invert (hu : Reachable u) (hv : Reachable v) (hr : v.invert = .ok r) :
    u.divide v = .ok w ↔
      u.isAffine = false ∧ ∃ d kept, u.dimension.multiply? r.dimension = some d ∧
        remaining (u.factors ++ r.factors) = .ok kept ∧ settle kept d (u.scale / v.scale) = w := by
  have hl : v.isAffine = false := ((invert_eq_ok_iff hv).mp hr).1
  have hd : u.dimension.divide? v.dimension = u.dimension.multiply? r.dimension := by
    rw [Dimension.divide?, dimension_of_invert hv hr, Option.bind_some]
  simp only [divide_eq_ok_iff_settle hu hv, hl, hd, factors_of_invert hv hr, Option.some.injEq,
    exists_and_left, exists_eq_left', true_and]

theorem multiply_eq_ok_iff_of_invert (hu : Reachable u) (hv : Reachable v) (hr : v.invert = .ok r) :
    u.multiply r = .ok w ↔
      u.isAffine = false ∧ ∃ d kept, u.dimension.multiply? r.dimension = some d ∧
        remaining (u.factors ++ r.factors) = .ok kept ∧ settle kept d (u.scale * r.scale) = w := by
  have hrb : Reachable r := .divide .one hv hr
  have hl : r.isAffine = false := isAffine_eq_false_iff.mpr (Built.offset_of_divide .one hv hr)
  have hs : Scalar.isFactor (u.scale * r.scale) = true :=
    Scalar.exact_isFactor_iff.mpr (mul_ne_zero hu.scale_ne_zero hrb.scale_ne_zero)
  simp only [multiply_eq_ok_iff, compose_eq_ok_iff, hl, hs, true_and, exists_and_left]

/-- A quotient is defined when the reciprocal and the product with it are. -/
theorem exists_divide_iff (hu : Reachable u) (hv : Reachable v) :
    (∃ w, u.divide v = .ok w) ↔ ∃ r w, v.invert = .ok r ∧ u.multiply r = .ok w := by
  constructor
  · rintro ⟨w, h⟩
    obtain ⟨r, hr⟩ := exists_invert_of_divide hu hv h
    obtain ⟨hl, d, kept, hd, hk, -⟩ := (divide_eq_ok_iff_of_invert hu hv hr).mp h
    exact ⟨r, _, hr, (multiply_eq_ok_iff_of_invert hu hv hr).mpr ⟨hl, d, kept, hd, hk, rfl⟩⟩
  · rintro ⟨r, w, hr, h⟩
    obtain ⟨hl, d, kept, hd, hk, -⟩ := (multiply_eq_ok_iff_of_invert hu hv hr).mp h
    exact ⟨_, (divide_eq_ok_iff_of_invert hu hv hr).mpr ⟨hl, d, kept, hd, hk, rfl⟩⟩

/-- Both ways settle on the same factors with the same dimension. -/
theorem exists_settle_of_divide (hu : Reachable u) (hv : Reachable v) {w w' : UnitOfMeasure K}
    (hr : v.invert = .ok r) (h : u.multiply r = .ok w) (h' : u.divide v = .ok w') :
    ∃ kept d, w = settle kept d (u.scale * r.scale) ∧ w' = settle kept d (u.scale / v.scale) := by
  obtain ⟨-, d, kept, hd, hk, rfl⟩ := (multiply_eq_ok_iff_of_invert hu hv hr).mp h
  obtain ⟨-, d', kept', hd', hk', rfl⟩ := (divide_eq_ok_iff_of_invert hu hv hr).mp h'
  cases hd.symm.trans hd'
  cases hk.symm.trans hk'
  exact ⟨kept, d, rfl, rfl⟩

end Results

/-! ### Signs -/

variable {u v w w' r : UnitOfMeasure ℝ}

theorem scale_of_divide (hu : Reachable u) (hv : Reachable v) (h : u.divide v = .ok w) :
    (QuotientOverturns u v → w.scale = -(u.scale / v.scale)) ∧
      (¬QuotientOverturns u v → w.scale = u.scale / v.scale) := by
  obtain ⟨-, -, -, d, inverted, -, hi, hc⟩ := divide_eq_ok_iff.mp h
  have hover : QuotientOverturns u v ↔ Overturns (u.factors ++ inverted) (u.scale / v.scale) := by
    simp [QuotientOverturns, hi]
  rw [hover]
  exact scale_of_compose hc (sizes_divide hu.sized hv.sized hi)

/-- The reciprocal has the scale that is computed for it, unless its sign is overturned. -/
theorem scale_of_invert_iff (hv : Reachable v) (h : v.invert = .ok r) :
    r.scale = 1 / v.scale ↔ ¬QuotientOverturns one v := by
  obtain ⟨hover, hkeep⟩ := scale_of_divide .one hv h
  refine ⟨fun heq hr => ?_, hkeep⟩
  have hneg : r.scale = -(1 / v.scale) := hover hr
  rw [heq] at hneg
  exact one_div_ne_zero hv.scale_ne_zero (self_eq_neg.mp hneg)

theorem abs_scale_of_invert (hv : Reachable v) (h : v.invert = .ok r) :
    |r.scale| = |1 / v.scale| := by
  obtain ⟨hover, hkeep⟩ := scale_of_divide .one hv h
  by_cases hr : QuotientOverturns one v
  · rw [hover hr]
    exact abs_neg _
  · rw [hkeep hr]
    rfl

/-! ### A reciprocal of the other sign -/

/-- The inverse square of a metre counted backwards. -/
noncomputable def inverseSquare : UnitOfMeasure ℝ :=
  product [(backward, .ofInt8 (-2))] (.ofSmall [(.length, -2)]) 1

/-- The root of that inverse square, the inverse of a metre counted backwards under the scale 1. -/
noncomputable def inverseRoot : UnitOfMeasure ℝ :=
  product [(backward, .ofInt8 (-1))] (.ofSmall [(.length, -1)]) 1

/-- The exponents and the dimensions of the two powers. -/
theorem inverse_powers :
    (Exponent.mul? 1 (.ofInt8 (-2)) = some (.ofInt8 (-2)) ∧
      (Exponent.ofInt8 (-2)).mul? .half = some (.ofInt8 (-1))) ∧
    (Dimension.of .length).power? (.ofInt8 (-2)) = some (.ofSmall [(.length, -2)]) ∧
      (Dimension.ofSmall [(.length, -2)]).power? .half = some (.ofSmall [(.length, -1)]) := by
  decide +kernel

theorem power_backward_inverse : (atom backward).power (.ofInt8 (-2)) = .ok inverseSquare := by
  have hnum : (Exponent.ofInt8 (-2)).value.num = -2 := by decide
  have hraise : Scalar.raise backward.scale (.ofInt8 (-2)) = .ok 1 := by
    rw [Scalar.raise_of_isInteger (by norm_num [backward]) (by decide), hnum]
    norm_num [backward]
  rw [inverseSquare, ← settle_single (by decide) (.ofSmall [(.length, -2)]) 1]
  exact power_of_single rfl rfl (by decide) inverse_powers.2.1 ⟨inverse_powers.1.1, by decide⟩
    hraise one_ne_zero

theorem power_half_inverse : inverseSquare.power .half = .ok inverseRoot := by
  rw [inverseRoot, ← settle_single (by decide) (.ofSmall [(.length, -1)]) 1]
  exact power_of_single rfl rfl (by decide) inverse_powers.2.2 ⟨inverse_powers.1.2, by decide⟩
    (Scalar.raise_one _) one_ne_zero

theorem reachable_inverseRoot : Reachable inverseRoot :=
  .power (.power (.scaled (.base _ _) scaled_backward) trivial power_backward_inverse) trivial
    power_half_inverse

/-- Its reciprocal is the metre counted backwards itself. -/
theorem invert_inverseRoot : inverseRoot.invert = .ok (atom backward) := by
  have hneg : (Exponent.ofInt8 (-1)).neg? = some 1 := by decide
  refine (invert_eq_ok_iff reachable_inverseRoot).mpr ⟨isAffine_eq_false_iff.mpr rfl, .of .length,
    [(backward, 1)], by decide, ?_, settle_single_one _ _ _⟩
  simp [inverseRoot, factors, mapExponents?, hneg]

/-- The factors of a second times a metre counted backwards. -/
noncomputable def secondBackward : List (Atom ℝ × Exponent) :=
  [(⟨"s", .of .time, 1, 0, .base, 0⟩, 1), (backward, 1)]

theorem reduced_secondBackward : Reduced secondBackward := by
  have hone : (1 : Exponent) ≠ 0 := by decide
  constructor
  · simp [secondBackward, Atom.isLike, backward]
  · simp [secondBackward, hone]

/-- The dimension of a length times a duration. -/
def lengthTime : Dimension :=
  .ofSmall [(.length, 1), (.time, 1)]

theorem multiply?_time_length :
    (Dimension.of .time).multiply? (.of .length) = some lengthTime := by
  decide +kernel

theorem multiply_second_backward : (base "s" (.of .time)).multiply (atom backward) =
    .ok (product secondBackward lengthTime (1 * (1 * -1))) := by
  refine (multiply_eq_ok_iff_of_invert (.base _ _) reachable_inverseRoot invert_inverseRoot).mpr
    ⟨isAffine_eq_false_iff.mpr rfl, lengthTime, secondBackward, multiply?_time_length,
      remaining_of_reduced reduced_secondBackward, rfl⟩

theorem divide_second_inverseRoot : (base "s" (.of .time)).divide inverseRoot =
    .ok (product secondBackward lengthTime (1 / 1)) := by
  refine (divide_eq_ok_iff_of_invert (.base _ _) reachable_inverseRoot invert_inverseRoot).mpr
    ⟨isAffine_eq_false_iff.mpr rfl, lengthTime, secondBackward, multiply?_time_length,
      remaining_of_reduced reduced_secondBackward, rfl⟩

/-! ### The laws of reciprocals -/

/-- **Reciprocals.**  Over exact scalars the quotient of two reachable units is defined exactly when the
reciprocal of the divisor and the product with it are, and then both have the same symbol, dimension
and factors, and scales of the same magnitude.  The scales are equal if the results are atoms or the
reciprocal has the sign that was computed for it, and only then.  The reciprocal is the power to -1. -/
theorem reciprocal_laws (hu : Reachable u) (hv : Reachable v) :
    ((∃ w, u.divide v = .ok w) ↔ ∃ r w, v.invert = .ok r ∧ u.multiply r = .ok w) ∧
    (∀ r w w', v.invert = .ok r → u.multiply r = .ok w → u.divide v = .ok w' →
      w.symbol? = w'.symbol? ∧ w.dimension = w'.dimension ∧ w.factors = w'.factors ∧
        |w.scale| = |w'.scale| ∧
        (w.scale = w'.scale ↔ w.symbol? ≠ none ∨ ¬QuotientOverturns one v)) ∧
    ∀ r, v.invert = .ok r ↔ v.power (.ofInt8 (-1)) = .ok r := by
  refine ⟨exists_divide_iff hu hv, ?_, fun r => invert_eq_ok_iff_power hv⟩
  intro r w w' hr hw hw'
  have hdiv : u.scale / v.scale = u.scale * (1 / v.scale) := by rw [mul_one_div]
  obtain ⟨kept, d, rfl, rfl⟩ := exists_settle_of_divide hu hv hr hw hw'
  rcases settle_cases_scale kept d (u.scale * r.scale) (u.scale / v.scale) with
    ⟨heq, hsymbol⟩ | ⟨hx, hy⟩
  · rw [heq] at hsymbol ⊢
    exact ⟨rfl, rfl, rfl, rfl, iff_of_true rfl (.inl hsymbol)⟩
  · rw [hx, hy]
    refine ⟨rfl, rfl, rfl, ?_, ?_⟩
    · change |u.scale * r.scale| = |u.scale / v.scale|
      rw [hdiv, abs_mul, abs_mul, abs_scale_of_invert hv hr]
    · have hsymbol : (product kept d (u.scale * r.scale)).symbol? = none := rfl
      rw [hsymbol, ← scale_of_invert_iff hv hr]
      change u.scale * r.scale = u.scale / v.scale ↔ _
      rw [hdiv, mul_right_inj' hu.scale_ne_zero]
      simp

/-- A second divided by the inverse of a metre counted backwards, and multiplied by its reciprocal. -/
theorem reciprocal_laws_second :
    ∃ r w w' : UnitOfMeasure ℝ, Reachable inverseRoot ∧ inverseRoot.invert = .ok r ∧
      (base "s" (.of .time)).multiply r = .ok w ∧
      (base "s" (.of .time)).divide inverseRoot = .ok w' ∧
      w.symbol? = w'.symbol? ∧ w.dimension = w'.dimension ∧ w.factors = w'.factors ∧
      |w.scale| = |w'.scale| ∧
      (w.scale = w'.scale ↔ w.symbol? ≠ none ∨ ¬QuotientOverturns one inverseRoot) ∧
      inverseRoot.power (.ofInt8 (-1)) = .ok r := by
  obtain ⟨-, hsame, hpower⟩ := reciprocal_laws (.base "s" (.of .time)) reachable_inverseRoot
  obtain ⟨hsymbol, hd, hf, habs, hscale⟩ :=
    hsame _ _ _ invert_inverseRoot multiply_second_backward divide_second_inverseRoot
  exact ⟨_, _, _, reachable_inverseRoot, invert_inverseRoot, multiply_second_backward,
    divide_second_inverseRoot, hsymbol, hd, hf, habs, hscale, (hpower _).mp invert_inverseRoot⟩

/-- The quotient and the product with the reciprocal have scales of different signs. -/
theorem divide_ne_multiply_invert :
    ∃ b square root r w w' : UnitOfMeasure ℝ, scaled "r" (base "m" (.of .length)) (-1) = .ok b ∧
      b.power (.ofInt8 (-2)) = .ok square ∧ square.power .half = .ok root ∧ Reachable root ∧
      root.isAffine = false ∧ root.scale ≠ 0 ∧ root.invert = .ok r ∧
      (base "s" (.of .time)).multiply r = .ok w ∧ (base "s" (.of .time)).divide root = .ok w' ∧
      w.scale ≠ w'.scale := by
  refine ⟨_, _, _, _, _, _, scaled_backward, power_backward_inverse, power_half_inverse,
    reachable_inverseRoot, isAffine_eq_false_iff.mpr rfl, one_ne_zero, invert_inverseRoot,
    multiply_second_backward, divide_second_inverseRoot, ?_⟩
  norm_num [scale]

/-! ### Divisors that overturn nothing -/

/-- Divisors whose reciprocal has the computed sign are divided by as the reciprocal is multiplied by. -/
theorem divide_eq_ok_iff_multiply_invert (hu : Reachable u) (hv : Reachable v)
    (hover : ¬QuotientOverturns one v) :
    u.divide v = .ok w ↔ ∃ r, v.invert = .ok r ∧ u.multiply r = .ok w := by
  have hscale : ∀ r, v.invert = .ok r → u.scale * r.scale = u.scale / v.scale := by
    intro r hr
    rw [(scale_of_invert_iff hv hr).mpr hover, mul_one_div]
  constructor
  · intro h
    obtain ⟨r, hr⟩ := exists_invert_of_divide hu hv h
    rw [divide_eq_ok_iff_of_invert hu hv hr, ← hscale r hr,
      ← multiply_eq_ok_iff_of_invert hu hv hr] at h
    exact ⟨r, hr, h⟩
  · rintro ⟨r, hr, h⟩
    rwa [divide_eq_ok_iff_of_invert hu hv hr, ← hscale r hr, ← multiply_eq_ok_iff_of_invert hu hv hr]

/-- The sign of a quotient of units that are built with integer powers is the quotient of the signs. -/
theorem not_quotientOverturns_of_integral (hu : IntegrallyBuilt u) (hv : IntegrallyBuilt v) :
    ¬QuotientOverturns u v := by
  rintro ⟨inverted, hi, a, ha, hneg⟩
  obtain ⟨hint, hworth⟩ := worth_mapExponents? (n := -1)
    (fun _ _ hx hxy => Exponent.value_neg?_of_isInteger hx hxy) hi hv.faithful.integral
  have hmerge := (merges_of_remaining ha).worth_eq fun f hf =>
    (List.mem_append.mp hf).elim (hu.faithful.integral f) (hint f)
  have ha : a.scale = u.scale / v.scale := by
    rw [worth_append, hworth, ← hu.faithful.scale_eq, ← hv.faithful.scale_eq, zpow_neg_one,
      ← div_eq_mul_inv] at hmerge
    rw [hmerge]
    simp
  rw [ha] at hneg
  exact (mul_self_nonneg _).not_gt hneg

theorem positive_one : (one : UnitOfMeasure ℝ).Positive where
  scale_pos := one_pos
  factor_pos f hf := by cases hf

/-- **Division as multiplication.**  Division by a unit that is built with integer powers, or has no
negative scale on record, is multiplication by its reciprocal. -/
theorem divide_eq_ok_iff_of_integral_or_positive (hu : Reachable u) (hv : Reachable v)
    (h : IntegrallyBuilt v ∨ v.Positive) :
    u.divide v = .ok w ↔ ∃ r, v.invert = .ok r ∧ u.multiply r = .ok w := by
  refine divide_eq_ok_iff_multiply_invert hu hv ?_
  rcases h with hintegral | hpositive
  · exact not_quotientOverturns_of_integral .one hintegral
  · exact positive_one.not_quotientOverturns hpositive

end UnitOfMeasure

end Metrology
