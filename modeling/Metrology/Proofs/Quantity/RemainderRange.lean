import Metrology.Proofs.Binary64.Nearest
import Metrology.Proofs.Quantity.FlooredDivision
import Metrology.Proofs.Quantity.OwnUnit

/-!
# The range of remainders

The remainder of truncated division is exact, and floored division moves it by one divisor where it
has the other sign.  Only that sum is rounded.  So the remainder of floored division is the exact one,
rounded (`flooredDivMod_toRat`, `isRounded_rest`): it keeps the sign of the divisor, and it is not larger.

It can be as large.  A remainder on the other side of zero that is small next to the divisor is lost
when it is moved (`Absorbed`), and what is left is the divisor itself.  That needs a remainder of less
than 2 ^ -53 of the divisor (`Absorbed.abs_remainder_lt`), and happens to every one of less than 2 ^ -54
(`absorbed_of_abs_remainder_lt`).  Otherwise the remainder is smaller than the divisor
(`Quantity.remainder_range`).
-/

namespace Metrology

namespace Binary64

variable {a b : Float}

/-- What floored division of two doubles leaves, before it is rounded. -/
def exactRest (a b : Float) : ℚ :=
  toRat a - ⌊toRat a / toRat b⌋ * toRat b

/-- The remainder of truncated division has the sign that the divisor has not, and is lost when the
divisor is added. -/
def Absorbed (a b : Float) : Prop :=
  toRat (remainder a b) * toRat b < 0 ∧ toRat (remainder a b + b) = toRat b

/-! ### The exact remainder -/

theorem exactRest_eq_fract_mul (hb : Scalar.isFactor b = true) :
    exactRest a b = Int.fract (toRat a / toRat b) * toRat b := by
  rw [exactRest, ← Int.self_sub_floor, sub_mul, div_mul_cancel₀ _ (toRat_ne_zero hb)]

open scoped Exact in
/-- It is what the same division leaves over rational numbers. -/
theorem flooredDivMod_toRat (hb : Scalar.isFactor b = true) :
    (Scalar.flooredDivMod (toRat a) (toRat b)).2 = exactRest a b := by
  have hparts := Scalar.flooredDivMod_mul (toRat a / toRat b) (toRat_ne_zero hb)
  rw [div_mul_cancel₀ _ (toRat_ne_zero hb)] at hparts
  rw [hparts, exactRest_eq_fract_mul hb]

/-- The exact remainder is that of truncated division, moved by one divisor where the signs differ. -/
theorem exactRest_eq (ha : Scalar.isFinite a = true) (hb : Scalar.isFactor b = true) :
    exactRest a b = if toRat (remainder a b) * toRat b < 0 then toRat (remainder a b) + toRat b
      else toRat (remainder a b) := by
  obtain ⟨-, hlt, -, -⟩ := remainder_spec ha hb
  obtain ⟨n, hn⟩ := exists_int_of_remainder ha hb
  have hb0 := toRat_ne_zero hb
  set x := toRat (remainder a b) / toRat b with hx
  have hrest : toRat (remainder a b) = x * toRat b := (div_mul_cancel₀ _ hb0).symm
  have hquotient : toRat a / toRat b = n + x := by
    rw [hn, add_div, mul_div_cancel_right₀ _ hb0]
  have hbound : |x| < 1 := by rwa [hx, abs_div, div_lt_one (abs_pos.mpr hb0)]
  obtain ⟨hlow, hhigh⟩ := abs_lt.mp hbound
  have hsign : toRat (remainder a b) * toRat b < 0 ↔ x < 0 := by
    rw [hrest, mul_assoc, mul_neg_iff, or_iff_right, and_iff_left (mul_self_pos.mpr hb0)]
    exact fun h => absurd h.2 (mul_self_nonneg _).not_gt
  rw [exactRest_eq_fract_mul hb, hquotient, Int.fract_intCast_add, hrest]
  split_ifs with h
  · rw [← hrest, hsign] at h
    have hfract : Int.fract x = x + 1 := by
      rw [Int.fract_eq_iff]
      exact ⟨by linarith, by linarith, -1, by push_cast; ring⟩
    rw [hfract, add_one_mul]
  · rw [← hrest, hsign] at h
    rw [Int.fract_eq_self.mpr ⟨not_lt.mp h, hhigh⟩]

/-! ### The rounded remainder -/

theorem less_zero_bne_iff {x y : Float} (hx : Scalar.isFactor x = true)
    (hy : Scalar.isFactor y = true) :
    (Scalar.less x 0 != Scalar.less y 0) = true ↔ toRat x * toRat y < 0 := by
  have hless {z : Float} (hz : Scalar.isFactor z = true) :
      Scalar.less z 0 = true ↔ toRat z < 0 := by
    rw [toRat_neg_iff, and_iff_right (Bool.and_eq_true_iff.mp hz).2]
  rw [bne_iff_ne, Ne, Bool.eq_iff_iff, hless hx, hless hy, mul_neg_iff]
  rcases (toRat_ne_zero hx).lt_or_gt with h | h <;> rcases (toRat_ne_zero hy).lt_or_gt with h' | h' <;>
    simp [h, h', h.not_gt, h'.not_gt]

/-- Floored division moves the remainder exactly where the signs differ. -/
theorem rest_cases (ha : Scalar.isFinite a = true) (hb : Scalar.isFactor b = true) :
    (toRat (remainder a b) * toRat b < 0 ∧ (Scalar.flooredDivMod a b).2 = remainder a b + b) ∨
    (¬toRat (remainder a b) * toRat b < 0 ∧
      Scalar.isFinite (Scalar.flooredDivMod a b).2 = true ∧
      toRat (Scalar.flooredDivMod a b).2 = toRat (remainder a b)) := by
  obtain ⟨hfinite, -⟩ := remainder_spec ha hb
  have hsame : Scalar.remainder a b = remainder a b := rfl
  unfold Scalar.flooredDivMod Scalar.flooredParts
  simp only [hsame]
  by_cases h0 : (remainder a b == 0) = true
  · have hrest := zero_beq_zero (isNegative b)
    simp only [h0, if_true, copySign_zero, toRat_of_beq_zero h0, zero_mul, lt_irrefl, not_false_iff,
      true_and]
    exact .inr ⟨isFinite_of_beq_zero hrest, toRat_of_beq_zero hrest⟩
  · have hfactor : Scalar.isFactor (remainder a b) = true := by simp [Scalar.isFactor, h0, hfinite]
    simp only [h0, Bool.false_eq_true, if_false, less_zero_bne_iff hfactor hb]
    split_ifs with hsign
    · exact .inl ⟨hsign, rfl⟩
    · exact .inr ⟨hsign, hfinite, rfl⟩

/-- The remainder of floored division is the exact one, rounded. -/
theorem isRounded_rest (ha : Scalar.isFinite a = true) (hb : Scalar.isFactor b = true) :
    IsRounded (exactRest a b) (Scalar.flooredDivMod a b).2 := by
  obtain ⟨hfinite, -⟩ := remainder_spec ha hb
  rw [exactRest_eq ha hb]
  rcases rest_cases ha hb with ⟨hsign, hrest⟩ | ⟨hsign, hrestFinite, hrest⟩
  · rw [if_pos hsign, hrest]
    exact isRounded_add hfinite (Bool.and_eq_true_iff.mp hb).2
  · rw [if_neg hsign, ← hrest]
    exact isRounded_toRat hrestFinite

/-- The remainder lies between zero and the divisor. -/
theorem rest_between (ha : Scalar.isFinite a = true) (hb : Scalar.isFactor b = true) :
    Scalar.isFinite (Scalar.flooredDivMod a b).2 = true ∧
      (0 ≤ toRat (Scalar.flooredDivMod a b).2 ∧ toRat (Scalar.flooredDivMod a b).2 ≤ toRat b ∨
        toRat b ≤ toRat (Scalar.flooredDivMod a b).2 ∧ toRat (Scalar.flooredDivMod a b).2 ≤ 0) := by
  have hbfinite : Scalar.isFinite b = true := (Bool.and_eq_true_iff.mp hb).2
  have hrounded := isRounded_rest ha hb
  have hfract0 := Int.fract_nonneg (toRat a / toRat b)
  have hfract1 := (Int.fract_lt_one (toRat a / toRat b)).le
  rw [exactRest_eq_fract_mul hb] at hrounded
  rcases le_total 0 (toRat b) with hpos | hneg
  · obtain ⟨hfinite, hlow, hhigh⟩ := hrounded.between isFinite_zero hbfinite
      (mul_nonneg hfract0 hpos) (mul_le_of_le_one_left hpos hfract1)
    exact ⟨hfinite, .inl ⟨hlow, hhigh⟩⟩
  · obtain ⟨hfinite, hlow, hhigh⟩ := hrounded.between hbfinite isFinite_zero
      (le_mul_of_le_one_left hneg hfract1) (mul_nonpos_of_nonneg_of_nonpos hfract0 hneg)
    exact ⟨hfinite, .inr ⟨hlow, hhigh⟩⟩

theorem abs_rest_le (ha : Scalar.isFinite a = true) (hb : Scalar.isFactor b = true) :
    |toRat (Scalar.flooredDivMod a b).2| ≤ |toRat b| := by
  rcases (rest_between ha hb).2 with ⟨hlow, hhigh⟩ | ⟨hlow, hhigh⟩
  · exact abs_le_abs_of_nonneg hlow hhigh
  · exact abs_le_abs_of_nonpos hhigh hlow

theorem sign_rest (ha : Scalar.isFinite a = true) (hb : Scalar.isFactor b = true)
    (h0 : toRat (Scalar.flooredDivMod a b).2 ≠ 0) :
    SignType.sign (toRat (Scalar.flooredDivMod a b).2) = SignType.sign (toRat b) := by
  rcases (rest_between ha hb).2 with ⟨hlow, hhigh⟩ | ⟨hlow, hhigh⟩
  · have hpos := lt_of_le_of_ne hlow h0.symm
    rw [sign_pos hpos, sign_pos (hpos.trans_le hhigh)]
  · have hneg := lt_of_le_of_ne hhigh h0
    rw [sign_neg hneg, sign_neg (hlow.trans_lt hneg)]

/-! ### Lost remainders -/

/-- The remainder is as large as the divisor only if it was lost. -/
theorem abs_rest_lt_iff (ha : Scalar.isFinite a = true) (hb : Scalar.isFactor b = true) :
    |toRat (Scalar.flooredDivMod a b).2| < |toRat b| ↔ ¬Absorbed a b := by
  obtain ⟨-, hlt, -⟩ := remainder_spec ha hb
  rw [(abs_rest_le ha hb).lt_iff_ne, not_iff_not, Absorbed]
  rcases rest_cases ha hb with ⟨hsign, hrest⟩ | ⟨hsign, -, hrest⟩
  · rw [and_iff_right hsign, ← hrest]
    refine ⟨fun h => ?_, congrArg _⟩
    rcases (rest_between ha hb).2 with ⟨hlow, hhigh⟩ | ⟨hlow, hhigh⟩
    · rwa [abs_of_nonneg hlow, abs_of_nonneg (hlow.trans hhigh)] at h
    · rwa [abs_of_nonpos hhigh, abs_of_nonpos (hlow.trans hhigh), neg_inj] at h
  · exact iff_of_false (hrest ▸ hlt.ne) fun h => hsign h.1

/-- What is lost leaves the divisor. -/
theorem Absorbed.rest_eq (h : Absorbed a b) (ha : Scalar.isFinite a = true)
    (hb : Scalar.isFactor b = true) : (Scalar.flooredDivMod a b).2 = b := by
  obtain ⟨hfinite, -⟩ := rest_between ha hb
  rcases rest_cases ha hb with ⟨-, hrest⟩ | ⟨hsign, -⟩
  · have hvalue : toRat (Scalar.flooredDivMod a b).2 = toRat b := hrest ▸ h.2
    exact eq_of_toRat_eq hfinite (Bool.and_eq_true_iff.mp hb).2 hvalue (hvalue ▸ toRat_ne_zero hb)
  · exact absurd h.1 hsign

/-- A remainder that is moved gets as far from the divisor as it was from zero. -/
theorem abs_exactRest (ha : Scalar.isFinite a = true) (hb : Scalar.isFactor b = true)
    (hsign : toRat (remainder a b) * toRat b < 0) :
    |exactRest a b| = |toRat b| - |toRat (remainder a b)| ∧
      |toRat b - exactRest a b| = |toRat (remainder a b)| := by
  obtain ⟨-, hlt, -⟩ := remainder_spec ha hb
  rw [exactRest_eq ha hb, if_pos hsign]
  refine ⟨?_, by rw [sub_add_cancel_right, abs_neg]⟩
  rcases mul_neg_iff.mp hsign with ⟨hpos, hneg⟩ | ⟨hneg, hpos⟩
  · rw [abs_of_pos hpos, abs_of_neg hneg] at hlt ⊢
    rw [abs_of_neg (by linarith)]
    ring
  · rw [abs_of_neg hneg, abs_of_pos hpos] at hlt ⊢
    rw [abs_of_pos (by linarith)]
    ring

/-- Only a remainder of less than 2 ^ -53 of the divisor is lost: half a step of the doubles there,
and not below their least exponent, where all sums are exact. -/
theorem Absorbed.abs_remainder_lt (h : Absorbed a b) (ha : Scalar.isFinite a = true)
    (hb : Scalar.isFactor b = true) :
    |toRat (remainder a b)| < 2 ^ (-53 : ℤ) * |toRat b| := by
  obtain ⟨hfinite, -⟩ := remainder_spec ha hb
  obtain ⟨hexact, hdistance⟩ := abs_exactRest ha hb h.1
  have hrounded := isRounded_rest ha hb
  rw [h.rest_eq ha hb] at hrounded
  obtain ⟨-, t, k, -, hvalue, herror, hgrid⟩ := hrounded.rounds (Bool.and_eq_true_iff.mp hb).2
  have hrest : 0 < |toRat (remainder a b)| := abs_pos.mpr (left_ne_zero_of_mul h.1.ne)
  have hhalf : |toRat (remainder a b)| ≤ 2 ^ t / 2 := by rwa [← hdistance, toRat]
  rcases hgrid with rfl | hgrid
  · -- the remainder is a multiple of the step, and half a step at most, so it would be zero
    obtain ⟨j, hj⟩ := exists_toRat_eq_mul hfinite le_rfl (.inl rfl)
    have hstep : (0 : ℚ) < 2 ^ (-1074 : ℤ) := by positivity
    have hj0 : j = 0 := by
      refine eq_of_abs_mul_sub_le hstep ?_
      rwa [Int.cast_zero, zero_mul, sub_zero, ← hj]
    rw [hj, hj0, Int.cast_zero, zero_mul, abs_zero] at hrest
    exact absurd hrest (lt_irrefl 0)
  · have h53 : (2 : ℚ) ^ (-53 : ℤ) = 1 / 2 ^ 53 := by norm_num
    rw [two_zpow_add_fiftyTwo, hexact] at hgrid
    rw [h53]
    linarith

/-- A remainder of less than 2 ^ -54 of the divisor is lost: the divisor is the nearest double to the
sum. -/
theorem absorbed_of_abs_remainder_lt (ha : Scalar.isFinite a = true) (hb : Scalar.isFactor b = true)
    (hsign : toRat (remainder a b) * toRat b < 0)
    (h : |toRat (remainder a b)| < 2 ^ (-54 : ℤ) * |toRat b|) : Absorbed a b := by
  have hbfinite : Scalar.isFinite b = true := (Bool.and_eq_true_iff.mp hb).2
  obtain ⟨hfinite, -⟩ := rest_between ha hb
  obtain ⟨hexact, hdistance⟩ := abs_exactRest ha hb hsign
  have hnearest := ((isRounded_rest ha hb).rounds hfinite).abs_value_sub_le hbfinite
  by_contra habsorbed
  have hstep := abs_toRat_le_of_lt hfinite hbfinite ((abs_rest_lt_iff ha hb).mpr habsorbed)
  have htriangle := abs_sub_abs_le_abs_sub (exactRest a b) (toRat (Scalar.flooredDivMod a b).2)
  have h53 : (2 : ℚ) ^ (-53 : ℤ) = 1 / 2 ^ 53 := by norm_num
  have h54 : (2 : ℚ) ^ (-54 : ℤ) = 1 / 2 ^ 54 := by norm_num
  rw [hdistance, abs_sub_comm] at hnearest
  rw [hexact] at htriangle
  rw [h53] at hstep
  rw [h54] at h
  rw [← toRat] at hnearest
  linarith

end Binary64

namespace Quantity

open Binary64 Result UnitOfMeasure

variable {u : UnitOfMeasure Float} {a b : Float}

/-- In a unit of scale one without an offset, quantities are divided as their values are. -/
theorem divMod_of_scale_one (hs : u.scale = 1) (ho : u.offset = 0)
    (hb : Scalar.isFactor b = true) :
    divMod ⟨a, u⟩ ⟨b, u⟩ =
      .ok ((Scalar.flooredDivMod a b).1, ⟨(Scalar.flooredDivMod a b).2, u⟩) := by
  obtain ⟨h0, hfinite⟩ := Bool.and_eq_true_iff.mp hb
  have hrising : u.Rising := ⟨by rw [hs, toRat_one]; exact one_pos, by rw [ho]; rfl⟩
  have hown : u.ownValue b = b :=
    eq_of_beq_of_isFactor ((exactAt_of_scale_one hs ho hfinite).ownValue_beq hrising hfinite) hb
  refine bind_eq_ok.mpr ⟨b, valueOf_eq_ok_iff.mpr ⟨rfl, hown.symm⟩, ?_⟩
  rw [if_neg (by simpa using h0)]
  rfl

/-- **The range of remainders.**  For all finite doubles and a divisor other than zero, floored division
leaves a finite remainder that no double is nearer to the exact one than.  It is zero or has the sign of
the divisor, and is not larger.  It is smaller unless the remainder of truncated division is absorbed by
the divisor when it is moved; then it is the divisor.  That happens to a remainder of the other sign of
less than 2 ^ -54 of the divisor, and only to less than 2 ^ -53.  Quantities in one unit of scale one and
without an offset leave the same remainder. -/
theorem remainder_range (ha : Scalar.isFinite a = true) (hb : Scalar.isFactor b = true) :
    ∃ count rest : Float, Scalar.flooredDivMod a b = (count, rest) ∧
      Scalar.isFinite rest = true ∧
      (∀ x, Scalar.isFinite x = true →
        |toRat rest - exactRest a b| ≤ |toRat x - exactRest a b|) ∧
      (toRat rest = 0 ∨ SignType.sign (toRat rest) = SignType.sign (toRat b)) ∧
      |toRat rest| ≤ |toRat b| ∧
      (|toRat rest| < |toRat b| ↔ ¬Absorbed a b) ∧
      (Absorbed a b → rest = b ∧ |toRat (Scalar.remainder a b)| < 2 ^ (-53 : ℤ) * |toRat b|) ∧
      (toRat (Scalar.remainder a b) * toRat b < 0 →
        |toRat (Scalar.remainder a b)| < 2 ^ (-54 : ℤ) * |toRat b| → Absorbed a b) ∧
      ∀ u : UnitOfMeasure Float, u.scale = 1 → u.offset = 0 →
        divMod ⟨a, u⟩ ⟨b, u⟩ = .ok (count, ⟨rest, u⟩) ∧
        Quantity.remainder ⟨a, u⟩ ⟨b, u⟩ = .ok ⟨rest, u⟩ := by
  have hfinite := (rest_between ha hb).1
  have hrounds := (isRounded_rest ha hb).rounds hfinite
  refine ⟨_, _, rfl, hfinite, fun x => hrounds.abs_value_sub_le,
    or_iff_not_imp_left.mpr (sign_rest ha hb), abs_rest_le ha hb, abs_rest_lt_iff ha hb,
    fun h => ⟨h.rest_eq ha hb, h.abs_remainder_lt ha hb⟩,
    absorbed_of_abs_remainder_lt ha hb, fun u hs ho => ?_⟩
  have hdivMod := divMod_of_scale_one (a := a) hs ho hb
  exact ⟨hdivMod, map_eq_ok.mpr ⟨_, hdivMod, rfl⟩⟩

/-- One metre backwards leaves two metres of three, and a step of 1e-20 metres backwards is lost. -/
theorem remainder_range_metres :
    ∃ (m : UnitOfMeasure Float) (count : Float), m = .base "m" (.of .length) ∧
      Scalar.isFinite (-1 : Float) = true ∧ Scalar.isFactor (3 : Float) = true ∧
      divMod ⟨-1, m⟩ ⟨3, m⟩ = .ok (count, ⟨2, m⟩) ∧
      Quantity.remainder ⟨-1, m⟩ ⟨3, m⟩ = .ok ⟨2, m⟩ ∧
      SignType.sign (toRat 2) = SignType.sign (toRat 3) ∧ |toRat 2| < |toRat 3| ∧
      Absorbed (-1e-20) 3 := by
  have hfactor : Scalar.isFactor (3 : Float) = true := by decide +kernel
  obtain ⟨count, rest, hparts, -, -, hsign, -, hlt, habsorbed, -, hquantities⟩ :=
    remainder_range (a := -1) (b := 3) rfl hfactor
  have hrest : rest = 2 := by
    have htwo : (Scalar.flooredDivMod (-1 : Float) 3).2 = 2 := eq_of_toBits_eq (by decide +kernel)
    rw [← htwo, hparts]
  subst hrest
  have h0 : toRat 2 ≠ 0 := toRat_ne_zero (by decide +kernel)
  have hne : (2 : Float) ≠ 3 := fun h => absurd (congrArg Float.toBits h) (by decide +kernel)
  obtain ⟨hdivMod, hremainder⟩ := hquantities (.base "m" (.of .length)) rfl rfl
  have hlost : Absorbed (-1e-20) 3 := by
    obtain ⟨-, -, -, -, -, -, -, -, -, hlost, -⟩ := remainder_range (a := -1e-20) (b := 3) rfl hfactor
    have hself : Scalar.remainder (-1e-20 : Float) 3 = -1e-20 := eq_of_toBits_eq (by decide +kernel)
    have hstep : toRat (-1e-20) = -(6646139978924579 * 2 ^ (-119 : ℤ)) := by
      have h : unpacked (-1e-20) = .finite .negative 6646139978924579 (-119) (by decide) := rfl
      rw [toRat, h, Binary64.value, signum]
      norm_num
    have hthree : toRat 3 = 3 := by
      have h : unpacked 3 = .finite .positive (3 * 2 ^ 51) (-51) (by decide) := rfl
      rw [toRat, h, Binary64.value, signum]
      norm_num
    rw [hself, hstep, hthree] at hlost
    exact hlost (by norm_num) (by norm_num [abs_of_pos])
  exact ⟨_, count, rfl, rfl, hfactor, hdivMod, hremainder, hsign.resolve_left h0,
    hlt.mpr fun h => hne (habsorbed h).1, hlost⟩

/-- A step of 1e-20 metres backwards leaves three metres of three: next to them it is lost. -/
theorem remainder_three_metres :
    ∃ m : UnitOfMeasure Float, m = .base "m" (.of .length) ∧
      Scalar.isFinite (-1e-20 : Float) = true ∧ Scalar.isFactor (3 : Float) = true ∧
      (Scalar.flooredDivMod (-1e-20 : Float) 3).2 = 3 ∧
      Quantity.remainder ⟨-1e-20, m⟩ ⟨3, m⟩ = .ok ⟨3, m⟩ ∧
      ¬|toRat (Scalar.flooredDivMod (-1e-20 : Float) 3).2| < |toRat 3| := by
  have hfactor : Scalar.isFactor (3 : Float) = true := by decide +kernel
  have hrest : (Scalar.flooredDivMod (-1e-20 : Float) 3).2 = 3 :=
    eq_of_toBits_eq (by decide +kernel)
  refine ⟨_, rfl, rfl, hfactor, hrest, ?_, by rw [hrest]; exact lt_irrefl _⟩
  refine map_eq_ok.mpr ⟨_, divMod_of_scale_one rfl rfl hfactor, ?_⟩
  rw [hrest]

end Quantity

end Metrology
