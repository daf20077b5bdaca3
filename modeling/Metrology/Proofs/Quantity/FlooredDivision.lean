import Metrology.Proofs.Quantity.BaseValue

/-!
# Floored division over exact scalars

Floored division starts from the remainder of truncated division and mends it where the signs differ.
Over exact scalars nothing is rounded on the way, and what comes out is the floor of the quotient and
what it leaves (`Scalar.flooredDivMod_mul`).  The remainder is the fractional part of the quotient times the
divisor; so it has the sign of the divisor, and is smaller (`abs_fract_mul_lt`, `sign_fract_mul`).

Quantities are divided in the unit of the first.  In units without an offset the quotient of the values is
that of the base values, for scales of any sign, and the count does not see the units (`floored_division`).
-/

namespace Metrology

open Result
open scoped Exact

variable {K : Type} [Field K] [LinearOrder K] [IsStrictOrderedRing K] [FloorRing K] [RealPowers K]

namespace Scalar

/-! ### Numbers -/

@[simp]
theorem exact_beq_iff {x y : K} : (x == y) = true ↔ x = y :=
  decide_eq_true_iff

theorem copySign_zero (b : K) : copySign 0 b = 0 := by
  change (if b < 0 then -|(0 : K)| else |0|) = 0
  simp

/-- A whole number is whole already. -/
theorem toWhole_intCast (n : ℤ) : toWhole (n : K) = n := by
  have hfloor : floor (n : K) = n := by
    change ((⌊(n : K)⌋ : ℤ) : K) = n
    rw [Int.floor_intCast]
  have hless : less 0.5 (n - n : K) = false := by
    rw [sub_self, Bool.eq_false_iff, Ne, exact_less_iff]
    change ¬(OfScientific.ofScientific 5 true 1 : K) < 0
    norm_num
  unfold toWhole
  simp only [hfloor, hless, Bool.false_eq_true, if_false]

/-- A multiple of a number has the other sign when the factor is negative. -/
theorem less_mul_zero_bne_iff {x b : K} (hb : b ≠ 0) (hx : x ≠ 0) :
    (less (x * b) 0 != less b 0) = true ↔ x < 0 := by
  rw [bne_iff_ne, Ne, Bool.eq_iff_iff, exact_less_iff, exact_less_iff]
  rcases hx.lt_or_gt with hneg | hpos
  · rcases hb.lt_or_gt with hb' | hb'
    · exact iff_of_true (fun h => absurd (mul_pos_of_neg_of_neg hneg hb') (h.mpr hb').not_gt) hneg
    · exact iff_of_true (fun h => absurd (h.mp (mul_neg_of_neg_of_pos hneg hb')) hb'.not_gt) hneg
  · have hsame : x * b < 0 ↔ b < 0 := by simp [mul_neg_iff, hpos, hpos.not_gt]
    exact iff_of_false (not_not.mpr hsame) hpos.not_gt

/-- A remainder that leaves a whole quotient, at a distance of less than one from the exact one, is
mended to that of the floor. -/
theorem flooredParts_of_remainder {x b : K} {n : ℤ} (hb : b ≠ 0) (hn : |x - n| < 1)
    (h : remainder (x * b) b = (x - n) * b) :
    flooredParts (x * b) b = ((⌊x⌋ : K), (x - ⌊x⌋) * b) := by
  obtain ⟨hlow, hhigh⟩ := abs_lt.mp hn
  have hquotient : (x * b - (x - n) * b) / b = n := by
    rw [← sub_mul, sub_sub_cancel, mul_div_cancel_right₀ _ hb]
  unfold flooredParts
  simp only [h, hquotient, copySign_zero]
  by_cases hx : x = n
  · simp [hx]
  · have hne : x - n ≠ 0 := sub_ne_zero.mpr hx
    have hrest : ((x - n) * b == 0) = false := exact_beq_eq_false_iff.mpr (mul_ne_zero hne hb)
    simp only [hrest, Bool.false_eq_true, if_false, less_mul_zero_bne_iff hb hne, sub_neg]
    by_cases hlt : x < n
    · -- the quotient was rounded up, so the remainder is moved by one divisor
      have hfloor : ⌊x⌋ = n - 1 := by
        rw [Int.floor_eq_iff]
        push_cast
        constructor <;> linarith
      rw [if_pos hlt, hfloor]
      push_cast
      rw [← add_one_mul, sub_sub_eq_add_sub, sub_add_eq_add_sub]
    · have hfloor : ⌊x⌋ = n := by
        rw [Int.floor_eq_iff]
        constructor <;> linarith
      rw [if_neg hlt, hfloor]

/-- The remainder of truncated division leaves the quotient that is rounded towards zero. -/
theorem remainder_mul (x : K) {b : K} (hb : b ≠ 0) :
    remainder (x * b) b = (x - (if x < 0 then ⌈x⌉ else ⌊x⌋ : ℤ)) * b := by
  have hdef : remainder (x * b) b =
    x * b - (if x * b / b < 0 then ⌈x * b / b⌉ else ⌊x * b / b⌋ : ℤ) * b := rfl
  rw [hdef, mul_div_cancel_right₀ x hb, sub_mul]

theorem abs_sub_truncated_lt (x : K) : |x - (if x < 0 then ⌈x⌉ else ⌊x⌋ : ℤ)| < 1 := by
  rw [abs_lt]
  split
  · have := Int.le_ceil x
    have := Int.ceil_lt_add_one x
    constructor <;> linarith
  · have := Int.floor_le x
    have := Int.lt_floor_add_one x
    constructor <;> linarith

/-- Floored division gives the floor of the quotient, and its fractional part of the divisor. -/
theorem flooredDivMod_mul (x : K) {b : K} (hb : b ≠ 0) :
    flooredDivMod (x * b) b = ((⌊x⌋ : K), Int.fract x * b) := by
  have hparts := flooredParts_of_remainder hb (abs_sub_truncated_lt x) (remainder_mul x hb)
  rw [flooredDivMod, hparts, toWhole_intCast, Int.self_sub_floor]

/-! ### Fractional parts of a number -/

theorem abs_fract_mul_lt (x : K) {b : K} (hb : b ≠ 0) : |Int.fract x * b| < |b| := by
  rw [abs_mul, abs_of_nonneg (Int.fract_nonneg x)]
  exact mul_lt_of_lt_one_left (abs_pos.mpr hb) (Int.fract_lt_one x)

theorem sign_fract_mul (x b : K) :
    Int.fract x * b = 0 ∨ SignType.sign (Int.fract x * b) = SignType.sign b := by
  rcases (Int.fract_nonneg x).eq_or_lt with h0 | hpos
  · exact .inl (by rw [← h0, zero_mul])
  · exact .inr (by rw [sign_mul, sign_pos hpos, one_mul])

end Scalar

/-! ### Units without an offset -/

/-- The values of a unit are proportional to what they are in base units. -/
structure UnitOfMeasure.Proportional (u : UnitOfMeasure K) : Prop where
  linear : u.isAffine = false
  scale_ne_zero : u.scale ≠ 0

namespace UnitOfMeasure.Proportional

variable {u : UnitOfMeasure K}

theorem toBase_eq (hu : u.Proportional) (x : K) : u.toBase x = u.scale * x := by
  have ho : u.offset = 0 := isAffine_eq_false_iff.mp hu.linear
  change u.scale * x + u.offset = _
  rw [ho, add_zero]

theorem fromBase_eq (hu : u.Proportional) (x : K) : u.fromBase x = x / u.scale := by
  have ho : u.offset = 0 := isAffine_eq_false_iff.mp hu.linear
  change (x - u.offset) / u.scale = _
  rw [ho, sub_zero]

end UnitOfMeasure.Proportional

namespace Quantity

variable {p q : Quantity K}

theorem toBaseValue_eq_zero_iff (hq : q.unit.Proportional) : q.toBaseValue = 0 ↔ q.value = 0 := by
  rw [toBaseValue, hq.toBase_eq, mul_eq_zero, or_iff_right hq.scale_ne_zero]

/-- The second operand in the unit of the first. -/
theorem valueOf_eq (hp : p.unit.Proportional) (hd : p.dimension = q.dimension) :
    p.valueOf q = .ok (q.toBaseValue / p.unit.scale) :=
  valueOf_eq_ok_iff.mpr ⟨hd, (hp.fromBase_eq _).symm⟩

theorem divisor_eq_zero_iff (hp : p.unit.Proportional) (hq : q.unit.Proportional) :
    q.toBaseValue / p.unit.scale = 0 ↔ q.value = 0 := by
  rw [div_eq_zero_iff, or_iff_left hp.scale_ne_zero, toBaseValue_eq_zero_iff hq]

theorem divMod_eq_ok (hp : p.unit.Proportional) (hq : q.unit.Proportional)
    (hd : p.dimension = q.dimension) (h0 : q.value ≠ 0) :
    p.divMod q = .ok ((⌊p.toBaseValue / q.toBaseValue⌋ : K),
      p.withValue (Int.fract (p.toBaseValue / q.toBaseValue) * (q.toBaseValue / p.unit.scale))) := by
  have hdivisor : q.toBaseValue / p.unit.scale ≠ 0 := mt (divisor_eq_zero_iff hp hq).mp h0
  have hvalue : p.value = p.toBaseValue / q.toBaseValue * (q.toBaseValue / p.unit.scale) := by
    rw [div_mul_div_cancel₀ (mt (toBaseValue_eq_zero_iff hq).mp h0), toBaseValue, hp.toBase_eq,
      mul_div_cancel_left₀ _ hp.scale_ne_zero]
  refine bind_eq_ok.mpr ⟨_, valueOf_eq hp hd, ?_⟩
  rw [if_neg (by rwa [Scalar.exact_beq_iff]), hvalue, Scalar.flooredDivMod_mul _ hdivisor]

theorem divMod_eq_divisionByZero_iff (hp : p.unit.Proportional) (hq : q.unit.Proportional)
    (hd : p.dimension = q.dimension) : p.divMod q = .error .divisionByZero ↔ q.value = 0 := by
  constructor
  · intro h
    by_contra h0
    rw [divMod_eq_ok hp hq hd h0] at h
    cases h
  · intro h0
    refine bind_eq_error.mpr (.inr ⟨_, valueOf_eq hp hd, ?_⟩)
    exact if_pos (Scalar.exact_beq_iff.mpr ((divisor_eq_zero_iff hp hq).mpr h0))

/-- **Floored division.**  For quantities of one dimension, in units without an offset and with scales of
any sign, floored division and its remainder are refused as divisions by zero exactly when the divisor
has the value zero.  Otherwise the count is the floor of the quotient of the base values, whatever the
units, and the remainder is what it leaves in base units.  The remainder has the unit of the first
quantity, and it is zero or has the sign of the divisor in that unit, and is smaller than that. -/
theorem floored_division (hp : p.unit.Proportional) (hq : q.unit.Proportional)
    (hd : p.dimension = q.dimension) :
    (p.divMod q = .error .divisionByZero ↔ q.value = 0) ∧
    (p.remainder q = .error .divisionByZero ↔ q.value = 0) ∧
    (q.value ≠ 0 → ∃ rest divisor : Quantity K,
      p.divMod q = .ok ((⌊p.toBaseValue / q.toBaseValue⌋ : K), rest) ∧
      p.remainder q = .ok rest ∧ q.convertTo p.unit = .ok divisor ∧ rest.unit = p.unit ∧
      p.toBaseValue = ⌊p.toBaseValue / q.toBaseValue⌋ * q.toBaseValue + rest.toBaseValue ∧
      (rest.value = 0 ∨ SignType.sign rest.value = SignType.sign divisor.value) ∧
      |rest.value| < |divisor.value|) := by
  have hzero := divMod_eq_divisionByZero_iff hp hq hd
  refine ⟨hzero, map_eq_error.trans hzero, fun h0 => ?_⟩
  have hdivMod := divMod_eq_ok hp hq hd h0
  have hdivisor : q.toBaseValue / p.unit.scale ≠ 0 := mt (divisor_eq_zero_iff hp hq).mp h0
  have hconvert : q.convertTo p.unit = .ok ⟨q.toBaseValue / p.unit.scale, p.unit⟩ :=
    map_eq_ok.mpr ⟨_, convert_eq_ok_iff.mpr ⟨hd.symm, (hp.fromBase_eq _).symm⟩, rfl⟩
  refine ⟨_, _, hdivMod, map_eq_ok.mpr ⟨_, hdivMod, rfl⟩, hconvert, rfl, ?_,
    Scalar.sign_fract_mul _ _, Scalar.abs_fract_mul_lt _ hdivisor⟩
  have hrest (x : K) : (p.withValue x).toBaseValue = p.unit.scale * x := hp.toBase_eq x
  have hbase : q.toBaseValue ≠ 0 := mt (toBaseValue_eq_zero_iff hq).mp h0
  rw [hrest, mul_left_comm, mul_div_cancel₀ _ hp.scale_ne_zero, ← add_mul, Int.floor_add_fract,
    div_mul_cancel₀ _ hbase]

/-- Seven kilometres by two of a unit of 1500 metres counted backwards: three times would be too little,
so the count is -3, and two kilometres backwards are left. -/
theorem floored_division_backwards :
    ∃ p q rest divisor : Quantity ℚ, p.unit.text = "km" ∧ q.unit.text = "r" ∧
      p.unit.Proportional ∧ q.unit.Proportional ∧ p.dimension = q.dimension ∧ q.value ≠ 0 ∧
      p.divMod q = .ok (-3, rest) ∧ p.remainder q = .ok rest ∧
      q.convertTo p.unit = .ok divisor ∧ rest.unit = p.unit ∧
      p.toBaseValue = -3 * q.toBaseValue + rest.toBaseValue ∧ rest.value = -2 ∧
      SignType.sign rest.value = SignType.sign divisor.value ∧ |rest.value| < |divisor.value| ∧
      p.divMod (q.withValue 0) = .error .divisionByZero := by
  let m : UnitOfMeasure ℚ := .base "m" (.of .length)
  let km : UnitOfMeasure ℚ := .atom ⟨"km", .of .length, 1000, 0, .prefixed .kilo m, 0⟩
  let r : UnitOfMeasure ℚ := .atom ⟨"r", .of .length, -1500, 0, .scaled m (-1500), 0⟩
  let p : Quantity ℚ := ⟨7, km⟩
  let q : Quantity ℚ := ⟨2, r⟩
  have hp : p.unit.Proportional := ⟨by decide +kernel, by decide +kernel⟩
  have hq : q.unit.Proportional := ⟨by decide +kernel, by decide +kernel⟩
  have hcount : ⌊p.toBaseValue / q.toBaseValue⌋ = -3 := by decide +kernel
  obtain ⟨-, -, hdivide⟩ := floored_division hp hq rfl
  obtain ⟨rest, divisor, hdivMod, hremainder, hdivisor, hunit, hbase, hsign, hlt⟩ :=
    hdivide (by decide +kernel)
  rw [hcount, Int.cast_neg, Int.cast_ofNat] at hdivMod hbase
  have hrest : rest.value = -2 := by
    have hscaled : rest.toBaseValue = 1000 * rest.value := by
      rw [toBaseValue, hunit]
      exact hp.toBase_eq _
    have hp7000 : p.toBaseValue = 7000 := by decide +kernel
    have hq3000 : q.toBaseValue = -3000 := by decide +kernel
    rw [hscaled, hp7000, hq3000] at hbase
    linarith
  have hzero : p.divMod (q.withValue 0) = .error .divisionByZero :=
    (floored_division hp (q := q.withValue 0) hq rfl).1.mpr rfl
  refine ⟨p, q, rest, divisor, rfl, rfl, hp, hq, rfl, by decide +kernel, hdivMod, hremainder,
    hdivisor, hunit, hbase, hrest, hsign.resolve_left ?_, hlt, hzero⟩
  rw [hrest]
  norm_num

end Quantity

end Metrology
