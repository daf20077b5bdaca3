import Metrology.Proofs.Binary64.Nearest
import Metrology.Proofs.Binary64.Sign

/-!
# Parity of integer powers

The power of `-x` to an integer is that of `x`, negated if the integer is odd.  How far powers of doubles
keep this depends on how they are computed:

* By repeated squaring they keep it (`powNat_neg`): only the first bit of the exponent sees the sign of
  `x`, all further factors are squares.
* As a real power to the double nearest to the integer they have a magnitude that does not depend on the
  sign (`exists_pow_eq`), under the parity of that double.  It is the parity of the integer below
  `2 ^ 53`, but from there on all doubles are even (`parts_ofInt`).

So a power keeps the sign of its base when the integer is odd and below `2 ^ 53` (`KeepsSign`,
`powInt_spec`).  No power of a defined number other than zero is undefined, for on the way there is never
a zero times an infinity: products of numbers that are not beyond one do not overflow (`IsSmall.mul`), and
products of numbers that are not below one do not vanish (`IsLarge.mul`).
-/

namespace Metrology

namespace Binary64

open Float.Model UnpackedFloat

variable {x y : Float}

/-! ### Integers as doubles -/

/-- A dyadic number that is an integer. -/
theorem isOdd_of_eq {m k : Nat} {e : Int} (h : (m : ℚ) * 2 ^ e = k) :
    isInteger m e = true ∧ isOdd m e = decide (k % 2 = 1) := by
  rcases le_or_gt e 0 with he | he
  · obtain ⟨d, rfl⟩ : ∃ d : Nat, e = -d := ⟨(-e).toNat, by omega⟩
    have hm : m = k * 2 ^ d := by
      rw [zpow_neg, zpow_natCast, ← div_eq_mul_inv, div_eq_iff (by positivity)] at h
      exact_mod_cast h
    have hd : (- -(d : Int)).toNat = d := by omega
    unfold isInteger isOdd
    rw [hd, if_neg (by omega), hm]
    simp only [Nat.pow_eq, Nat.mul_mod_left, Nat.mul_div_cancel _ (Nat.two_pow_pos d),
      beq_self_eq_true, Bool.true_and, beq_eq_decide, and_self]
  · obtain ⟨d, rfl⟩ : ∃ d : Nat, e = d + 1 := ⟨(e - 1).toNat, by omega⟩
    have hk : k = m * 2 ^ d * 2 := by
      have : (k : ℚ) = m * 2 ^ d * 2 := by
        rw [← h, zpow_add₀ two_ne_zero, zpow_natCast, zpow_one, mul_assoc]
      exact_mod_cast this
    have hd : (-((d : Int) + 1)).toNat = 0 := by omega
    unfold isInteger isOdd
    rw [hd, if_pos he, hk]
    simp [Nat.mod_one]

/-- An integer whose magnitude is below `2 ^ 53` is a double; the double nearest to a larger one is a
multiple of two, whatever its parity. -/
theorem parts_ofInt {n : Int} (hn : n ≠ 0) (hlt : n.natAbs < 2 ^ 64) :
    ∃ down m e, parts (ofInt n) = .finite down m e ∧ isInteger m e = true ∧
      isOdd m e = decide (n % 2 = 1 ∧ n.natAbs < 2 ^ 53) := by
  by_cases hsmall : n.natAbs < 2 ^ 53
  · have hof : ofInt n = ofDyadic (n < 0) n.natAbs 0 := by simp [ofInt, ofDyadic]
    obtain ⟨hfinite, hvalue⟩ := toRat_ofDyadic (n < 0) (e := 0) hsmall (by decide) (by decide)
    obtain ⟨down, m, e, hp⟩ := parts_of_isFinite hfinite
    have hmagnitude : (m : ℚ) * 2 ^ e = n.natAbs := by
      have habs : |sgn down * (m * 2 ^ e)| = |sgn (n < 0) * (n.natAbs * 2 ^ (0 : ℤ))| := by
        rw [← (toRat_of_parts hp).2, ← hvalue]
      simpa [abs_mul, abs_zpow] using habs
    obtain ⟨hint, hodd⟩ := isOdd_of_eq hmagnitude
    refine ⟨down, m, e, hof ▸ hp, hint, ?_⟩
    rw [hodd, decide_eq_decide]
    omega
  · obtain ⟨bits, hof, hlow, hhigh⟩ := ofInt_eq_ofMagnitude hn hlt
    have hlog : 53 ≤ n.natAbs.log2 := (Nat.le_log2 (by omega)).mpr (by omega)
    have hlog' : n.natAbs.log2 < 64 := (Nat.log2_lt (by omega)).mpr hlt
    have hrange : 1076 * binade ≤ bits ∧ bits < 2047 * binade :=
      ⟨(Nat.mul_le_mul_right _ (by omega)).trans hlow,
        hhigh.trans_lt (Nat.mul_lt_mul_of_pos_right (by omega) (by decide))⟩
    have hp := parts_ofMagnitude_normal (n < 0) (by omega) hrange.2
    have hexponent : (0 : Int) < (bits / binade : Nat) - 1075 := by
      have := (Nat.le_div_iff_mul_le (by decide : 0 < binade)).mpr hrange.1
      omega
    have hzero : (-((bits / binade : Nat) - 1075 : Int)).toNat = 0 := by omega
    refine ⟨_, _, _, hof ▸ hp, ?_, ?_⟩
    · unfold isInteger
      rw [hzero]
      simp [Nat.mod_one]
    · unfold isOdd
      rw [if_pos hexponent, eq_comm, decide_eq_false_iff_not]
      exact fun h => hsmall h.2

/-! ### Real powers -/

/-- The sign of an exponential is given apart from its magnitude. -/
theorem exists_exp_eq (z : Int) :
    ∃ bits ≤ 2047 * binade, ∀ negative, exp negative z = ofMagnitude negative bits := by
  unfold exp
  split_ifs
  · exact ⟨2047 * binade, le_rfl, fun _ => rfl⟩
  · exact ⟨0, Nat.zero_le _, fun _ => rfl⟩
  · simp only [ofDyadic]
    unfold nearest
    split_ifs
    · exact ⟨0, Nat.zero_le _, fun _ => rfl⟩
    · exact ⟨_, Nat.min_le_right _ _, fun _ => rfl⟩

section

variable {negative down : Bool} {m b : Nat} {e q : Int}

theorem significand_ne_zero (hx0 : (x == 0) = false) (hx : parts x = .finite negative m e) :
    m ≠ 0 := by
  rw [beq_zero_eq] at hx0
  rw [parts_eq] at hx
  cases hu : unpacked x with
  | zero s => simp [hu, isZero] at hx0
  | finite s m' e' hm =>
    rw [hu] at hx
    obtain ⟨-, rfl, -⟩ := Parts.finite.inj hx
    exact Nat.ne_of_gt hm
  | _ => simp [hu, Parts.ofUnpacked] at hx

/-- Finite numbers of one magnitude are raised to an integer by one logarithm; one is no exception. -/
theorem exists_pow_eq_exp (hm : m ≠ 0) (hy0 : (y == 0) = false) (hy : parts y = .finite down b q)
    (hint : isInteger b q = true) :
    ∃ z, ∀ x negative, parts x = .finite negative m e →
      pow x y = exp (signOfPower negative b q) z := by
  refine ⟨if down then -(ln m e * b * Nat.pow 2 q.toNat / Nat.pow 2 (-q).toNat)
    else ln m e * b * Nat.pow 2 q.toNat / Nat.pow 2 (-q).toNat, fun x negative hx => ?_⟩
  by_cases h1 : (x == 1) = true
  · obtain rfl := eq_of_beq_of_isFactor h1 isFactor_one
    have hone : parts 1 = .finite false (2 ^ 52) (-52) := by decide +kernel
    obtain ⟨rfl, rfl, rfl⟩ := Parts.finite.inj (hone.symm.trans hx)
    have hln : ln (2 ^ 52) (-52) = 0 := by decide +kernel
    have hexp : exp false 0 = 1 := by decide +kernel
    have hpow : pow 1 y = 1 := by
      unfold pow
      rw [h1, Bool.or_true, if_pos rfl]
    rw [hpow, hln]
    simp [signOfPower, hexp]
  · unfold pow
    simp [hy0, h1, hx, hy, hm, hint]

theorem pow_of_infinite (hx : parts x = .infinite negative) (hy0 : (y == 0) = false)
    (hy : parts y = .finite down b q) :
    pow x y = if down then zero (signOfPower negative b q)
      else infinity (signOfPower negative b q) := by
  have hfactor : Scalar.isFactor x = false := by
    rw [isFactor_eq]
    rw [parts_eq] at hx
    cases hu : unpacked x <;> rw [hu] at hx <;> first | rfl | cases hx
  unfold pow
  simp [hy0, beq_one_eq_false hfactor, hx, hy]

/-- The power of a defined number other than zero to an integer has a magnitude that does not depend on
the sign of the number. -/
theorem exists_pow_eq (hx : (x == x) = true) (hx0 : (x == 0) = false) (hy0 : (y == 0) = false)
    (hy : parts y = .finite down b q) (hint : isInteger b q = true) :
    ∃ bits ≤ 2047 * binade, pow x y = ofMagnitude (signOfPower (isNegative x) b q) bits ∧
      pow (-x) y = ofMagnitude (signOfPower (!isNegative x) b q) bits := by
  have hneg := isNegative_neg hx
  cases hp : parts x with
  | nan => exact absurd hp (beq_self_eq_true_iff.mp hx)
  | infinite negative =>
    have hp' : parts (-x) = .infinite (!negative) := by rw [parts_neg, hp, Parts.neg]
    have hsign : isNegative x = negative := by rw [isNegative, hp]
    rw [hsign, pow_of_infinite hp hy0 hy, pow_of_infinite hp' hy0 hy]
    cases down with
    | true => exact ⟨0, Nat.zero_le _, rfl, rfl⟩
    | false => exact ⟨2047 * binade, le_rfl, rfl, rfl⟩
  | finite negative m e =>
    have hp' : parts (-x) = .finite (!negative) m e := by rw [parts_neg, hp, Parts.neg]
    have hsign : isNegative x = negative := by rw [isNegative, hp]
    obtain ⟨z, hz⟩ := exists_pow_eq_exp (significand_ne_zero hx0 hp) hy0 hy hint
    obtain ⟨bits, hbits, hexp⟩ := exists_exp_eq z
    rw [hsign, hz x _ hp, hz (-x) _ hp', hexp, hexp]
    exact ⟨bits, hbits, rfl, rfl⟩

/-- Powers to an odd number are negated with their base, and powers to an even number are not. -/
theorem pow_neg_spec (hx : (x == x) = true) (hx0 : (x == 0) = false) (hy0 : (y == 0) = false)
    (hy : parts y = .finite down b q) (hint : isInteger b q = true) :
    (pow x y == pow x y) = true ∧ isNegative (pow x y) = signOfPower (isNegative x) b q ∧
      pow (-x) y = if isOdd b q then -pow x y else pow x y := by
  obtain ⟨bits, hbits, hpow, hneg⟩ := exists_pow_eq hx hx0 hy0 hy hint
  obtain ⟨hdefined, hsign⟩ := ofMagnitude_spec hbits (signOfPower (isNegative x) b q)
  rw [hpow]
  refine ⟨hdefined, hsign, ?_⟩
  rw [hneg, ← ofMagnitude_not hbits]
  cases hodd : isOdd b q <;> simp [signOfPower, hodd]

end

/-! ### Products of magnitudes -/

/-- A finite number that is not beyond one. -/
def IsSmall (x : Float) : Prop :=
  Scalar.isFinite x = true ∧ |toRat x| ≤ 1

/-- A defined number that is not below one. -/
def IsLarge (x : Float) : Prop :=
  (x == x) = true ∧ (Scalar.isFinite x = true → 1 ≤ |toRat x|)

theorem isSmall_one : IsSmall 1 :=
  ⟨rfl, by rw [toRat_one, abs_one]⟩

theorem isLarge_one : IsLarge 1 :=
  ⟨by decide +kernel, fun _ => by rw [toRat_one, abs_one]⟩

theorem IsSmall.mul (hx : IsSmall x) (hy : IsSmall y) : IsSmall (x * y) := by
  have hone : Scalar.isFinite (1 : Float) = true := rfl
  have hminus : Scalar.isFinite (-1 : Float) = true := rfl
  have hle : |toRat x * toRat y| ≤ 1 := by
    rw [abs_mul]
    exact mul_le_one₀ hx.2 (abs_nonneg _) hy.2
  obtain ⟨hlow, hhigh⟩ := abs_le.mp hle
  obtain ⟨hfinite, hlow', hhigh'⟩ := (isRounded_mul hx.1 hy.1).between hminus hone
    (by rwa [toRat_neg, toRat_one]) (by rwa [toRat_one])
  rw [toRat_neg, toRat_one] at hlow'
  rw [toRat_one] at hhigh'
  exact ⟨hfinite, abs_le.mpr ⟨hlow', hhigh'⟩⟩

theorem one_le_abs_of_rounds {q : ℚ} {f : UnpackedFloat} (h : Rounds q f) (hq : 1 ≤ |q|) :
    1 ≤ |value f| := by
  have hone : Scalar.isFinite (1 : Float) = true := rfl
  have hminus : Scalar.isFinite (-1 : Float) = true := rfl
  rcases le_abs.mp hq with hpos | hneg
  · have := h.le_value hone (by rwa [toRat_one])
    rw [toRat_one] at this
    exact le_abs.mpr (.inl this)
  · have := h.value_le hminus (by rw [toRat_neg, toRat_one]; linarith)
    rw [toRat_neg, toRat_one] at this
    exact le_abs.mpr (.inr (by linarith))

theorem beq_zero_of_isLarge (hx : IsLarge x) : (x == 0) = false := by
  rw [← Bool.not_eq_true]
  intro h0
  have hle := hx.2 (isFinite_of_beq_zero h0)
  rw [toRat_of_beq_zero h0, abs_zero] at hle
  norm_num at hle

/-- A product is defined and overflows with its factors when none of them is a zero. -/
theorem beq_self_mul_of_ne_zero (hx : (x == x) = true) (hy : (y == y) = true)
    (hx0 : (x == 0) = false) (hy0 : (y == 0) = false) :
    (x * y == x * y) = true ∧
      (Scalar.isFinite (x * y) = true → Scalar.isFinite x = true ∧ Scalar.isFinite y = true) := by
  rw [beq_self_eq, Bool.not_eq_true'] at hx hy ⊢
  rw [beq_zero_eq] at hx0 hy0
  rw [isFinite_eq, isFinite_eq, isFinite_eq, unpacked_mul, isNaN_repacked]
  cases hf : unpacked x <;> cases hg : unpacked y
  case finite.finite => exact ⟨isNaN_roundWithAccuracy _ _ _ _, fun _ => ⟨rfl, rfl⟩⟩
  all_goals simp_all [UnpackedFloat.isNaN, isZero, UnpackedFloat.isFinite, UnpackedFloat.mul]

theorem IsLarge.mul (hx : IsLarge x) (hy : IsLarge y) : IsLarge (x * y) := by
  obtain ⟨hdefined, hfinite⟩ := beq_self_mul_of_ne_zero hx.1 hy.1 (beq_zero_of_isLarge hx)
    (beq_zero_of_isLarge hy)
  refine ⟨hdefined, fun hz => ?_⟩
  obtain ⟨hxf, hyf⟩ := hfinite hz
  refine one_le_abs_of_rounds ((isRounded_mul hxf hyf).rounds hz) ?_
  rw [abs_mul]
  exact one_le_mul_of_one_le_of_one_le (hx.2 hxf) (hy.2 hyf)

/-- The reciprocal of a defined number is defined. -/
theorem beq_self_one_div (h : (x == x) = true) : (1 / x == 1 / x) = true := by
  have hone : unpacked 1 = .finite .positive (2 ^ 52) (-52) (by decide) := rfl
  rw [beq_self_eq, Bool.not_eq_true'] at h ⊢
  rw [unpacked_div, isNaN_repacked, hone]
  cases hf : unpacked x <;> rw [hf] at h <;> first | rfl | cases h
  exact isNaN_roundWithAccuracy _ _ _ _

end Binary64

namespace Scalar

open Binary64

variable {x result : Float}

/-! ### Integer powers -/

/-- Repeated squaring stays within a class of numbers that is closed under products. -/
theorem powBits_mem {P : Float → Prop} (hmul : ∀ {x y}, P x → P y → P (x * y)) (bits : Nat)
    {n : Nat} (hr : P result) (hx : P x) : P (powBits bits result x n) := by
  induction bits generalizing result x n with
  | zero => exact hr
  | succ bits ih =>
    refine ih ?_ (hmul hx hx)
    split
    · exact hmul hr hx
    · exact hr

theorem powBits_neg (bits : Nat) (result x : Float) (n : Nat) :
    powBits bits (-result) x n = -powBits bits result x n := by
  induction bits generalizing result x n with
  | zero => rfl
  | succ bits ih =>
    rw [powBits, powBits, Binary64.neg_mul, ← apply_ite Neg.neg, ih]

/-- The first bit of the exponent decides about the sign; all further factors are squares. -/
theorem powNat_neg (x : Float) (n : Nat) :
    powNat (-x) n = if n % 2 = 1 then -powNat x n else powNat x n := by
  rw [powNat, powNat, powBits, powBits, Binary64.neg_mul_neg, Binary64.mul_neg]
  split
  · exact powBits_neg _ _ _ _
  · rfl

/-- Powers of a number that is not beyond one do not overflow, and those of a number that is not below
one do not vanish; so they are defined. -/
theorem beq_self_powNat (hx : (x == x) = true) (n : Nat) : (powNat x n == powNat x n) = true := by
  by_cases hsmall : IsSmall x
  · have h : IsSmall (powNat x n) := powBits_mem (P := IsSmall) IsSmall.mul _ isSmall_one hsmall
    exact beq_self_of_isFinite h.1
  · have hlarge : IsLarge x := ⟨hx, fun hf => le_of_not_ge fun hle => hsmall ⟨hf, hle⟩⟩
    have h : IsLarge (powNat x n) := powBits_mem (P := IsLarge) IsLarge.mul _ isLarge_one hlarge
    exact h.1

theorem isNegative_powNat (hx : isNegative x = false) (n : Nat) :
    isNegative (powNat x n) = false := by
  have hone : isNegative 1 = false := by decide +kernel
  exact powBits_mem (P := fun x => isNegative x = false) isNegative_mul _ hone hx

/-- A power to an integer keeps the sign of its base when the integer is odd and below `2 ^ 53`, so that
it is a double. -/
def KeepsSign (n : Int) : Prop :=
  n % 2 = 1 ∧ n.natAbs < 2 ^ 53

instance (n : Int) : Decidable (KeepsSign n) :=
  inferInstanceAs (Decidable (_ ∧ _))

/-- The power of a defined number other than zero is defined, and with the number it is negated when
the power keeps the sign. -/
theorem powInt_spec (hx : (x == x) = true) (h0 : (x == 0) = false) {n : Int}
    (hn : n.natAbs < 2 ^ 64) :
    (powInt x n == powInt x n) = true ∧
      (isNegative x = false → isNegative (powInt x n) = false) ∧
      powInt (-x) n = if KeepsSign n then -powInt x n else powInt x n := by
  by_cases hrange : -0x80000000 ≤ n ∧ n < 0x80000000
  · have hkeeps : KeepsSign n ↔ n.natAbs % 2 = 1 := by
      unfold KeepsSign
      omega
    have hnat := beq_self_powNat hx n.natAbs
    have hneg := powNat_neg x n.natAbs
    have hone : isNegative 1 = false := by decide +kernel
    unfold powInt
    simp only [hrange, and_self, if_true, hkeeps, hneg]
    by_cases hsign : n < 0
    · simp only [hsign, if_true]
      refine ⟨beq_self_one_div hnat, fun h => isNegative_div hone (isNegative_powNat h _), ?_⟩
      split
      · exact Binary64.div_neg _ _
      · rfl
    · simp only [hsign, if_false]
      exact ⟨hnat, fun h => isNegative_powNat h _, trivial⟩
  · have hn0 : n ≠ 0 := by
      rintro rfl
      exact hrange (by decide)
    obtain ⟨down, m, e, hy, hint, hodd⟩ := parts_ofInt hn0 hn
    obtain ⟨hdefined, hsign, hneg⟩ := pow_neg_spec hx h0 (beq_zero_ofInt hn0 hn) hy hint
    unfold powInt
    simp only [hrange, if_false]
    refine ⟨hdefined, fun h => ?_, ?_⟩
    · exact hsign.trans (by rw [h, signOfPower, Bool.false_and])
    · refine hneg.trans ?_
      rw [hodd]
      simp only [decide_eq_true_eq, KeepsSign]
      rfl

end Scalar

end Metrology
