import Metrology.Proofs.Binary64.Unpacked

/-!
# Factors among the doubles

A double is usable as a factor when it is finite and not zero.  What is computed from zeros,
infinities and undefined numbers is one of them again, so a product, a quotient or a power that is
usable as a factor had operands that are (`isFactor_of_mul`, `isFactor_of_div`, `isFactor_of_raise`).
The one exception is the zeroth power, which is 1 even of an undefined number; so the exponent must
not be zero, and for a power that is taken as a real one, its value as a double must not be zero
either (`beq_zero_ofInt`, `beq_zero_one_div_ofInt`).
-/

namespace Metrology.Binary64

open Float.Model UnpackedFloat

variable {x y : Float}

theorem isFinite_zero : Scalar.isFinite (0 : Float) = true := rfl

theorem isFactor_one : Scalar.isFactor (1 : Float) = true := by
  decide +kernel

/-! ### Arithmetic -/

theorem isFactor_of_mul (h : Scalar.isFactor (x * y) = true) :
    Scalar.isFactor x = true ∧ Scalar.isFactor y = true := by
  rw [isFactor_eq, unpacked_mul] at h
  rw [isFactor_eq, isFactor_eq]
  generalize unpacked x = f at *
  generalize unpacked y = g at *
  cases f <;> cases g <;> simp_all [UnpackedFloat.mul, isRegular]

theorem isFactor_of_div (h : Scalar.isFactor (x / y) = true) :
    Scalar.isFactor x = true ∧ Scalar.isFactor y = true := by
  rw [isFactor_eq, unpacked_div] at h
  rw [isFactor_eq, isFactor_eq]
  generalize unpacked x = f at *
  generalize unpacked y = g at *
  cases f <;> cases g <;> simp_all [UnpackedFloat.div, isRegular]

theorem isFactor_sqrt (h : Scalar.isFactor x = false) : Scalar.isFactor x.sqrt = false := by
  rw [isFactor_eq] at h
  rw [isFactor_eq, unpacked_sqrt]
  generalize unpacked x = f at *
  cases f with
  | infinity s => cases s <;> simp [UnpackedFloat.sqrt, isRegular]
  | notANumber => simp [UnpackedFloat.sqrt, isRegular]
  | zero s => simp [UnpackedFloat.sqrt, isRegular]
  | finite s m e hm => cases h

theorem isFinite_of_beq_zero (h : (x == 0) = true) : Scalar.isFinite x = true := by
  have hfinite : Scalar.isFinite x = (unpacked x).isFinite := rfl
  rw [beq_zero_eq] at h
  rw [hfinite]
  cases hx : unpacked x <;> simp_all [isZero, UnpackedFloat.isFinite]

theorem beq_one_eq_false (h : Scalar.isFactor x = false) : (x == 1) = false := by
  have hone : unpacked 1 = .finite .positive (2 ^ 52) (-52) (by decide) := rfl
  have hbeq : (x == 1) = ((unpacked x).compare (unpacked 1) == some .eq) := rfl
  rw [isFactor_eq] at h
  rw [hbeq, hone]
  cases hx : unpacked x with
  | infinity s => cases s <;> rfl
  | notANumber => rfl
  | zero s => rfl
  | finite s m e hm => simp [hx, isRegular] at h

/-! ### Defined results -/

theorem isFinite_eq (x : Float) : Scalar.isFinite x = (unpacked x).isFinite := rfl

/-- The undefined doubles are those that differ from themselves. -/
theorem beq_self_eq (x : Float) : (x == x) = !(unpacked x).isNaN := by
  have h : (x == x) = ((unpacked x).compare (unpacked x) == some .eq) := rfl
  rw [h]
  cases unpacked x with
  | infinity s => cases s <;> rfl
  | notANumber => rfl
  | zero s => rfl
  | finite s m e hm =>
    cases s <;> simp [UnpackedFloat.compare, UnpackedFloat.isNaN, Std.ReflOrd.compare_self]

theorem beq_self_of_isFinite (hx : Scalar.isFinite x = true) : (x == x) = true := by
  rw [isFinite_eq] at hx
  rw [beq_self_eq]
  cases hf : unpacked x <;> rw [hf] at hx <;> first | rfl | cases hx

theorem beq_self_mul (hx : Scalar.isFinite x = true) (hy : Scalar.isFinite y = true) :
    (x * y == x * y) = true := by
  rw [isFinite_eq] at hx hy
  rw [beq_self_eq, unpacked_mul, isNaN_repacked, Bool.not_eq_true']
  cases hf : unpacked x <;> cases hg : unpacked y <;>
    simp only [hf, hg, UnpackedFloat.isFinite, Bool.false_eq_true] at hx hy
  case finite.finite => exact isNaN_roundWithAccuracy _ _ _ _
  all_goals rfl

theorem beq_self_mul_of_isFactor (hx : (x == x) = true) (hy : Scalar.isFactor y = true) :
    (x * y == x * y) = true := by
  rw [isFactor_eq] at hy
  rw [beq_self_eq, Bool.not_eq_true'] at hx ⊢
  rw [unpacked_mul, isNaN_repacked]
  cases hf : unpacked x <;> cases hg : unpacked y <;>
    simp only [hf, hg, isRegular, UnpackedFloat.isNaN, Bool.false_eq_true,
      Bool.true_eq_false] at hx hy
  case finite.finite => exact isNaN_roundWithAccuracy _ _ _ _
  all_goals rfl

theorem beq_self_add (hx : (x == x) = true) (hy : Scalar.isFinite y = true) :
    (x + y == x + y) = true := by
  rw [isFinite_eq] at hy
  rw [beq_self_eq, Bool.not_eq_true'] at hx ⊢
  rw [unpacked_add, isNaN_repacked]
  cases hf : unpacked x <;> cases hg : unpacked y <;>
    simp only [hf, hg, UnpackedFloat.isFinite, UnpackedFloat.isNaN, Bool.false_eq_true,
      Bool.true_eq_false] at hx hy
  case zero.zero =>
    unfold UnpackedFloat.add
    simp only
    split <;> rfl
  case finite.finite => exact isNaN_normalize _ _ _
  all_goals rfl

theorem beq_self_sub (hx : (x == x) = true) (hy : Scalar.isFinite y = true) :
    (x - y == x - y) = true := by
  rw [isFinite_eq] at hy
  rw [beq_self_eq, Bool.not_eq_true'] at hx ⊢
  rw [unpacked_sub, isNaN_repacked]
  cases hf : unpacked x <;> cases hg : unpacked y <;>
    simp only [hf, hg, UnpackedFloat.isFinite, UnpackedFloat.isNaN, Bool.false_eq_true,
      Bool.true_eq_false] at hx hy
  case zero.zero =>
    unfold UnpackedFloat.sub
    simp only
    split <;> rfl
  case finite.finite => exact isNaN_normalize _ _ _
  all_goals rfl

theorem beq_self_div (hx : (x == x) = true) (hy : Scalar.isFactor y = true) :
    (x / y == x / y) = true := by
  rw [isFactor_eq] at hy
  rw [beq_self_eq, Bool.not_eq_true'] at hx ⊢
  rw [unpacked_div, isNaN_repacked]
  cases hf : unpacked x <;> cases hg : unpacked y <;>
    simp only [hf, hg, isRegular, UnpackedFloat.isNaN, Bool.false_eq_true,
      Bool.true_eq_false] at hx hy
  case finite.finite => exact isNaN_roundWithAccuracy _ _ _ _
  all_goals rfl

/-! ### Integers as doubles -/

/-- Magnitude bits with a biased exponent are a normal number. -/
theorem unpacked_ofMagnitude (negative : Bool) {bits : Nat} (hlow : binade ≤ bits)
    (hhigh : bits < 2047 * binade) : ∃ s hm, unpacked (ofMagnitude negative bits) =
      .finite s (binade + bits % binade) ((bits / binade : Nat) - 1075) hm := by
  set b : BitVec Format.binary64.numBits :=
    (UInt64.ofNat (if negative then signBit + bits else bits)).toBitVec with hb
  have hnat : b.toNat = if negative then signBit + bits else bits := by
    have hlt : (if negative then signBit + bits else bits) < 2 ^ 64 := by
      unfold binade at *
      cases negative <;> simp [signBit] <;> omega
    exact Nat.mod_eq_of_lt hlt
  have hexp : (unpackExponent b).toNat = bits / binade := by
    rw [toNat_unpackExponent, hnat]
    unfold binade at *
    cases negative <;> simp [signBit] <;> omega
  have hmant : (unpackMantissa b).toNat = bits % binade := by
    rw [toNat_unpackMantissa, hnat]
    unfold binade at *
    cases negative <;> simp [signBit]; omega
  have hones : unpackExponent b ≠ -1#_ := by
    rw [Ne, ← BitVec.toNat_inj, hexp]
    change ¬_ = 2047
    unfold binade at *
    omega
  have hnone : unpackExponent b ≠ 0#_ := by
    rw [Ne, ← BitVec.toNat_inj, hexp]
    change ¬_ = 0
    unfold binade at *
    omega
  have hbias : Format.binary64.exponentBias = 1023 := by decide
  have hcons : (1#1 ++ unpackMantissa b).toNat = binade + bits % binade := by
    rw [BitVec.toNat_append, ← Nat.shiftLeft_add_eq_or_of_lt (unpackMantissa b).isLt, hmant]
    rfl
  have hunpack : unpacked (ofMagnitude negative bits) =
      repacked (UnpackedFloat.unpack Format.binary64 b) := rfl
  rw [hunpack, UnpackedFloat.unpack]
  simp only [hones, hnone, if_false, hexp, hcons, hbias]
  unfold binade at *
  have hm : 0 < 0x10000000000000 + bits % 0x10000000000000 := by omega
  exact ⟨_, hm, repacked_normal _ hm (by omega) (by omega) (by omega) (by omega)⟩

theorem log2Ratio_one {n : Nat} (hn : 0 < n) : log2Ratio n 1 = Nat.log2 n := by
  have hlog : ((Nat.log2 n : Int) - Nat.log2 1) = Nat.log2 n := by
    have h1 : Nat.log2 1 = 0 := by decide
    omega
  have hle : 1 * Nat.pow 2 (Nat.log2 n : Int).toNat ≤
      n * Nat.pow 2 (-(Nat.log2 n : Int)).toNat := by
    have h0 : (-(Nat.log2 n : Int)).toNat = 0 := by omega
    rw [h0, Int.toNat_natCast, Nat.one_mul]
    simpa using Nat.log2_self_le (Nat.ne_of_gt hn)
  unfold log2Ratio
  simp only [hlog]
  rw [if_pos hle]

theorem roundHalfEven_le {num den bound : Nat} (hden : 0 < den) (h : num < bound * den) :
    roundHalfEven num den ≤ bound := by
  have hround : 2 * (roundHalfEven num den * den) ≤ 2 * num + den :=
    two_mul_roundHalfEven_sub_le hden
  by_contra hgt
  have hmul : (bound + 1) * den ≤ roundHalfEven num den * den :=
    Nat.mul_le_mul_right den (Nat.lt_of_not_le hgt)
  have hexpand : (bound + 1) * den = bound * den + den := Nat.succ_mul bound den
  omega

theorem le_roundHalfEven {num den bound : Nat} (hden : 0 < den) (h : bound * den ≤ num) :
    bound ≤ roundHalfEven num den := by
  have hround : 2 * num ≤ 2 * (roundHalfEven num den * den) + den :=
    two_mul_sub_roundHalfEven_le hden
  by_contra hlt
  have hmul : (roundHalfEven num den + 1) * den ≤ bound * den :=
    Nat.mul_le_mul_right den (Nat.lt_of_not_le hlt)
  have hexpand : (roundHalfEven num den + 1) * den = roundHalfEven num den * den + den :=
    Nat.succ_mul _ den
  omega

/-- Over the exponent that is 52 below its logarithm, a number has 53 bits. -/
theorem mul_two_pow_lt {n : Nat} {e : Int} (he : e = n.log2 - 52) :
    n * Nat.pow 2 (-e).toNat < 2 ^ 53 * (1 * Nat.pow 2 e.toNat) := by
  have hself : n < 2 ^ (n.log2 + 1) := Nat.lt_log2_self
  have hsplit : 2 ^ 53 * (1 * Nat.pow 2 e.toNat) = 2 ^ (n.log2 + 1) * 2 ^ (-e).toNat := by
    rw [Nat.one_mul, Nat.pow_eq, ← Nat.pow_add, ← Nat.pow_add]
    congr 1
    omega
  rw [hsplit, Nat.pow_eq]
  exact Nat.mul_lt_mul_of_pos_right hself (Nat.two_pow_pos _)

/-- Over the exponent that is 52 below its logarithm, a number has no fewer than 53 bits. -/
theorem two_pow_mul_le {n : Nat} {e : Int} (hn : 0 < n) (he : e = n.log2 - 52) :
    2 ^ 52 * (1 * Nat.pow 2 e.toNat) ≤ n * Nat.pow 2 (-e).toNat := by
  have hself : 2 ^ n.log2 ≤ n := Nat.log2_self_le (Nat.ne_of_gt hn)
  have hsplit : 2 ^ 52 * (1 * Nat.pow 2 e.toNat) = 2 ^ n.log2 * 2 ^ (-e).toNat := by
    rw [Nat.one_mul, Nat.pow_eq, ← Nat.pow_add, ← Nat.pow_add]
    congr 1
    omega
  rw [hsplit, Nat.pow_eq]
  exact Nat.mul_le_mul_right _ hself

/-- The bits of an integer other than zero. -/
theorem ofInt_eq_ofMagnitude {n : Int} (hn : n ≠ 0) (hlt : n.natAbs < 2 ^ 64) :
    ∃ bits, ofInt n = ofMagnitude (n < 0) bits ∧ (n.natAbs.log2 + 1023) * binade ≤ bits ∧
      bits ≤ (n.natAbs.log2 + 1024) * binade := by
  have hpos : 0 < n.natAbs := by omega
  have hlog : n.natAbs.log2 < 64 := (Nat.log2_lt (Nat.ne_of_gt hpos)).mpr hlt
  set e : Int := n.natAbs.log2 - 52 with he
  set num := n.natAbs * Nat.pow 2 (-e).toNat
  set den := 1 * Nat.pow 2 e.toNat with hden
  have hden0 : 0 < den := by
    rw [hden, Nat.one_mul]
    exact Nat.two_pow_pos _
  have hlow : 2 ^ 52 ≤ roundHalfEven num den := le_roundHalfEven hden0 (two_pow_mul_le hpos he)
  have hhigh : roundHalfEven num den ≤ 2 ^ 53 := roundHalfEven_le hden0 (mul_two_pow_lt he)
  have hmax : max (log2Ratio n.natAbs 1 - 52) (-1074) = e := by
    rw [log2Ratio_one hpos]
    omega
  set bits := (e + 1074).toNat * binade + roundHalfEven num den with hbits
  have hbits' : (n.natAbs.log2 + 1023) * binade ≤ bits ∧
      bits ≤ (n.natAbs.log2 + 1024) * binade := by
    unfold binade at *
    omega
  have hof : ofInt n = ofMagnitude (n < 0) (min bits (2047 * binade)) := by
    unfold ofInt nearest
    rw [if_neg (Nat.ne_of_gt hpos), hmax]
  have hmin : min bits (2047 * binade) = bits :=
    Nat.min_eq_left (hbits'.2.trans (Nat.mul_le_mul_right _ (by omega)))
  exact ⟨bits, hmin ▸ hof, hbits'⟩

/-- An integer of 64 bits other than zero is a normal double. -/
theorem unpacked_ofInt {n : Int} (hn : n ≠ 0) (hlt : n.natAbs < 2 ^ 64) :
    ∃ s m e hm, unpacked (ofInt n) = .finite s m e hm ∧ 2 ^ 52 ≤ m ∧ m < 2 ^ 53 ∧ e ≤ 12 := by
  obtain ⟨bits, hof, hbits, hbits'⟩ := ofInt_eq_ofMagnitude hn hlt
  have hlog : n.natAbs.log2 < 64 := (Nat.log2_lt (by omega)).mpr hlt
  have hlow : binade ≤ bits := (Nat.le_mul_of_pos_left _ (Nat.succ_pos _)).trans hbits
  have hhigh : bits < 1088 * binade :=
    hbits'.trans_lt (Nat.mul_lt_mul_of_pos_right (by omega) (by decide))
  clear hbits hbits'
  obtain ⟨s, hm, hs⟩ := unpacked_ofMagnitude (n < 0) hlow (by omega)
  rw [hof]
  unfold binade at *
  exact ⟨s, _, _, hm, hs, by omega, by omega, by omega⟩

theorem beq_zero_ofInt {n : Int} (hn : n ≠ 0) (hlt : n.natAbs < 2 ^ 64) :
    (ofInt n == 0) = false := by
  obtain ⟨s, m, e, hm, hs, -⟩ := unpacked_ofInt hn hlt
  rw [beq_zero_eq, hs]
  rfl

/-- The reciprocal of an integer of 64 bits does not vanish. -/
theorem beq_zero_one_div_ofInt {n : Int} (hn : n ≠ 0) (hlt : n.natAbs < 2 ^ 64) :
    (1 / ofInt n == 0) = false := by
  obtain ⟨s, m, e, hm, hs, hlow, hhigh, he⟩ := unpacked_ofInt hn hlt
  have hone : unpacked 1 = .finite .positive (2 ^ 52) (-52) (by decide) := rfl
  have hlog : m.log2 = 52 := log2_eq_of_normal hlow hhigh
  -- The quotient is taken with 53 bits more, so that it has one bit at least.
  have hcore : divCore Format.binary64 (2 ^ 52) (-52) m e =
      (2 ^ 105 / m, -105 - e, accuracyOfFraction (2 ^ 105 % m) m) := by
    have hlog52 : Nat.log2 (2 ^ 52) = 52 := by decide
    have htarget : min (-52 - e) (Format.binary64.targetExponent
        (totalExponent (2 ^ 52) (-52) - totalExponent m e)) = -105 - e := by
      rw [targetExponent_eq, totalExponent, totalExponent, hlog, hlog52]
      omega
    have hshift : (-52 - e - (-105 - e)).toNat = 53 := by omega
    have hpow : 2 ^ 52 <<< 53 = 2 ^ 105 := by decide
    unfold divCore
    simp only [htarget, hshift, hpow]
  have hquotient : 0 < 2 ^ 105 / m := Nat.div_pos (by omega) hm
  rw [beq_zero_eq, unpacked_div, hone, hs, UnpackedFloat.div]
  simp only [hcore]
  exact isZero_repacked_roundWithAccuracy _ hquotient (by omega) _

/-! ### Roots and real powers -/

/-- The parts of a double that is not usable as a factor. -/
theorem parts_cases (h : Scalar.isFactor x = false) :
    parts x = .nan ∨ (∃ negative, parts x = .infinite negative) ∨
      ∃ negative e, parts x = .finite negative 0 e := by
  rw [isFactor_eq] at h
  rw [parts_eq]
  cases hx : unpacked x with
  | infinity s => exact .inr (.inl ⟨_, rfl⟩)
  | notANumber => exact .inl rfl
  | zero s => exact .inr (.inr ⟨_, _, rfl⟩)
  | finite s m e hm => simp [hx, isRegular] at h

@[simp]
theorem isFactor_nan : Scalar.isFactor nan = false := by
  decide +kernel

@[simp]
theorem isFactor_infinity (negative : Bool) : Scalar.isFactor (infinity negative) = false := by
  cases negative <;> decide +kernel

@[simp]
theorem isFactor_zero (negative : Bool) : Scalar.isFactor (zero negative) = false := by
  cases negative <;> decide +kernel

theorem isFactor_cbrt (h : Scalar.isFactor x = false) : Scalar.isFactor (cbrt x) = false := by
  rcases parts_cases h with hp | ⟨negative, hp⟩ | ⟨negative, e, hp⟩ <;> simp [cbrt, hp, h]

/-- The powers of a zero, an infinity or an undefined number are such numbers, other than the
zeroth. -/
theorem isFactor_pow (hx : Scalar.isFactor x = false) (hy : (y == 0) = false) :
    Scalar.isFactor (pow x y) = false := by
  have hone : ((y == 0) || (x == 1)) = false := by rw [hy, beq_one_eq_false hx]; rfl
  unfold pow
  rw [hone, if_neg Bool.false_ne_true]
  rcases parts_cases hx with hp | ⟨negative, hp⟩ | ⟨negative, e, hp⟩
  · simp [hp]
  · cases hq : parts y with
    | nan => simp [hp]
    | infinite down => cases down <;> simp [hp]
    | finite down b q => cases down <;> simp [hp]
  · cases hq : parts y with
    | nan => simp [hp]
    | infinite down =>
      have hne : ¬0 = Nat.pow 2 (-e).toNat := Nat.ne_of_lt (Nat.two_pow_pos _)
      simp only [hp, Nat.zero_mul, if_neg hne]
      split
      · exact isFactor_infinity _
      · exact isFactor_zero _
    | finite down b q => cases down <;> simp [hp]

end Metrology.Binary64

namespace Metrology.Scalar

open Binary64

variable {x y result : Float}

/-! ### Rational powers -/

theorem isFactor_mul (h : isFactor x = false ∨ isFactor y = false) : isFactor (x * y) = false := by
  rw [← Bool.not_eq_true]
  intro hxy
  obtain ⟨hx, hy⟩ := isFactor_of_mul hxy
  simp [hx, hy] at h

theorem isFactor_div (h : isFactor x = false ∨ isFactor y = false) : isFactor (x / y) = false := by
  rw [← Bool.not_eq_true]
  intro hxy
  obtain ⟨hx, hy⟩ := isFactor_of_div hxy
  simp [hx, hy] at h

theorem isFactor_powBits {bits n : Nat} (hn : n < 2 ^ bits)
    (h : isFactor result = false ∨ isFactor x = false ∧ n ≠ 0) :
    isFactor (powBits bits result x n) = false := by
  induction bits generalizing result x n with
  | zero =>
    have h0 : n = 0 := by simpa using hn
    exact h.resolve_right fun hx => hx.2 h0
  | succ bits ih =>
    have hhalf : n / 2 < 2 ^ bits := by rw [Nat.pow_succ] at hn; omega
    refine ih hhalf ?_
    rcases h with hresult | ⟨hx, h0⟩
    · left
      split
      · exact isFactor_mul (.inl hresult)
      · exact hresult
    · by_cases hodd : n % 2 = 1
      · rw [if_pos hodd]
        exact .inl (isFactor_mul (.inr hx))
      · exact .inr ⟨isFactor_mul (.inl hx), by omega⟩

theorem isFactor_powNat {n : Nat} (hx : isFactor x = false) (hn : n ≠ 0) :
    isFactor (powNat x n) = false :=
  isFactor_powBits ((Nat.log2_lt hn).mp (Nat.lt_succ_self _)) (.inr ⟨hx, hn⟩)

theorem isFactor_powInt {n : Int} (hx : isFactor x = false) (hn : n ≠ 0)
    (hlt : n.natAbs < 2 ^ 64) : isFactor (powInt x n) = false := by
  have h0 : n.natAbs ≠ 0 := by omega
  unfold powInt
  split
  · split
    · exact isFactor_div (.inr (isFactor_powNat hx h0))
    · exact isFactor_powNat hx h0
  · exact isFactor_pow hx (beq_zero_ofInt hn hlt)

theorem isFactor_root {degree : Nat} (hx : isFactor x = false) (h0 : degree ≠ 0)
    (hlt : degree < 2 ^ 64) : isFactor (root x degree) = false := by
  unfold root
  split
  · exact isFactor_sqrt hx
  · exact isFactor_cbrt hx
  · exact isFactor_pow hx (beq_zero_one_div_ofInt (by omega) (by omega))

/-- A rational power other than the zeroth is usable as a factor only if its base is. -/
theorem isFactor_of_raise {s : Float} {p : Exponent} (hp : p ≠ 0) (h : raise x p = .ok s)
    (hs : isFactor s = true) : isFactor x = true := by
  have hnum : p.value.num ≠ 0 := by
    intro h0
    exact hp (Exponent.ext (Rat.num_eq_zero.mp h0))
  have hnumWord := p.num_inWord
  have hdenWord := p.den_inWord
  have hden := p.value.den_nz
  unfold InWord at hnumWord hdenWord
  cases hx : isFactor x with
  | true => rfl
  | false =>
    have hfalse : isFactor s = false := by
      unfold raise at h
      split at h
      · cases h
      · split at h
        · cases h
          exact isFactor_powInt hx hnum (by omega)
        · split at h
          · cases h
          · cases h
            exact isFactor_powInt (isFactor_root hx hden (by omega)) hnum (by omega)
    rw [hs] at hfalse
    cases hfalse

end Metrology.Scalar
