import Mathlib
import Metrology.UnitOfMeasure.Composition

/-!
# Doubles unpacked

Arithmetic on doubles takes the bits apart, computes with sign, mantissa and exponent, rounds, and
packs the result into bits again.  `unpacked` is a double taken apart and `repacked` what becomes of
a result that is packed and taken apart once more; so an operation on doubles is an operation on
unpacked ones, repacked (`unpacked_mul` and its like).

* `repacked_normal`, `repacked_subnormal`, `repacked_overflow`: numbers of the format come back as they
  were, and larger ones as infinities.
* `isNaN_repacked`, `isZero_repacked_roundWithAccuracy`: a number that is rounded and packed may
  overflow, but it does not become undefined, and it does not vanish unless its exponent is below
  those of the format.
* `isFactor_eq`: the doubles that are usable as factors are those that unpack to a mantissa and an
  exponent, the *regular* ones.
* `parts_eq`: the parts of a double are its unpacked form.
-/

namespace Metrology.Binary64

open Float.Model UnpackedFloat

/-- A double taken apart. -/
def unpacked (x : Float) : UnpackedFloat :=
  x.toModel.unpack

/-- The result of an operation, packed into a double and taken apart again. -/
def repacked (f : UnpackedFloat) : UnpackedFloat :=
  UnpackedFloat.unpack Format.binary64 (UnpackedFloat.pack Format.binary64 f)

/-! ### Operations -/

theorem unpacked_add (x y : Float) :
    unpacked (x + y) = repacked (UnpackedFloat.add Format.binary64 (unpacked x) (unpacked y)) := rfl

theorem unpacked_sub (x y : Float) :
    unpacked (x - y) = repacked (UnpackedFloat.sub Format.binary64 (unpacked x) (unpacked y)) := rfl

theorem unpacked_mul (x y : Float) :
    unpacked (x * y) = repacked (UnpackedFloat.mul Format.binary64 (unpacked x) (unpacked y)) := rfl

theorem sign_mul_comm (s t : Sign) : s * t = t * s := by
  cases s <;> cases t <;> rfl

theorem unpackedMul_comm (f g : UnpackedFloat) :
    UnpackedFloat.mul Format.binary64 f g = UnpackedFloat.mul Format.binary64 g f := by
  cases f <;> cases g <;>
    simp only [UnpackedFloat.mul, sign_mul_comm, Nat.mul_comm, Int.add_comm]

protected theorem mul_comm (x y : Float) : x * y = y * x := by
  have hmul : ∀ x y : Float, x * y =
      ⟨.pack (UnpackedFloat.mul Format.binary64 x.toModel.unpack y.toModel.unpack)⟩ := fun _ _ => rfl
  rw [hmul, hmul, unpackedMul_comm]

theorem unpacked_div (x y : Float) :
    unpacked (x / y) = repacked (UnpackedFloat.div Format.binary64 (unpacked x) (unpacked y)) := rfl

theorem unpacked_sqrt (x : Float) :
    unpacked x.sqrt = repacked (UnpackedFloat.sqrt Format.binary64 (unpacked x)) := rfl

@[simp]
theorem repacked_infinity (s : Sign) : repacked (.infinity s) = .infinity s := by
  cases s <;> rfl

@[simp]
theorem repacked_zero (s : Sign) : repacked (.zero s) = .zero s := by
  cases s <;> rfl

@[simp]
theorem repacked_notANumber : repacked .notANumber = .notANumber := rfl

/-! ### Kinds -/

/-- Whether an unpacked double has a mantissa and an exponent. -/
def isRegular : UnpackedFloat → Bool
  | .finite _ _ _ _ => true
  | _ => false

/-- Whether an unpacked double is a zero. -/
def isZero : UnpackedFloat → Bool
  | .zero _ => true
  | _ => false

theorem beq_zero_eq (x : Float) : (x == 0) = isZero (unpacked x) := by
  have h : (x == 0) = ((unpacked x).compare (.zero .positive) == some .eq) := rfl
  rw [h]
  cases unpacked x with
  | infinity s => cases s <;> rfl
  | notANumber => rfl
  | zero s => rfl
  | finite s m e hm => cases s <;> rfl

/-- The usable factors are the regular doubles. -/
theorem isFactor_eq (x : Float) : Scalar.isFactor x = isRegular (unpacked x) := by
  have h : Scalar.isFactor x = (!(x == 0) && (unpacked x).isFinite) := rfl
  rw [h, beq_zero_eq]
  cases unpacked x <;> rfl

theorem isNaN_unpack (b : BitVec Format.binary64.numBits) :
    (UnpackedFloat.unpack Format.binary64 b).isNaN = true ↔
      unpackExponent b = -1#_ ∧ unpackMantissa b ≠ 0#_ := by
  unfold UnpackedFloat.unpack
  simp only
  split
  · rename_i he
    split <;> simp_all [UnpackedFloat.isNaN]
  · split
    · split <;> simp_all [UnpackedFloat.isNaN]
    · simp_all [UnpackedFloat.isNaN]

theorem isZero_unpack (b : BitVec Format.binary64.numBits) :
    isZero (UnpackedFloat.unpack Format.binary64 b) = true ↔
      unpackExponent b = 0#_ ∧ unpackMantissa b = 0#_ := by
  unfold UnpackedFloat.unpack
  simp only
  split
  · rename_i he
    split <;> simp [isZero, he]
  · split
    · split <;> simp_all [isZero]
    · simp_all [isZero]

/-! ### Numbers that come back -/

/-- A number with a mantissa may overflow when it is packed, but it does not become undefined. -/
theorem isNaN_repacked_finite (s : Sign) (m : Nat) (e : Int) (hm : 0 < m) :
    (repacked (.finite s m e hm)).isNaN = false := by
  rw [← Bool.not_eq_true, repacked, isNaN_unpack]
  unfold UnpackedFloat.pack
  simp only
  split
  · simp [packedInfinity]
  · rename_i hrange
    split
    · simp only [unpackExponent_packComponents]
      rintro ⟨hones, -⟩
      have hnat := congrArg BitVec.toNat hones
      simp only [BitVec.toNat_ofNat] at hnat
      change _ = 2047 at hnat
      change ¬2048 ≤ _ at hrange
      omega
    · simp

/-- What is undefined after packing was so before. -/
theorem isNaN_repacked (f : UnpackedFloat) : (repacked f).isNaN = f.isNaN := by
  cases f with
  | infinity s => rw [repacked_infinity]
  | notANumber => rw [repacked_notANumber]
  | zero s => rw [repacked_zero]
  | finite s m e hm => exact isNaN_repacked_finite s m e hm

/-- A mantissa of 53 bits with an exponent of the format does not vanish when it is packed. -/
theorem isZero_repacked_finite (s : Sign) {m : Nat} {e : Int} (hm : 0 < m) (hlt : m < 2 ^ 53)
    (he : -1074 ≤ e) : isZero (repacked (.finite s m e hm)) = false := by
  have hbias : Format.binary64.exponentBias = 1023 := by decide
  rw [← Bool.not_eq_true, repacked, isZero_unpack]
  unfold UnpackedFloat.pack
  simp only [hbias]
  split
  · simp [packedInfinity]
  · rename_i hrange
    split
    · simp only [unpackExponent_packComponents]
      rintro ⟨hnone, -⟩
      have hnat := congrArg BitVec.toNat hnone
      simp only [BitVec.toNat_ofNat] at hnat
      change _ = 0 at hnat
      change ¬2048 ≤ _ at hrange
      omega
    · rename_i hbits
      simp only [unpackMantissa_packComponents]
      rintro ⟨-, hnone⟩
      have hnat := congrArg BitVec.toNat hnone
      simp only [BitVec.toNat_ofNat] at hnat
      change _ = 0 at hnat
      change ¬m.log2 + 1 = 53 at hbits
      have hlog : m.log2 < 53 := (Nat.log2_lt (Nat.ne_of_gt hm)).mpr hlt
      have hsub : m < 2 ^ 52 := (Nat.log2_lt (Nat.ne_of_gt hm)).mp (by omega)
      rw [Nat.mod_eq_of_lt hsub] at hnat
      omega

theorem log2_eq_of_normal {m : Nat} (hlow : 2 ^ 52 ≤ m) (hhigh : m < 2 ^ 53) : m.log2 = 52 := by
  have hm : m ≠ 0 := by omega
  have hle : 52 ≤ m.log2 := (Nat.le_log2 hm).mpr hlow
  have hlt : m.log2 < 53 := (Nat.log2_lt hm).mpr hhigh
  omega

theorem unpackSign_packComponents {spec : Format} (s : Sign) (exponent : BitVec spec.exponentBits)
    (mantissa : BitVec spec.mantissaBitsWithoutImplicit) :
    Sign.ofBitVec (unpackSign (packComponents spec s exponent mantissa)) = s := by
  have h : unpackSign (packComponents spec s exponent mantissa) = s.toBitVec := by
    ext i hi
    obtain rfl : i = 0 := by omega
    simp [unpackSign, packComponents, BitVec.getLsbD_eq_getElem, BitVec.getLsbD_append,
      BitVec.getElem_append]
  rw [h]
  cases s <;> rfl

/-- A normal number comes back as it was. -/
theorem repacked_normal (s : Sign) {m : Nat} {e : Int} (hm : 0 < m) (hlow : 2 ^ 52 ≤ m)
    (hhigh : m < 2 ^ 53) (he : -1074 ≤ e) (he' : e ≤ 971) :
    repacked (.finite s m e hm) = .finite s m e hm := by
  have hlog : m.log2 = 52 := log2_eq_of_normal hlow hhigh
  have hbias : Format.binary64.exponentBias = 1023 := by decide
  have hbits : Format.binary64.mantissaBits = 53 := by decide
  have hpack : UnpackedFloat.pack Format.binary64 (.finite s m e hm) =
      packComponents Format.binary64 s (BitVec.ofNat _ (e + 1075).toNat) (BitVec.ofNat _ m) := by
    have hexp : (e + (1023 : Nat) + (52 : Nat)).toNat = (e + 1075).toNat := by omega
    unfold UnpackedFloat.pack
    simp only [hbias, hlog, hbits, hexp]
    rw [if_neg (by omega), if_pos trivial]
  have hones : BitVec.ofNat 11 (e + 1075).toNat ≠ -1#11 := by
    rw [Ne, ← BitVec.toNat_inj, BitVec.toNat_ofNat]
    change ¬_ % 2048 = 2047
    omega
  have hnone : BitVec.ofNat 11 (e + 1075).toNat ≠ 0#11 := by
    rw [Ne, ← BitVec.toNat_inj, BitVec.toNat_ofNat]
    change ¬_ % 2048 = 0
    omega
  have hmant : (1#1 ++ BitVec.ofNat 52 m).toNat = m := by
    rw [BitVec.toNat_append, ← Nat.shiftLeft_add_eq_or_of_lt (BitVec.ofNat 52 m).isLt,
      BitVec.toNat_ofNat]
    change 0x10000000000000 + m % 0x10000000000000 = m
    omega
  have hexp :
      ((BitVec.ofNat 11 (e + 1075).toNat).toNat : Int) - ((1023 : Nat) + (52 : Nat)) = e := by
    rw [BitVec.toNat_ofNat]
    omega
  rw [repacked, hpack, UnpackedFloat.unpack]
  simp only [unpackMantissa_packComponents, unpackExponent_packComponents,
    unpackSign_packComponents, hones, hnone, hmant, if_false, hbias, hexp]

/-- A number below the normal ones comes back as it was. -/
theorem repacked_subnormal (s : Sign) {m : Nat} (hm : 0 < m) (hlt : m < 2 ^ 52) :
    repacked (.finite s m (-1074) hm) = .finite s m (-1074) hm := by
  have hlog : m.log2 < 52 := (Nat.log2_lt (Nat.ne_of_gt hm)).mpr hlt
  have hbias : Format.binary64.exponentBias = 1023 := by decide
  have hbits : Format.binary64.mantissaBits = 53 := by decide
  have hpack : UnpackedFloat.pack Format.binary64 (.finite s m (-1074) hm) =
      packComponents Format.binary64 s 0#_ (BitVec.ofNat _ m) := by
    unfold UnpackedFloat.pack
    simp only [hbias, hbits]
    rw [if_neg (by decide), if_neg (by omega)]
  have hones : (0#11 : BitVec 11) ≠ -1#11 := by decide
  have hmant : (BitVec.ofNat 52 m).toNat = m := by
    rw [BitVec.toNat_ofNat, Nat.mod_eq_of_lt hlt]
  have hsome : BitVec.ofNat 52 m ≠ 0#52 := by
    rw [Ne, ← BitVec.toNat_inj, hmant, BitVec.toNat_zero]
    omega
  rw [repacked, hpack, UnpackedFloat.unpack]
  simp only [unpackMantissa_packComponents, unpackExponent_packComponents,
    unpackSign_packComponents, hones, hsome, hmant, if_false, if_true, dite_false, hbias,
    BitVec.toNat_zero]
  rfl

/-- A number beyond the largest double is packed into an infinity. -/
theorem repacked_overflow (s : Sign) {m : Nat} {e : Int} (hm : 0 < m) (he : 971 < e) :
    repacked (.finite s m e hm) = .infinity s := by
  have hbias : Format.binary64.exponentBias = 1023 := by decide
  have hpack : UnpackedFloat.pack Format.binary64 (.finite s m e hm) =
      packedInfinity Format.binary64 s := by
    unfold UnpackedFloat.pack
    simp only [hbias]
    exact if_pos (by omega)
  rw [repacked, hpack]
  exact repacked_infinity s

/-! ### Rounding -/

theorem targetExponent_eq (t : Int) :
    Format.binary64.targetExponent t = max (t - 53) (-1074) := by
  have hmin : Format.binary64.minExponent = -1074 := by decide
  have hbits : Format.binary64.mantissaBits = 53 := by decide
  rw [Format.targetExponent, hmin, hbits]
  rfl

theorem mantissa_shiftRight (em : ExtendedMantissa) (n : Nat) :
    (em >>> n).mantissa = em.mantissa / 2 ^ n := by
  induction n with
  | zero => simp [HShiftRight.hShiftRight, Nat.repeat]
  | succ n ih =>
    have hstep : em >>> (n + 1) = (em >>> n).shiftRightOne := rfl
    rw [hstep, ExtendedMantissa.shiftRightOne, ih, Nat.div_div_eq_div_mul, Nat.pow_succ]

theorem mantissa_ofMantissaAndAccuracy (m : Nat) (a : Accuracy) :
    (ExtendedMantissa.ofMantissaAndAccuracy m a).mantissa = m := by
  cases a with
  | exact => rfl
  | inexact o => cases o <;> rfl

theorem mantissa_le_roundedMantissa (em : ExtendedMantissa) :
    em.mantissa ≤ em.roundedMantissa := by
  unfold ExtendedMantissa.roundedMantissa
  cases em.accuracy with
  | exact => exact Nat.le_refl _
  | inexact o => cases o <;> simp [Accuracy.roundToNearestEven]

/-- A mantissa that is shifted to its target exponent keeps its top bit and has 53 bits at most. -/
theorem shifted_bounds {m : Nat} {e : Int} (hm : 0 < m) (he : -1074 ≤ e) :
    let n := (Format.binary64.targetExponent (totalExponent m e) - e).toNat
    0 < m / 2 ^ n ∧ m / 2 ^ n < 2 ^ 53 ∧ -1074 ≤ e + n := by
  intro n
  have hn : n = m.log2 - 52 := by
    have ht := targetExponent_eq (totalExponent m e)
    simp only [totalExponent] at ht
    simp only [n, ht, totalExponent]
    omega
  have hlow := Nat.log2_self_le (Nat.ne_of_gt hm)
  have hhigh := @Nat.lt_log2_self m
  have hpos : 2 ^ n ≤ m := Nat.le_trans (Nat.pow_le_pow_right (by omega) (by omega)) hlow
  refine ⟨Nat.div_pos hpos (Nat.two_pow_pos n), ?_, by omega⟩
  rw [Nat.div_lt_iff_lt_mul (Nat.two_pow_pos n), ← Nat.pow_add]
  exact Nat.lt_of_lt_of_le hhigh (Nat.pow_le_pow_right (by omega) (by omega))

/-- A positive number with an exponent of the format rounds to one with a mantissa of 53 bits. -/
theorem roundWithAccuracy_eq_finite (s : Sign) {m : Nat} {e : Int} (hm : 0 < m) (he : -1074 ≤ e)
    (a : Accuracy) : ∃ m' e' hm', roundWithAccuracy Format.binary64 s m e a = .finite s m' e' hm' ∧
      m' < 2 ^ 53 ∧ -1074 ≤ e' := by
  obtain ⟨hpos, -, he₁⟩ := shifted_bounds hm he
  unfold roundWithAccuracy shiftToTargetExponent shiftToExponent
  simp only [mantissa_shiftRight, mantissa_ofMantissaAndAccuracy]
  set n := (Format.binary64.targetExponent (totalExponent m e) - e).toNat
  set em := ExtendedMantissa.ofMantissaAndAccuracy m a >>> n with hem
  have hmant : em.mantissa = m / 2 ^ n := by
    rw [hem, mantissa_shiftRight, mantissa_ofMantissaAndAccuracy]
  have hround : 0 < em.roundedMantissa := by
    have := mantissa_le_roundedMantissa em
    omega
  obtain ⟨hpos₂, hlt₂, he₂⟩ := shifted_bounds hround he₁
  rw [dif_neg (Nat.ne_of_gt hpos₂)]
  exact ⟨_, _, hpos₂, rfl, hlt₂, he₂⟩

theorem isNaN_roundWithAccuracy (s : Sign) (m : Nat) (e : Int) (a : Accuracy) :
    (roundWithAccuracy Format.binary64 s m e a).isNaN = false := by
  unfold roundWithAccuracy
  simp only
  split <;> rfl

theorem isNaN_normalize (m e : Int) (s : Sign) :
    (UnpackedFloat.normalize Format.binary64 m e s).isNaN = false := by
  unfold UnpackedFloat.normalize
  split
  · exact isNaN_roundWithAccuracy _ _ _ _
  · rfl
  · exact isNaN_roundWithAccuracy _ _ _ _

/-- A positive number with an exponent of the format does not vanish. -/
theorem isZero_repacked_roundWithAccuracy (s : Sign) {m : Nat} {e : Int} (hm : 0 < m)
    (he : -1074 ≤ e) (a : Accuracy) :
    isZero (repacked (roundWithAccuracy Format.binary64 s m e a)) = false := by
  obtain ⟨m', e', hm', heq, hlt, he'⟩ := roundWithAccuracy_eq_finite s hm he a
  rw [heq]
  exact isZero_repacked_finite s hm' hlt he'

/-! ### Parts -/

/-- Whether a sign is that of the negative numbers. -/
def isMinus : Sign → Bool
  | .negative => true
  | .positive => false

/-- The parts of an unpacked double. -/
def Parts.ofUnpacked : UnpackedFloat → Parts
  | .infinity s => .infinite (isMinus s)
  | .notANumber => .nan
  | .zero s => .finite (isMinus s) 0 (-1074)
  | .finite s m e _ => .finite (isMinus s) m e

theorem toNat_unpackExponent (b : BitVec Format.binary64.numBits) :
    (unpackExponent b).toNat = b.toNat / binade % 0x800 := by
  unfold unpackExponent
  rw [BitVec.toNat_cast, BitVec.extractLsb_toNat, Nat.shiftRight_eq_div_pow]
  rfl

theorem toNat_unpackMantissa (b : BitVec Format.binary64.numBits) :
    (unpackMantissa b).toNat = b.toNat % binade := by
  unfold unpackMantissa
  rw [BitVec.toNat_cast, BitVec.extractLsb_toNat, Nat.shiftRight_zero]
  rfl

theorem isMinus_unpackSign (b : BitVec Format.binary64.numBits) :
    isMinus (Sign.ofBitVec (unpackSign b)) = decide (signBit ≤ b.toNat) := by
  have hlt : b.toNat < 2 ^ 64 := b.isLt
  have hs : (unpackSign b).toNat = b.toNat / signBit % 2 := by
    unfold unpackSign
    rw [BitVec.toNat_cast, BitVec.extractLsb_toNat, Nat.shiftRight_eq_div_pow]
    rfl
  have hiff : unpackSign b = 0#1 ↔ b.toNat < signBit := by
    rw [← BitVec.toNat_inj, hs]
    simp only [BitVec.toNat_zero, signBit]
    omega
  unfold Sign.ofBitVec
  by_cases h : b.toNat < signBit
  · rw [if_pos (hiff.mpr h)]
    simpa [isMinus] using h
  · rw [if_neg (mt hiff.mp h)]
    simpa [isMinus] using h

/-- The parts that the bits of a double stand for. -/
def Parts.ofBits (bits : Nat) : Parts :=
  let negative := decide (signBit ≤ bits)
  let biased : Nat := bits / binade % 0x800
  let fraction : Nat := bits % binade
  if biased = 2047 then
    if fraction = 0 then .infinite negative else .nan
  else if biased = 0 then .finite negative fraction (-1074)
  else .finite negative (binade + fraction) (Int.ofNat biased - 1075)

theorem ofUnpacked_unpack (b : BitVec Format.binary64.numBits) :
    Parts.ofUnpacked (UnpackedFloat.unpack Format.binary64 b) = .ofBits b.toNat := by
  have hsign := isMinus_unpackSign b
  have hexp := toNat_unpackExponent b
  have hmant := toNat_unpackMantissa b
  have hones : unpackExponent b = -1#_ ↔ b.toNat / binade % 0x800 = 2047 := by
    rw [← BitVec.toNat_inj, hexp]
    rfl
  have hnone : unpackExponent b = 0#_ ↔ b.toNat / binade % 0x800 = 0 := by
    rw [← BitVec.toNat_inj, hexp]
    rfl
  have hzero : unpackMantissa b = 0#_ ↔ b.toNat % binade = 0 := by
    rw [← BitVec.toNat_inj, hmant]
    rfl
  have hbias : Format.binary64.exponentBias = 1023 := by decide
  have hcons (m : BitVec 52) : (1#1 ++ m).toNat = binade + m.toNat := by
    rw [BitVec.toNat_append, ← Nat.shiftLeft_add_eq_or_of_lt m.isLt]
    rfl
  symm
  unfold Parts.ofBits UnpackedFloat.unpack
  simp only [hones, hnone, hzero]
  split
  · split <;> simp [Parts.ofUnpacked, hsign]
  · split
    · split
      · rename_i h0
        simp [Parts.ofUnpacked, hsign, h0]
      · rename_i hsub hne
        simp [Parts.ofUnpacked, hsign, hmant, hexp, hsub, hbias]
    · simp only [Parts.ofUnpacked, hsign, hexp, hcons, hmant]
      congr 1

/-- The parts of a double are its unpacked form. -/
theorem parts_eq (x : Float) : parts x = .ofUnpacked (unpacked x) :=
  (ofUnpacked_unpack x.toBits.toBitVec).symm

end Metrology.Binary64
