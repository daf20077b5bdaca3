import Metrology.Proofs.Binary64.Remainder

/-!
# Signs of doubles

There is only one undefined double, so that a double is given by its parts (`eq_of_parts_eq`) and by its
unpacked form (`unpacked_inj`).  Negation turns the sign of either around (`unpacked_neg`, `parts_neg`),
and rounding is the same under both signs; so products and quotients are negated with their operands
(`neg_mul`, `div_neg`).

* `isNegative_mul`, `isNegative_div`: under the plus sign there are no results under the minus sign.
* `less_zero_iff`: the negative numbers are those under the minus sign but the zero.
* `ofMagnitude_not`, `ofMagnitude_spec`: what the sign does to a double that is given by its magnitude
  bits.
-/

namespace Metrology.Binary64

open Float.Model UnpackedFloat

variable {x y : Float}

/-! ### Doubles are given by their parts -/

theorem toNat_toBits_of_parts_infinite {negative : Bool} (h : parts x = .infinite negative) :
    x.toBits.toNat = (if negative then signBit else 0) + 2047 * binade := by
  have hlt : x.toBits.toNat < 2 ^ 64 := x.toBits.toNat_lt
  unfold parts binade at h
  simp only at h
  unfold binade
  generalize x.toBits.toNat = bits at *
  split_ifs at h with hbiased hfraction
  cases h
  by_cases hs : signBit ≤ bits
  · rw [if_pos (decide_eq_true hs)]
    unfold signBit at *
    omega
  · rw [if_neg (by simpa using hs)]
    unfold signBit at *
    omega

/-- There is one undefined double. -/
theorem toBits_of_isNaN (h : (unpacked x).isNaN = true) :
    x.toBits.toBitVec = packedNaN Format.binary64 := by
  obtain ⟨hones, hne⟩ := (isNaN_unpack _).mp h
  exact x.toModel.valid.eq_packedNaN hones hne

theorem eq_of_parts_eq (h : parts x = parts y) : x = y := by
  apply eq_of_toBits_eq
  cases hp : parts x with
  | nan =>
    have hnan : ∀ z : Float, parts z = .nan → (unpacked z).isNaN = true := by
      intro z hz
      rw [parts_eq] at hz
      cases hu : unpacked z <;> rw [hu] at hz <;> first | rfl | cases hz
    rw [← UInt64.toBitVec_inj, toBits_of_isNaN (hnan x hp), toBits_of_isNaN (hnan y (h ▸ hp))]
  | infinite negative =>
    rw [← UInt64.toNat_inj, toNat_toBits_of_parts_infinite hp,
      toNat_toBits_of_parts_infinite (h ▸ hp)]
  | finite negative m e =>
    rw [← UInt64.toNat_inj, toNat_toBits_of_parts hp, toNat_toBits_of_parts (h ▸ hp)]

theorem unpacked_inj (h : unpacked x = unpacked y) : x = y :=
  eq_of_parts_eq (by rw [parts_eq, parts_eq, h])

/-! ### Negation -/

theorem unpack_packComponents_neg (s : Sign) (exponent : BitVec 11) (mantissa : BitVec 52) :
    UnpackedFloat.unpack Format.binary64
        (packComponents Format.binary64 (-s) exponent mantissa) =
      (UnpackedFloat.unpack Format.binary64
        (packComponents Format.binary64 s exponent mantissa)).neg := by
  unfold UnpackedFloat.unpack
  simp only [unpackMantissa_packComponents, unpackExponent_packComponents,
    unpackSign_packComponents]
  split_ifs <;> rfl

theorem repacked_neg (f : UnpackedFloat) : repacked f.neg = (repacked f).neg := by
  cases f with
  | notANumber => rfl
  | infinity s => rw [UnpackedFloat.neg, repacked_infinity, repacked_infinity, UnpackedFloat.neg]
  | zero s => rw [UnpackedFloat.neg, repacked_zero, repacked_zero, UnpackedFloat.neg]
  | finite s m e hm =>
    rw [UnpackedFloat.neg, repacked, repacked]
    unfold UnpackedFloat.pack packedInfinity
    simp only
    split_ifs <;> exact unpack_packComponents_neg s _ _

/-- A double comes back when it is packed again. -/
theorem repacked_unpacked_self (x : Float) : repacked (unpacked x) = unpacked x := by
  cases hx : unpacked x with
  | notANumber => rfl
  | infinity s => exact repacked_infinity s
  | zero s => exact repacked_zero s
  | finite s m e hm =>
    have hfinite : Scalar.isFinite x = true := by rw [isFinite_eq, hx]; rfl
    rw [← hx]
    exact repacked_unpacked hfinite

theorem unpacked_neg (x : Float) : unpacked (-x) = (unpacked x).neg := by
  have h : unpacked (-x) = repacked (unpacked x).neg := rfl
  rw [h, repacked_neg, repacked_unpacked_self]

theorem toRat_neg (x : Float) : toRat (-x) = -toRat x := by
  rw [toRat, toRat, unpacked_neg]
  cases unpacked x with
  | finite s m e hm => simp [UnpackedFloat.neg, value, signum_neg]
  | _ => simp [UnpackedFloat.neg, value]

theorem sign_neg_neg (s : Sign) : - -s = s := by
  cases s <;> rfl

theorem sign_neg_mul (s t : Sign) : -s * t = -(s * t) := by
  cases s <;> cases t <;> rfl

theorem sign_div_neg (s t : Sign) : s / -t = -(s / t) := by
  cases s <;> cases t <;> rfl

theorem isMinus_neg (s : Sign) : isMinus (-s) = !isMinus s := by
  cases s <;> rfl

theorem unpackedNeg_neg (f : UnpackedFloat) : f.neg.neg = f := by
  cases f <;> simp only [UnpackedFloat.neg, sign_neg_neg]

protected theorem neg_neg (x : Float) : - -x = x :=
  unpacked_inj (by rw [unpacked_neg, unpacked_neg, unpackedNeg_neg])

theorem roundWithAccuracy_neg (s : Sign) (m : Nat) (e : Int) (a : Accuracy) :
    roundWithAccuracy Format.binary64 (-s) m e a =
      (roundWithAccuracy Format.binary64 s m e a).neg := by
  unfold roundWithAccuracy
  simp only
  split_ifs <;> rfl

theorem unpackedMul_neg (f g : UnpackedFloat) :
    UnpackedFloat.mul Format.binary64 f.neg g = (UnpackedFloat.mul Format.binary64 f g).neg := by
  cases f <;> cases g <;>
    simp only [UnpackedFloat.mul, UnpackedFloat.neg, sign_neg_mul, roundWithAccuracy_neg]

theorem unpackedDiv_neg (f g : UnpackedFloat) :
    UnpackedFloat.div Format.binary64 f g.neg = (UnpackedFloat.div Format.binary64 f g).neg := by
  cases f <;> cases g <;>
    simp only [UnpackedFloat.div, UnpackedFloat.neg, sign_div_neg, roundWithAccuracy_neg]

protected theorem neg_mul (x y : Float) : -x * y = -(x * y) :=
  unpacked_inj (by
    rw [unpacked_mul, unpacked_neg, unpackedMul_neg, repacked_neg, unpacked_neg, unpacked_mul])

protected theorem mul_neg (x y : Float) : x * -y = -(x * y) := by
  rw [Binary64.mul_comm, Binary64.neg_mul, Binary64.mul_comm]

protected theorem neg_mul_neg (x y : Float) : -x * -y = x * y := by
  rw [Binary64.neg_mul, Binary64.mul_neg, Binary64.neg_neg]

protected theorem div_neg (x y : Float) : x / -y = -(x / y) :=
  unpacked_inj (by
    rw [unpacked_div, unpacked_neg, unpackedDiv_neg, repacked_neg, unpacked_neg, unpacked_div])

/-! ### The sign bit -/

/-- The parts under the other sign. -/
def Parts.neg : Parts → Parts
  | .nan => .nan
  | .infinite negative => .infinite (!negative)
  | .finite negative m e => .finite (!negative) m e

theorem parts_neg (x : Float) : parts (-x) = (parts x).neg := by
  rw [parts_eq, parts_eq, unpacked_neg]
  cases unpacked x <;> simp only [UnpackedFloat.neg, Parts.ofUnpacked, Parts.neg, isMinus_neg]

/-- An unpacked double is undefined or under the plus sign. -/
def IsPlus : UnpackedFloat → Prop
  | .notANumber => True
  | .infinity s => s = .positive
  | .zero s => s = .positive
  | .finite s _ _ _ => s = .positive

theorem isNegative_eq_false_iff : isNegative x = false ↔ IsPlus (unpacked x) := by
  have hminus : ∀ s, isMinus s = false ↔ s = .positive := by
    intro s
    cases s <;> simp [isMinus]
  unfold isNegative
  rw [parts_eq]
  cases unpacked x <;> simp [Parts.ofUnpacked, IsPlus, hminus]

theorem IsPlus.repacked {f : UnpackedFloat} (h : IsPlus f) : IsPlus (repacked f) := by
  have hunpack : ∀ (exponent : BitVec 11) (mantissa : BitVec 52), IsPlus
      (UnpackedFloat.unpack Format.binary64
        (packComponents Format.binary64 .positive exponent mantissa)) := by
    intro exponent mantissa
    unfold UnpackedFloat.unpack
    simp only [unpackSign_packComponents]
    split_ifs <;> trivial
  cases f with
  | notANumber => exact h
  | infinity s => rwa [repacked_infinity]
  | zero s => rwa [repacked_zero]
  | finite s m e hm =>
    obtain rfl : s = .positive := h
    unfold Binary64.repacked UnpackedFloat.pack packedInfinity
    simp only
    split_ifs <;> exact hunpack _ _

theorem isPlus_roundWithAccuracy (m : Nat) (e : Int) (a : Accuracy) :
    IsPlus (roundWithAccuracy Format.binary64 .positive m e a) := by
  unfold roundWithAccuracy
  simp only
  split_ifs <;> rfl

/-- Products of numbers under the plus sign are under the plus sign. -/
theorem isNegative_mul (hx : isNegative x = false) (hy : isNegative y = false) :
    isNegative (x * y) = false := by
  rw [isNegative_eq_false_iff] at hx hy ⊢
  rw [unpacked_mul]
  refine IsPlus.repacked ?_
  cases hf : unpacked x <;> cases hg : unpacked y <;> rw [hf] at hx <;> rw [hg] at hy <;>
    cases hx <;> cases hy
  case finite.finite => exact isPlus_roundWithAccuracy _ _ _
  all_goals first | rfl | trivial

theorem isNegative_div (hx : isNegative x = false) (hy : isNegative y = false) :
    isNegative (x / y) = false := by
  rw [isNegative_eq_false_iff] at hx hy ⊢
  rw [unpacked_div]
  refine IsPlus.repacked ?_
  cases hf : unpacked x <;> cases hg : unpacked y <;> rw [hf] at hx <;> rw [hg] at hy <;>
    cases hx <;> cases hy
  case finite.finite => exact isPlus_roundWithAccuracy _ _ _
  all_goals first | rfl | trivial

theorem beq_self_eq_true_iff : (x == x) = true ↔ parts x ≠ .nan := by
  rw [beq_self_eq, parts_eq]
  cases unpacked x <;> simp [Parts.ofUnpacked, UnpackedFloat.isNaN]

theorem beq_self_neg (x : Float) : (-x == -x) = (x == x) := by
  rw [beq_self_eq, beq_self_eq, unpacked_neg]
  cases unpacked x <;> rfl

theorem beq_zero_neg (x : Float) : (-x == 0) = (x == 0) := by
  rw [beq_zero_eq, beq_zero_eq, unpacked_neg]
  cases unpacked x <;> rfl

theorem isNegative_neg (h : (x == x) = true) : isNegative (-x) = !isNegative x := by
  rw [beq_self_eq_true_iff] at h
  unfold isNegative
  rw [parts_neg]
  cases hp : parts x with
  | nan => exact absurd hp h
  | infinite negative => rfl
  | finite negative m e => rfl

theorem less_zero_iff : Scalar.less x 0 = true ↔ isNegative x = true ∧ (x == 0) = false := by
  have hzero : unpacked 0 = .zero .positive := rfl
  rw [less_eq, hzero, beq_zero_eq]
  unfold isNegative
  rw [parts_eq]
  cases unpacked x with
  | notANumber => simp [UnpackedFloat.compare, Parts.ofUnpacked]
  | infinity s => cases s <;> simp [UnpackedFloat.compare, Parts.ofUnpacked, isMinus, isZero]
  | zero s => cases s <;> simp [UnpackedFloat.compare, Parts.ofUnpacked, isMinus, isZero]
  | finite s m e hm =>
    cases s <;> simp [UnpackedFloat.compare, Parts.ofUnpacked, isMinus, isZero]

theorem beq_self_of_less_zero (h : Scalar.less x 0 = true) : (x == x) = true := by
  rw [beq_self_eq_true_iff]
  intro hnan
  obtain ⟨hneg, -⟩ := less_zero_iff.mp h
  rw [isNegative, hnan] at hneg
  cases hneg

/-! ### Magnitudes under a sign -/

/-- The parts of a normal number. -/
theorem parts_ofMagnitude_normal (negative : Bool) {bits : Nat} (hlow : binade ≤ bits)
    (hhigh : bits < 2047 * binade) : parts (ofMagnitude negative bits) =
      .finite negative (binade + bits % binade) ((bits / binade : Nat) - 1075) := by
  unfold binade at *
  have hparts := parts_ofMagnitude (m := 0x10000000000000 + bits % 0x10000000000000)
    (e := (bits / 0x10000000000000 : Nat) - 1075) negative (by omega) (by omega)
    (.inl (by omega)) (by omega)
  have hbits : ((bits / 0x10000000000000 : Nat) - 1075 + 1074 : Int).toNat * binade +
      (0x10000000000000 + bits % 0x10000000000000) = bits := by
    unfold binade
    omega
  rwa [hbits] at hparts

/-- Magnitude bits up to those of the infinities are one number under both signs. -/
theorem parts_ofMagnitude_cases {bits : Nat} (h : bits ≤ 2047 * binade) :
    (∀ negative, parts (ofMagnitude negative bits) = .infinite negative) ∨
      ∃ m e, ∀ negative, parts (ofMagnitude negative bits) = .finite negative m e := by
  rcases Nat.eq_or_lt_of_le h with rfl | hlt
  · left
    intro negative
    cases negative <;> decide +kernel
  right
  by_cases hlow : bits < binade
  · refine ⟨bits, -1074, fun negative => ?_⟩
    have hparts := parts_ofMagnitude (m := bits) (e := -1074) negative
      (by unfold binade at hlow; omega) le_rfl (.inr rfl) (by decide)
    simpa using hparts
  · exact ⟨_, _, fun negative => parts_ofMagnitude_normal negative (Nat.le_of_not_lt hlow) hlt⟩

theorem ofMagnitude_not {bits : Nat} (h : bits ≤ 2047 * binade) (negative : Bool) :
    ofMagnitude (!negative) bits = -ofMagnitude negative bits := by
  apply eq_of_parts_eq
  rw [parts_neg]
  rcases parts_ofMagnitude_cases h with hp | ⟨m, e, hp⟩ <;> rw [hp, hp, Parts.neg]

theorem ofMagnitude_spec {bits : Nat} (h : bits ≤ 2047 * binade) (negative : Bool) :
    (ofMagnitude negative bits == ofMagnitude negative bits) = true ∧
      isNegative (ofMagnitude negative bits) = negative := by
  rw [beq_self_eq_true_iff]
  unfold isNegative
  rcases parts_ofMagnitude_cases h with hp | ⟨m, e, hp⟩ <;> rw [hp] <;> exact ⟨nofun, rfl⟩

end Metrology.Binary64
