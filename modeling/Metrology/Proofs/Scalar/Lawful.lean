import Metrology.Proofs.Binary64.Unpacked
import Metrology.Proofs.Scalar.Exact

/-!
# Equality of scalars

What taking like atoms together asks of the equality of scalars is less than that it is the identity:
it has to be symmetric and transitive, and values that are the same have to be one value
(`LawfulScalar`).  The equality of doubles is like that, though it tells undefined numbers from
themselves and does not tell the two zeros apart (`beq_iff`), and so is that of exact scalars.
-/

namespace Metrology

/-- Scalars with an equality that is symmetric and transitive; values that are the same are one
value. -/
class LawfulScalar (α : Type) [Scalar α] : Prop extends PartialEquivBEq α where
  eq_of_same : ∀ {x y : α}, Scalar.same x y = true → x = y

/-! ### Doubles -/

namespace Binary64

open Float.Model UnpackedFloat

/-- An unpacked double without the sign of a zero. -/
def unsignedZero : UnpackedFloat → UnpackedFloat
  | .zero _ => .zero .positive
  | f => f

/-- Unpacked doubles compare equal when they are defined and differ in the sign of a zero at most. -/
theorem compare_eq_some_eq_iff {f g : UnpackedFloat} :
    f.compare g = some .eq ↔ f.isNaN = false ∧ unsignedZero f = unsignedZero g := by
  cases f with
  | notANumber => simp [UnpackedFloat.compare, UnpackedFloat.isNaN]
  | infinity s =>
    cases g with
    | infinity t =>
      cases s <;> cases t <;> simp [UnpackedFloat.compare, UnpackedFloat.isNaN, unsignedZero] <;> rfl
    | _ => cases s <;> simp [UnpackedFloat.compare, UnpackedFloat.isNaN, unsignedZero]
  | zero s =>
    cases g with
    | zero t => simp [UnpackedFloat.compare, UnpackedFloat.isNaN, unsignedZero]
    | notANumber => simp [UnpackedFloat.compare, unsignedZero]
    | infinity t => cases t <;> simp [UnpackedFloat.compare, unsignedZero]
    | finite t n k hn => cases t <;> simp [UnpackedFloat.compare, unsignedZero]
  | finite s m e hm =>
    cases g with
    | finite t n k hn =>
      have hthen : (compare e k).then (compare m n) = .eq ↔ m = n ∧ e = k := by
        rw [Ordering.then_eq_eq, compare_eq_iff_eq, compare_eq_iff_eq, and_comm]
      cases s <;> cases t <;>
        simp [UnpackedFloat.compare, UnpackedFloat.isNaN, unsignedZero, hthen]
    | notANumber => simp [UnpackedFloat.compare, unsignedZero]
    | infinity t => cases s <;> cases t <;> simp [UnpackedFloat.compare, unsignedZero]
    | zero t => cases s <;> simp [UnpackedFloat.compare, unsignedZero]

theorem beq_iff {x y : Float} : (x == y) = true ↔
    (unpacked x).isNaN = false ∧ unsignedZero (unpacked x) = unsignedZero (unpacked y) := by
  have h : (x == y) = ((unpacked x).compare (unpacked y) == some .eq) := rfl
  rw [h, beq_iff_eq, compare_eq_some_eq_iff]

theorem isNaN_eq_of_unsignedZero {f g : UnpackedFloat} (h : unsignedZero f = unsignedZero g) :
    f.isNaN = g.isNaN := by
  cases f <;> cases g <;> first | rfl | cases h

/-- Doubles are the same value when they have the same bits. -/
theorem eq_of_toBits_eq {x y : Float} (h : x.toBits = y.toBits) : x = y := by
  obtain ⟨⟨bits, valid⟩⟩ := x
  obtain ⟨⟨bits', valid'⟩⟩ := y
  cases (h : bits = bits')
  rfl

instance : LawfulScalar Float where
  symm h := by
    obtain ⟨hnan, heq⟩ := beq_iff.mp h
    exact beq_iff.mpr ⟨isNaN_eq_of_unsignedZero heq ▸ hnan, heq.symm⟩
  trans h h' := by
    obtain ⟨hnan, heq⟩ := beq_iff.mp h
    exact beq_iff.mpr ⟨hnan, heq.trans (beq_iff.mp h').2⟩
  eq_of_same h := eq_of_toBits_eq (eq_of_beq h)

end Binary64

/-! ### Exact scalars -/

open scoped Exact in
instance {K : Type} [Field K] [LinearOrder K] [IsStrictOrderedRing K] [FloorRing K]
    [RealPowers K] : LawfulScalar K where
  symm h := decide_eq_true (of_decide_eq_true h).symm
  trans h h' := decide_eq_true ((of_decide_eq_true h).trans (of_decide_eq_true h'))
  eq_of_same h := of_decide_eq_true h

end Metrology
