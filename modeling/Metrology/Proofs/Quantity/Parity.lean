import Metrology.Proofs.Scalar.Parity
import Metrology.Proofs.UnitOfMeasure.Built

/-!
# Parity of powers

Integer powers of negative numbers are negative when the exponent is odd and below `2 ^ 53` in magnitude
(`Scalar.isNegative_raise`), and so are those of negative quantities.  Powers of units of negative scale
are alike as far as their scale is the one that was computed (`UnitOfMeasure.less_zero_power`); a power
whose factors come down to an atom has the scale of that atom instead, which can be positive
(`UnitOfMeasure.exists_positive_cube`).  From `2 ^ 53` on the powers to odd exponents are those to even
ones (`Quantity.exists_parity_lost`).
-/

namespace Metrology

open Binary64 Result

variable {x y : Float} {p : Exponent}

/-! ### Doubles -/

namespace Scalar

/-- An integer power of a defined number other than zero is defined, has the plus sign if the number
has, and with the number it is negated or not. -/
theorem raise_neg_spec (hp : p.isInteger = true) (hx : (x == x) = true) (h0 : (x == 0) = false) :
    ∃ y : Float, raise x p = .ok y ∧ (y == y) = true ∧
      (isNegative x = false → isNegative y = false) ∧
      raise (-x) p = .ok (if KeepsSign p.value.num then -y else y) := by
  have hword : p.value.num.natAbs < 2 ^ 64 := by
    have := p.num_inWord
    unfold InWord at this
    omega
  obtain ⟨hdefined, hplus, hneg⟩ := powInt_spec hx h0 hword
  refine ⟨powInt x p.value.num, ?_, hdefined, hplus, ?_⟩
  · simp [raise, h0, hp]
  · simp [raise, beq_zero_neg, h0, hp, hneg]

/-- An integer power of a negative number has the sign of its base when the power keeps it. -/
theorem isNegative_raise (hp : p.isInteger = true) (hx : less x 0 = true)
    (h : raise x p = .ok y) :
    (y == y) = true ∧ (isNegative y = true ↔ KeepsSign p.value.num) := by
  have hdefined := beq_self_of_less_zero hx
  obtain ⟨hneg, h0⟩ := less_zero_iff.mp hx
  have hplus : isNegative (-x) = false := by rw [isNegative_neg hdefined, hneg, Bool.not_true]
  -- the number is the negation of one under the plus sign
  obtain ⟨z, -, hz, hzplus, hraise⟩ := raise_neg_spec hp ((beq_self_neg x).trans hdefined)
    ((beq_zero_neg x).trans h0)
  rw [Binary64.neg_neg, h] at hraise
  cases hraise
  split
  · rename_i hkeeps
    rw [beq_self_neg, isNegative_neg hz, hzplus hplus]
    exact ⟨hz, iff_of_true rfl hkeeps⟩
  · rename_i hkeeps
    rw [hzplus hplus]
    exact ⟨hz, iff_of_false Bool.false_ne_true hkeeps⟩

theorem less_zero_raise (hp : p.isInteger = true) (hx : less x 0 = true) (h : raise x p = .ok y)
    (hy : isFactor y = true) : less y 0 = true ↔ KeepsSign p.value.num := by
  have h0 : (y == 0) = false := by simpa using (Bool.and_eq_true_iff.mp hy).1
  rw [less_zero_iff, (isNegative_raise hp hx h).2]
  exact and_iff_left h0

end Scalar

/-! ### Units -/

namespace UnitOfMeasure

/-- The sign of a power of a unit of negative scale, unless the power is an atom of the record. -/
theorem less_zero_power (hp : p.isInteger = true) {u w : UnitOfMeasure Float}
    (hu : Scalar.less u.scale 0 = true) (h : u.power p = .ok w) :
    (Scalar.less w.scale 0 = true ↔ Scalar.KeepsSign p.value.num) ∨
      p ≠ 1 ∧ ∃ f ∈ u.factors, w = atom f.1 := by
  rcases power_eq_ok_iff.mp h with
    ⟨rfl, rfl⟩ | ⟨rfl, -, rfl⟩ | ⟨h1, -, -, d, raised, s, -, hr, hraise, hc⟩
  · exact .inl (iff_of_true hu (by decide))
  · exact .inl (iff_of_false (by decide +kernel) (by decide))
  · obtain ⟨hs, -, ⟨a, rfl⟩ | hw⟩ := composed_of_compose hc
    · right
      have hrecord := forall_factor_of_power (P := fun a => ∃ f ∈ u.factors, f.1 = a) h
        fun f hf => ⟨f, hf, rfl⟩
      obtain ⟨f, hf, rfl⟩ := hrecord (a, 1) (List.mem_singleton.mpr rfl)
      exact ⟨h1, f, hf, rfl⟩
    · left
      rw [hw]
      exact Scalar.less_zero_raise hp hu hraise hs

/-- A unit of negative scale whose cube is a metre.  The two cubes of `r` are one product of scale -1
and 1, so their quotient is a unit without factors of scale -1. -/
theorem exists_positive_cube :
    ∃ u w : UnitOfMeasure Float, Reachable u ∧ Scalar.less u.scale 0 = true ∧
      u.power (.ofInt8 3) = .ok w ∧ w.symbol? = some "m" ∧ (w.scale == 1) = true := by
  let m : UnitOfMeasure Float := base "m" (.of .length)
  let threeHalves : Exponent := ⟨mkRat 3 2, by decide, by decide⟩
  let run : Except (MeasureError Float) (Bool × Option String × Bool) := do
    let r ← scaled "r" m (-1)
    let cube ← r.power (.ofInt8 3)
    let square ← r.power (.ofInt8 2)
    let cube' ← square.power threeHalves
    let minus ← cube.divide cube'
    let root ← m.power .third
    let u ← minus.multiply root
    let w ← u.power (.ofInt8 3)
    return (Scalar.less u.scale 0, w.symbol?, w.scale == 1)
  have hrun : run.toOption = some (true, some "m", true) := by decide +kernel
  obtain ⟨r, hr, h⟩ := bind_eq_ok.mp (eq_ok_of_toOption hrun)
  obtain ⟨cube, hcube, h⟩ := bind_eq_ok.mp h
  obtain ⟨square, hsquare, h⟩ := bind_eq_ok.mp h
  obtain ⟨cube', hcube', h⟩ := bind_eq_ok.mp h
  obtain ⟨minus, hminus, h⟩ := bind_eq_ok.mp h
  obtain ⟨root, hroot, h⟩ := bind_eq_ok.mp h
  obtain ⟨u, hu, h⟩ := bind_eq_ok.mp h
  obtain ⟨w, hw, h⟩ := bind_eq_ok.mp h
  obtain ⟨hless, h⟩ := Prod.mk.inj (Except.ok.inj h)
  obtain ⟨hsymbol, hscale⟩ := Prod.mk.inj h
  have hreachable : Reachable r := .scaled (.base _ _) hr
  have hquotient : Reachable minus := .divide (.power hreachable trivial hcube)
    (.power (.power hreachable trivial hsquare) trivial hcube') hminus
  exact ⟨u, w, .multiply hquotient (.power (.base _ _) trivial hroot) hu, hless, hw, hsymbol,
    hscale⟩

end UnitOfMeasure

/-! ### Quantities -/

namespace Quantity

/-- **Parity.**  With a defined number other than zero an integer power is negated when the exponent is
odd and below `2 ^ 53` in magnitude, and otherwise the power stays as it is.  So it is with quantities, whose
powers are negative, if only a negative zero, in the first case and positive in the second, and with the
scales of units, unless the power is an atom of the record. -/
theorem parity_laws (hp : p.isInteger = true) :
    (∀ x : Float, (x == x) = true → (x == 0) = false →
      ∃ y : Float, Scalar.raise x p = .ok y ∧ (y == y) = true ∧
        (isNegative x = false → isNegative y = false) ∧
        Scalar.raise (-x) p = .ok (if Scalar.KeepsSign p.value.num then -y else y)) ∧
      (∀ q w : Quantity Float, Scalar.less q.value 0 = true → q.power p = .ok w →
        (w.value == w.value) = true ∧
          (isNegative w.value = true ↔ Scalar.KeepsSign p.value.num)) ∧
      ∀ u w : UnitOfMeasure Float, Scalar.less u.scale 0 = true → u.power p = .ok w →
        (Scalar.less w.scale 0 = true ↔ Scalar.KeepsSign p.value.num) ∨
          p ≠ 1 ∧ ∃ f ∈ u.factors, w = .atom f.1 := by
  refine ⟨fun x hx h0 => Scalar.raise_neg_spec hp hx h0, fun q w hq h => ?_,
    fun u w hu h => UnitOfMeasure.less_zero_power hp hu h⟩
  obtain ⟨v, -, h⟩ := bind_eq_ok.mp h
  obtain ⟨y, hy, rfl⟩ := map_eq_ok.mp h
  exact Scalar.isNegative_raise hp hq hy

/-- The cubes of -2 metres and of a metre in the opposite direction are negative. -/
theorem parity_laws_cubes :
    let p : Exponent := .ofInt8 3
    let m : UnitOfMeasure Float := .base "m" (.of .length)
    ∃ (w : Quantity Float) (r v : UnitOfMeasure Float), p.isInteger = true ∧
      (Quantity.mk (-2) m).power p = .ok w ∧ isNegative w.value = true ∧
      UnitOfMeasure.scaled "r" m (-1) = .ok r ∧ r.power p = .ok v ∧
      Scalar.less v.scale 0 = true := by
  intro p m
  have hp : p.isInteger = true := by decide
  have hkeeps : Scalar.KeepsSign p.value.num := by decide
  obtain ⟨w, hw⟩ := exists_of_isOk (x := (Quantity.mk (-2 : Float) m).power p) (by decide +kernel)
  have hrun : (((UnitOfMeasure.scaled "r" m (-1)).bind fun r =>
      (r.power p).map fun v => (Scalar.less r.scale 0, r.symbol?, v.symbol?)).toOption) =
        some (true, some "r", none) := by decide +kernel
  obtain ⟨r, hr, hrun⟩ := bind_eq_ok.mp (eq_ok_of_toOption hrun)
  obtain ⟨v, hv, hfacts⟩ := map_eq_ok.mp hrun
  obtain ⟨hless, hfacts⟩ := Prod.mk.inj hfacts
  obtain ⟨-, hnone⟩ := Prod.mk.inj hfacts
  obtain ⟨-, hquantity, hunit⟩ := parity_laws hp
  have hnegative := (hquantity _ w (by decide +kernel) hw).2.mpr hkeeps
  refine ⟨w, r, v, hp, hw, hnegative, hr, hv, ?_⟩
  rcases hunit r v hless hv with hsign | ⟨-, f, -, rfl⟩
  · exact hsign.mpr hkeeps
  · cases hnone

/-- **Parity is lost** beyond the integers that are doubles.  The double nearest to `2 ^ 53 + 1` is
`2 ^ 53`, so the power of -1 to this odd number is 1, as a number, as a quantity and as the scale of a
unit. -/
theorem exists_parity_lost :
    ∃ (p : Exponent) (w : Quantity Float) (r v : UnitOfMeasure Float),
      p.isInteger = true ∧ p.value.num = 2 ^ 53 + 1 ∧ Scalar.raise (1 : Float) p = .ok 1 ∧
      Scalar.raise (-1 : Float) p = .ok 1 ∧ ((1 : Float) == -1) = false ∧
      (number (-1)).power p = .ok w ∧ (w.value == 1) = true ∧
      UnitOfMeasure.scaled "r" (.base "m" (.of .length)) (-1) = .ok r ∧ r.power p = .ok v ∧
      (v.scale == 1) = true := by
  let p : Exponent := ⟨9007199254740993, by decide, by decide⟩
  have hquantity : (((number (-1 : Float)).power p).map (·.value == 1)).toOption = some true := by
    decide +kernel
  obtain ⟨w, hw, hvalue⟩ := map_eq_ok.mp (eq_ok_of_toOption hquantity)
  have hunit : (((UnitOfMeasure.scaled "r" (.base "m" (.of .length)) (-1 : Float)).bind fun r =>
      (r.power p).map (·.scale == 1)).toOption) = some true := by decide +kernel
  obtain ⟨r, hr, hunit⟩ := bind_eq_ok.mp (eq_ok_of_toOption hunit)
  obtain ⟨v, hv, hscale⟩ := map_eq_ok.mp hunit
  exact ⟨p, w, r, v, by decide, by decide, eq_ok_of_toOption (by decide +kernel),
    eq_ok_of_toOption (by decide +kernel), by decide +kernel, hw, hvalue, hr, hv, hscale⟩

end Quantity

end Metrology
