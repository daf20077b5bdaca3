import Metrology.Proofs.Binary64.Value
import Metrology.Proofs.UnitOfMeasure.Reduced

/-!
# Multiplying by what was divided by

A quotient forgets the factors of the dividend that the divisor has too, and has factors of the
divisor that the dividend lacks.  Multiplied by the divisor it is the dividend again: every class of
like atoms has its exponent back (`sameExponents_of_multiply_divide`), so the factors are those of the
dividend but for order and likeness.  Scales are not restored, for `x / y * y` need not be `x`.  But an
atom comes back as an atom of the record, with the scale that it was defined with (`cancellation`).

It is an atom like the dividend, and not the dividend itself, that comes back.  Like atoms can differ in
the sign of an offset zero (`cancellation_negative_zero`).
-/

namespace Metrology.UnitOfMeasure

open Result

variable {α : Type} [Scalar α]

theorem sameExponents_of_multiply_divide [LawfulScalar α] {u v q w : UnitOfMeasure α}
    (hq : u.divide v = .ok q) (hw : q.multiply v = .ok w) : SameExponents u.factors w.factors := by
  intro c
  rw [exponentOf_multiply c hw, exponentOf_divide c hq, sub_add_cancel]

/-- The scales of equal units are one double if it is usable as a factor. -/
theorem scale_eq_of_beq {u v : UnitOfMeasure Float} (h : (u == v) = true)
    (hv : Scalar.isFactor v.scale = true) : u.scale = v.scale := by
  rcases Bool.or_eq_true_iff.mp h with hs | hs
  · exact (isSame_iff.mp hs).2.2.2.1
  · exact Binary64.eq_of_beq_of_isFactor (isEqualSize_iff.mp hs).2.1 hv

theorem isFactor_of_divide {u v q : UnitOfMeasure Float} (h : u.divide v = .ok q) :
    Scalar.isFactor u.scale = true := by
  obtain ⟨-, -, -, d, inverted, -, -, hc⟩ := divide_eq_ok_iff.mp h
  exact (Binary64.isFactor_of_div (composed_of_compose hc).1).1

variable {u v q w : UnitOfMeasure Float}

/-- **Cancellation.**  A unit that is divided and then multiplied by another has its dimension, its
symbol and its factors again, these but for order and likeness.  An atom comes back as an equal atom.
The two have the same scale, whatever the rounding on the way, and both are without an offset. -/
theorem cancellation (hu : Reachable u) (hv : Reachable v) (hq : u.divide v = .ok q)
    (hw : q.multiply v = .ok w) :
    w.dimension = u.dimension ∧ w.symbol? = u.symbol? ∧ SameUpToOrder u.factors w.factors ∧
      (u.symbol? ≠ none → (w == u) = true ∧ w.scale = u.scale ∧
        (w.offset == 0) = true ∧ (u.offset == 0) = true) := by
  have hwr : Reachable w := .multiply (.divide hu hv hq) hv hw
  have hexp := sameExponents_of_multiply_divide hq hw
  refine ⟨(dimension_eq_of_sameExponents hu hwr hexp).symm,
    (symbol?_eq_of_sameExponents hu hwr hexp).symm, hu.sameUpToOrder hwr hexp, fun hsymbol => ?_⟩
  have hbeq : (w == u) = true := BEq.symm (beq_of_sameExponents hu hwr hexp hsymbol)
  have hlinear : (u.offset == 0) = true := by
    simpa [isAffine] using (divide_eq_ok_iff.mp hq).1
  have hoffset : (w.offset == u.offset) = true := by
    rcases Bool.or_eq_true_iff.mp hbeq with hs | hs
    · rw [(isSame_iff.mp hs).2.2.2.2]
      exact PartialEquivBEq.trans hlinear (PartialEquivBEq.symm hlinear)
    · exact (isEqualSize_iff.mp hs).2.2
  exact ⟨hbeq, scale_eq_of_beq hbeq (isFactor_of_divide hq),
    PartialEquivBEq.trans hoffset hlinear, hlinear⟩

/-- The third of a metre, divided and multiplied by the metre per second. -/
theorem cancellation_third :
    ∃ third speed q w : UnitOfMeasure Float,
      scaled "third" (base "m" (.of .length)) (1 / 3) = .ok third ∧
      (base "m" (.of .length)).divide (base "s" (.of .time)) = .ok speed ∧
      third.divide speed = .ok q ∧ q.multiply speed = .ok w ∧
      w.dimension = third.dimension ∧ SameUpToOrder third.factors w.factors ∧
      w.symbol? = some "third" ∧ (w == third) = true ∧ w.scale = third.scale := by
  let third := scaled "third" (base "m" (.of .length) : UnitOfMeasure Float) (1 / 3)
  let speed := (base "m" (.of .length) : UnitOfMeasure Float).divide (base "s" (.of .time))
  obtain ⟨w, hrun⟩ := exists_of_isOk
    (x := third.bind fun third => speed.bind fun speed =>
      (third.divide speed).bind (·.multiply speed)) (by decide +kernel)
  obtain ⟨t, ht, hrun⟩ := bind_eq_ok.mp hrun
  obtain ⟨s, hs, hrun⟩ := bind_eq_ok.mp hrun
  obtain ⟨q, hq, hw⟩ := bind_eq_ok.mp hrun
  have htsymbol : t.symbol? = some "third" := by
    obtain ⟨-, -, rfl⟩ := scaled_eq_ok_iff.mp ht
    rfl
  have htr : Reachable t := .scaled (.base _ _) ht
  have hsr : Reachable s := .divide (.base _ _) (.base _ _) hs
  obtain ⟨hd, hsymbol, hfactors, hatom⟩ := cancellation htr hsr hq hw
  obtain ⟨hbeq, hscale, -⟩ := hatom (htsymbol ▸ Option.some_ne_none _)
  exact ⟨t, s, q, w, ht, hs, hq, hw, hd, hfactors, hsymbol.trans htsymbol, hbeq, hscale⟩

/-- The metre, divided and multiplied by a metre that is shifted by the negative zero: what comes back is
the shifted one. -/
theorem cancellation_negative_zero :
    ∃ shifted q w : UnitOfMeasure Float,
      affine "m" (base "m" (.of .length)) 1 (-0) = .ok shifted ∧
      (base "m" (.of .length) : UnitOfMeasure Float).divide shifted = .ok q ∧
      q.multiply shifted = .ok w ∧ (w == base "m" (.of .length)) = true ∧
      w.offset.toBits ≠ (base "m" (.of .length) : UnitOfMeasure Float).offset.toBits := by
  let m : UnitOfMeasure Float := base "m" (.of .length)
  let shifted := affine "m" m 1 (-0)
  let back := shifted.bind fun v => (m.divide v).bind (·.multiply v)
  obtain ⟨w, hrun⟩ := exists_of_isOk (x := back) (by decide +kernel)
  have hbeq : (back.map (· == m)).toOption = some true := by decide +kernel
  have hoffset : (back.map fun w => decide (w.offset.toBits ≠ m.offset.toBits)).toOption =
      some true := by decide +kernel
  rw [hrun] at hbeq hoffset
  obtain ⟨v, hv, hrun⟩ := bind_eq_ok.mp hrun
  obtain ⟨q, hq, hw⟩ := bind_eq_ok.mp hrun
  exact ⟨v, q, w, hv, hq, hw, Option.some.inj hbeq, of_decide_eq_true (Option.some.inj hoffset)⟩

end Metrology.UnitOfMeasure
