import Metrology.Proofs.Dimension.Storage
import Metrology.Proofs.UnitOfMeasure.Display
import Metrology.Proofs.UnitOfMeasure.Reduced

/-!
# The laws of powers

A power of a power is the power to the product of the exponents, and a product of two powers of one
unit is the power to their sum (`power_laws`).  Both sides have the exponents that the law asks for, so
all that is to be seen is that the factors come in one order.  They do, for they come in the order
that they have in the unit itself: a power keeps the atoms or, to the exponent zero, drops them all
(`atoms_of_power`), and a product whose right factors are all like one on the left drops some of those
on the left (`atoms_sublist_of_multiply`).
-/

namespace Metrology.UnitOfMeasure

open Result

variable {α : Type} [Scalar α] {powers : Exponent → Prop} {u v v' w w' : UnitOfMeasure α}
  {p q r : Exponent}

/-! ### The order of the atoms -/

theorem atoms_of_power (hu : Built powers u) (hp : p ≠ 0) (h : u.power p = .ok v) :
    v.factors.map (·.1) = u.factors.map (·.1) := by
  rcases power_eq_ok_iff.mp h with
    ⟨-, rfl⟩ | ⟨hp0, -, -⟩ | ⟨-, -, -, d, raised, s, -, hraised, -, hc⟩
  · rfl
  · exact absurd hp0 hp
  · have hreduced : Reduced raised :=
      hu.reduced.of_mapExponents? hraised (Dimension.mul?_ne_zero hp)
    rw [((compose_eq_ok_of_reduced hreduced).mp hc).2, factors_settle, atoms_of_mapExponents? hraised]

theorem factors_of_power_zero (h : u.power 0 = .ok v) : v.factors = [] := by
  rcases power_eq_ok_iff.mp h with ⟨h01, -⟩ | ⟨-, -, rfl⟩ | ⟨-, h00, -⟩
  · exact absurd h01 (by decide)
  · rfl
  · exact absurd rfl h00

theorem atoms_sublist_of_power (hu : Built powers u) (h : u.power p = .ok v) :
    (v.factors.map (·.1)).Sublist (u.factors.map (·.1)) := by
  by_cases hp : p = 0
  · subst hp
    rw [factors_of_power_zero h]
    exact List.nil_sublist _
  · rw [atoms_of_power hu hp h]

/-- The search puts no atom at the end that it finds the like of. -/
theorem atoms_of_addFactors {merged factors m : List (Atom α × Exponent)}
    (h : addFactors merged factors = .ok m)
    (hlike : ∀ f ∈ factors, ∃ a ∈ merged.map (·.1), a.isLike f.1 = true) :
    m.map (·.1) = merged.map (·.1) := by
  induction factors generalizing merged with
  | nil =>
    cases h
    rfl
  | cons f factors ih =>
    obtain ⟨m', hm', hm⟩ := bind_eq_ok.mp h
    obtain ⟨hf, hfactors⟩ := List.forall_mem_cons.mp hlike
    have hatoms : m'.map (·.1) = merged.map (·.1) := by
      rcases atoms_of_addFactor hm' with heq | ⟨-, hunlike⟩
      · exact heq
      · obtain ⟨a, ha, halike⟩ := hf
        obtain ⟨e, he, rfl⟩ := List.mem_map.mp ha
        rw [hunlike e he] at halike
        cases halike
    rw [ih hm (hatoms ▸ hfactors), hatoms]

theorem atoms_sublist_of_multiply (hu : Reduced u.factors)
    (hlike : ∀ f ∈ v.factors, ∃ a ∈ u.factors.map (·.1), a.isLike f.1 = true)
    (h : u.multiply v = .ok w) : (w.factors.map (·.1)).Sublist (u.factors.map (·.1)) := by
  obtain ⟨-, -, d, -, hc⟩ := multiply_eq_ok_iff.mp h
  obtain ⟨-, kept, hkept, rfl⟩ := compose_eq_ok_iff.mp hc
  rw [remaining_append hu] at hkept
  obtain ⟨merged, hmerged, rfl⟩ := map_eq_ok.mp hkept
  rw [factors_settle, ← atoms_of_addFactors hmerged hlike]
  exact List.filter_sublist.map _

/-- The product of two powers of a unit has no atoms but those of the unit, in their order. -/
theorem atoms_sublist_of_multiply_power (hu : Reachable u) (hv : u.power p = .ok v)
    (hv' : u.power q = .ok v') (h : v.multiply v' = .ok w) :
    (w.factors.map (·.1)).Sublist (u.factors.map (·.1)) := by
  have hsub : (v'.factors.map (·.1)).Sublist (u.factors.map (·.1)) := atoms_sublist_of_power hu hv'
  have hvr : Reachable v := .power hu trivial hv
  have hvr' : Reachable v' := .power hu trivial hv'
  by_cases hp : p = 0
  · subst hp
    obtain ⟨-, -, d, -, hc⟩ := multiply_eq_ok_iff.mp h
    rw [factors_of_power_zero hv, List.nil_append] at hc
    rwa [((compose_eq_ok_of_reduced hvr'.reduced).mp hc).2, factors_settle]
  · have hatoms : v.factors.map (·.1) = u.factors.map (·.1) := atoms_of_power hu hp hv
    rw [← hatoms]
    refine atoms_sublist_of_multiply hvr.reduced (fun f hf => ⟨f.1, ?_, Atom.isLike_refl f.1⟩) h
    rw [hatoms]
    exact hsub.mem (List.mem_map_of_mem hf)

/-! ### The laws -/

variable [LawfulScalar α]

/-- Two units whose atoms are among those of a third, in their order, have one form if their
exponents agree. -/
theorem form_eq_of_atoms_sublist (hu : Reachable u) (hw : Reachable w) (hw' : Reachable w')
    (hsub : (w.factors.map (·.1)).Sublist (u.factors.map (·.1)))
    (hsub' : (w'.factors.map (·.1)).Sublist (u.factors.map (·.1)))
    (h : SameExponents w.factors w'.factors) :
    w.dimension = w'.dimension ∧ w.factors = w'.factors ∧ w.text = w'.text := by
  have hunlike := unlike_iff_atoms.mp hu.pairwise_unlike
  have hfactors : w.factors = w'.factors :=
    eq_of_sameExponents hunlike hw.reduced hw'.reduced hsub hsub' h
  have htext : w.text = w'.text := by
    rw [text_eq_factorsText, text_eq_factorsText, hfactors]
  exact ⟨dimension_eq_of_sameExponents hw hw' h, hfactors, htext⟩

theorem sameExponents_of_power_power (hr : r.value = p.value * q.value) (hv : u.power p = .ok v)
    (hw : v.power q = .ok w) (hw' : u.power r = .ok w') : SameExponents w.factors w'.factors := by
  intro c
  rw [exponentOf_power c hw, exponentOf_power c hv, exponentOf_power c hw', hr]
  ring

theorem sameExponents_of_multiply_power (hr : r.value = p.value + q.value) (hv : u.power p = .ok v)
    (hv' : u.power q = .ok v') (hw : v.multiply v' = .ok w) (hw' : u.power r = .ok w') :
    SameExponents w.factors w'.factors := by
  intro c
  rw [exponentOf_multiply c hw, exponentOf_power c hv, exponentOf_power c hv', exponentOf_power c hw',
    hr]
  ring

/-- **The laws of powers.**  A power of a power and the power to the product of the exponents have one
dimension and the same factors in the same order, hence one text; and so have a product of two
powers and the power to the sum.  No exponent is excepted, be it zero or one or the result of the law. -/
theorem power_laws (hu : Reachable u) :
    (∀ p q r v w w', r.value = p.value * q.value → u.power p = .ok v → v.power q = .ok w →
      u.power r = .ok w' →
        w.dimension = w'.dimension ∧ w.factors = w'.factors ∧ w.text = w'.text) ∧
    (∀ p q r v v' w w', r.value = p.value + q.value → u.power p = .ok v → u.power q = .ok v' →
      v.multiply v' = .ok w → u.power r = .ok w' →
        w.dimension = w'.dimension ∧ w.factors = w'.factors ∧ w.text = w'.text) := by
  constructor
  · intro p q r v w w' hr hv hw hw'
    have hvr : Reachable v := .power hu trivial hv
    have hsub := (atoms_sublist_of_power hvr hw).trans (atoms_sublist_of_power hu hv)
    exact form_eq_of_atoms_sublist hu (.power hvr trivial hw) (.power hu trivial hw') hsub
      (atoms_sublist_of_power hu hw') (sameExponents_of_power_power hr hv hw hw')
  · intro p q r v v' w w' hr hv hv' hw hw'
    have hwr : Reachable w := .multiply (.power hu trivial hv) (.power hu trivial hv') hw
    exact form_eq_of_atoms_sublist hu hwr (.power hu trivial hw')
      (atoms_sublist_of_multiply_power hu hv hv' hw) (atoms_sublist_of_power hu hw')
      (sameExponents_of_multiply_power hr hv hv' hw hw')

/-- The metre per second is the root of its square and the product of its two roots. -/
theorem power_laws_speed :
    ∃ speed square root w w' : UnitOfMeasure Float,
      (base "m" (.of .length)).divide (base "s" (.of .time)) = .ok speed ∧
      speed.power (.ofInt8 2) = .ok square ∧ square.power .half = .ok w ∧
      speed.power .half = .ok root ∧ root.multiply root = .ok w' ∧
      speed.power 1 = .ok speed ∧
      (w.dimension = speed.dimension ∧ w.factors = speed.factors ∧ w.text = speed.text) ∧
      w'.dimension = speed.dimension ∧ w'.factors = speed.factors ∧ w'.text = speed.text := by
  let speed := (base "m" (.of .length) : UnitOfMeasure Float).divide (base "s" (.of .time))
  obtain ⟨w, hw⟩ := exists_of_isOk
    (x := speed.bind fun v => (v.power (.ofInt8 2)).bind (·.power .half)) (by decide +kernel)
  obtain ⟨w', hw'⟩ := exists_of_isOk
    (x := speed.bind fun v => (v.power .half).bind fun root => root.multiply root)
    (by decide +kernel)
  obtain ⟨v, hv, hw⟩ := bind_eq_ok.mp hw
  obtain ⟨square, hsquare, hw⟩ := bind_eq_ok.mp hw
  obtain ⟨v', hv', hw'⟩ := bind_eq_ok.mp hw'
  cases hv.symm.trans hv'
  obtain ⟨root, hroot, hw'⟩ := bind_eq_ok.mp hw'
  have hvr : Reachable v := .divide (.base _ _) (.base _ _) hv
  have hfirst : v.power 1 = .ok v := power_eq_ok_iff.mpr (.inl ⟨rfl, rfl⟩)
  have hproduct : (1 : Exponent).value = (Exponent.ofInt8 2).value * Exponent.half.value := by
    decide +kernel
  have hsum : (1 : Exponent).value = Exponent.half.value + Exponent.half.value := by decide +kernel
  obtain ⟨hpower, hmultiply⟩ := power_laws hvr
  exact ⟨v, square, root, w, w', hv, hsquare, hw, hroot, hw', hfirst,
    hpower _ _ 1 square w v hproduct hsquare hw hfirst,
    hmultiply _ _ 1 root root w' v hsum hroot hroot hw' hfirst⟩

end Metrology.UnitOfMeasure
