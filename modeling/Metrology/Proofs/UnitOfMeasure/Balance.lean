import Metrology.Proofs.Dimension.Degree
import Metrology.Proofs.UnitOfMeasure.Built

/-!
# The dimension and the factors of a unit

A product keeps its dimension beside its factors, and a product that comes down to one atom takes
the dimension of that atom in place of the one that was computed.  Both ways give the same: a unit
that is defined as a product is *balanced*, its dimension is the sum of the dimensions of the
factors, each times its exponent (`Built.balanced`).  The invariant has to hold of the atoms among
the factors as well, for any of them may be the result of the next operation.

From it, the dimension of a product, a quotient or a power of reachable units is the sum, the
difference or the multiple of the dimensions of the operands: `multiply_balanced`, `divide_balanced`,
`power_balanced`.
-/

namespace Metrology.UnitOfMeasure

variable {α : Type}

/-- The degree of the dimension that the factors of a product add up to. -/
def factorDegree (factors : List (Atom α × Exponent)) : Base → ℚ :=
  total (fun a => a.dimension.degree) factors

/-- A unit that is defined as a product has the dimension that the factors add up to. -/
def Balanced (u : UnitOfMeasure α) : Prop :=
  ∀ factors, u.origin = .product factors → u.dimension.degree = factorDegree factors

theorem factorDegree_append (l r : List (Atom α × Exponent)) :
    factorDegree (l ++ r) = factorDegree l + factorDegree r :=
  total_append _ l r

theorem factorDegree_mapExponents? {f : Exponent → Option Exponent} {q : ℚ}
    (hf : ∀ x y, f x = some y → y.value = q * x.value) {l r : List (Atom α × Exponent)}
    (h : mapExponents? f l = some r) : factorDegree r = q • factorDegree l :=
  total_mapExponents? hf _ h

theorem factorDegree_apply (factors : List (Atom α × Exponent)) (b : Base) :
    factorDegree factors b =
      (factors.map fun f => f.2.value * (f.1.dimension.exponent b).value).sum := by
  induction factors with
  | nil => rfl
  | cons f factors ih =>
    rw [List.map_cons, List.sum_cons, ← ih]
    simp [factorDegree, Dimension.degree]

/-- The dimension of a balanced unit is that of its factors, be it an atom or a product. -/
theorem Balanced.degree_eq {u : UnitOfMeasure α} (h : u.Balanced) :
    u.dimension.degree = factorDegree u.factors := by
  cases u with
  | atom a => simp [factorDegree, factors, dimension]
  | product factors d s => exact h factors rfl

theorem balanced_of_origin_ne {u : UnitOfMeasure α} (h : ∀ factors, u.origin ≠ .product factors) :
    u.Balanced :=
  fun factors hf => absurd hf (h factors)

variable [Scalar α]

theorem dimension_eq_of_beq {u v : UnitOfMeasure α} (h : (u == v) = true) :
    u.dimension = v.dimension := by
  have h' : (u.isSame v || u.isEqualSize v) = true := h
  rcases Bool.or_eq_true_iff.mp h' with hs | hs
  · simp only [isSame, Bool.and_eq_true, beq_iff_eq] at hs
    exact hs.1.1.2
  · simp only [isEqualSize, Bool.and_eq_true, beq_iff_eq] at hs
    exact hs.1.1

theorem dimension_eq_of_isLike {a b : Atom α} (h : a.isLike b = true) :
    a.dimension = b.dimension :=
  dimension_eq_of_beq (u := .atom a) (v := .atom b) (Bool.and_eq_true_iff.mp h).2

theorem Merges.factorDegree_eq {l r : List (Atom α × Exponent)} (h : Merges l r) :
    factorDegree l = factorDegree r :=
  h.total_eq fun _ _ hab => congrArg Dimension.degree (dimension_eq_of_isLike hab)

/-! ### The invariant -/

/-- Composing keeps the balance, and the result has the computed dimension even when it is an atom
of the record. -/
theorem balanced_of_compose {factors : List (Atom α × Exponent)} {d : Dimension} {s : α}
    {w : UnitOfMeasure α} (h : compose factors d s = .ok w)
    (hd : d.degree = factorDegree factors) (hf : ∀ f ∈ factors, (atom f.1).Balanced) :
    w.Balanced ∧ (∀ f ∈ w.factors, (atom f.1).Balanced) ∧ w.dimension.degree = d.degree := by
  obtain ⟨-, hm, hw⟩ := composed_of_compose h
  have hfw : ∀ f ∈ w.factors, (atom f.1).Balanced :=
    hm.invariant_atom (P := fun a => (atom a).Balanced) hf
  have hdw : d.degree = factorDegree w.factors := hd.trans hm.factorDegree_eq
  rcases hw with ⟨a, rfl⟩ | hw
  · have ha : (atom a).Balanced := hfw (a, 1) (List.mem_singleton.mpr rfl)
    exact ⟨ha, hfw, ha.degree_eq.trans hdw.symm⟩
  · refine ⟨fun factors ho => ?_, hfw, by rw [hw]; rfl⟩
    rw [hw] at ho ⊢
    cases ho
    exact hdw

/-- What a unit has to satisfy for its products to be balanced: it is balanced, and so are the atoms
among its factors. -/
def FullyBalanced (u : UnitOfMeasure α) : Prop :=
  u.Balanced ∧ ∀ f ∈ u.factors, (atom f.1).Balanced

omit [Scalar α] in
theorem fullyBalanced_atom {a : Atom α} (h : (atom a).Balanced) : (atom a).FullyBalanced :=
  ⟨h, fun f hf => by cases List.mem_singleton.mp hf; exact h⟩

theorem fullyBalanced_one : (one : UnitOfMeasure α).FullyBalanced := by
  constructor
  · intro factors ho
    cases ho
    rfl
  · intro f hf
    cases hf

theorem multiply_balanced {u v w : UnitOfMeasure α} (hu : u.FullyBalanced) (hv : v.FullyBalanced)
    (h : u.multiply v = .ok w) :
    w.FullyBalanced ∧ w.dimension.degree = u.dimension.degree + v.dimension.degree := by
  obtain ⟨-, -, d, hd, hc⟩ := multiply_eq_ok_iff.mp h
  have hdeg := Dimension.degree_multiply? hd
  have hsum : d.degree = factorDegree (u.factors ++ v.factors) := by
    rw [hdeg, factorDegree_append, hu.1.degree_eq, hv.1.degree_eq]
  obtain ⟨hw, hfw, hdw⟩ := balanced_of_compose hc hsum fun f hf =>
    (List.mem_append.mp hf).elim (hu.2 f) (hv.2 f)
  exact ⟨⟨hw, hfw⟩, hdw.trans hdeg⟩

theorem divide_balanced {u v w : UnitOfMeasure α} (hu : u.FullyBalanced) (hv : v.FullyBalanced)
    (h : u.divide v = .ok w) :
    w.FullyBalanced ∧ w.dimension.degree = u.dimension.degree - v.dimension.degree := by
  obtain ⟨-, -, -, d, inverted, hd, hi, hc⟩ := divide_eq_ok_iff.mp h
  have hdeg := Dimension.degree_divide? hd
  have hinv : factorDegree inverted = (-1 : ℚ) • factorDegree v.factors :=
    factorDegree_mapExponents? (fun x y hxy => by rw [Exponent.value_neg? hxy, neg_one_mul]) hi
  have hsum : d.degree = factorDegree (u.factors ++ inverted) := by
    rw [hdeg, factorDegree_append, hinv, hu.1.degree_eq, hv.1.degree_eq, neg_one_smul,
      sub_eq_add_neg]
  have hfi := forall_atom_of_mapExponents? (P := fun a => (atom a).Balanced) hi hv.2
  obtain ⟨hw, hfw, hdw⟩ := balanced_of_compose hc hsum fun f hf =>
    (List.mem_append.mp hf).elim (hu.2 f) (hfi f)
  exact ⟨⟨hw, hfw⟩, hdw.trans hdeg⟩

theorem power_balanced {u w : UnitOfMeasure α} {p : Exponent} (hu : u.FullyBalanced)
    (h : u.power p = .ok w) :
    w.FullyBalanced ∧ w.dimension.degree = p.value • u.dimension.degree := by
  rcases power_eq_ok_iff.mp h with
    ⟨rfl, rfl⟩ | ⟨rfl, -, rfl⟩ | ⟨-, -, -, d, raised, s, hd, hr, -, hc⟩
  · exact ⟨hu, by simp⟩
  · exact ⟨fullyBalanced_one, by simp [one, dimension]⟩
  · have hdeg := Dimension.degree_power? hd
    have hraised : factorDegree raised = p.value • factorDegree u.factors :=
      factorDegree_mapExponents? (fun x y hxy => by rw [Exponent.value_mul? hxy, mul_comm]) hr
    have hsum : d.degree = factorDegree raised := by rw [hdeg, hraised, hu.1.degree_eq]
    have hfr := forall_atom_of_mapExponents? (P := fun a => (atom a).Balanced) hr hu.2
    obtain ⟨hw, hfw, hdw⟩ := balanced_of_compose hc hsum hfr
    exact ⟨⟨hw, hfw⟩, hdw.trans hdeg⟩

/-- **Balance.**  A unit that is built by the operations is balanced, whatever its history. -/
theorem Built.balanced {powers : Exponent → Prop} {u : UnitOfMeasure α} (h : Built powers u) :
    u.FullyBalanced := by
  induction h with
  | base symbol d => exact fullyBalanced_atom (balanced_of_origin_ne nofun)
  | one => exact fullyBalanced_one
  | scaled _ h =>
    obtain ⟨-, -, rfl⟩ := scaled_eq_ok_iff.mp h
    exact fullyBalanced_atom (balanced_of_origin_ne nofun)
  | prefixed _ h =>
    obtain ⟨-, rfl⟩ := prefixed_eq_ok_iff.mp h
    exact fullyBalanced_atom (balanced_of_origin_ne nofun)
  | affine _ h =>
    obtain ⟨-, -, -, rfl⟩ := affine_eq_ok_iff.mp h
    exact fullyBalanced_atom (balanced_of_origin_ne nofun)
  | withSymbol _ symbol ih => exact fullyBalanced_atom ih.1
  | @tagged u _ tag ih =>
    cases u with
    | atom a => exact fullyBalanced_atom ih.1
    | product factors d s => exact ih
  | multiply _ _ h ihu ihv => exact (multiply_balanced ihu ihv h).1
  | divide _ _ h ihu ihv => exact (divide_balanced ihu ihv h).1
  | power _ _ h ih => exact (power_balanced ih h).1

theorem Built.dimension_of_factors_nil {powers : Exponent → Prop} {u : UnitOfMeasure α}
    (h : Built powers u) (hf : u.factors = []) : u.dimension = .dimensionless := by
  refine Dimension.degree_injective ?_
  rw [h.balanced.1.degree_eq, hf]
  rfl

/-! ### The laws of dimensions -/

/-- **The dimensions of reachable units.**  A reachable unit that is defined as a product has as
exponent of every base the sum of the exponents of the factors, each times the power of the factor;
and the dimensions of products, quotients and powers of reachable units are the sums, differences
and multiples of those of the operands, be the result a new product or an atom of the operands. -/
theorem reachable_dimension_laws :
    (∀ (u : UnitOfMeasure α) (factors : List (Atom α × Exponent)), Reachable u →
      u.origin = .product factors → ∀ b, (u.dimension.exponent b).value =
        (factors.map fun f => f.2.value * (f.1.dimension.exponent b).value).sum) ∧
    (∀ u v w : UnitOfMeasure α, Reachable u → Reachable v → u.multiply v = .ok w →
      ∀ b, (w.dimension.exponent b).value =
        (u.dimension.exponent b).value + (v.dimension.exponent b).value) ∧
    (∀ u v w : UnitOfMeasure α, Reachable u → Reachable v → u.divide v = .ok w →
      ∀ b, (w.dimension.exponent b).value =
        (u.dimension.exponent b).value - (v.dimension.exponent b).value) ∧
    (∀ (u w : UnitOfMeasure α) (p : Exponent), Reachable u → u.power p = .ok w →
      ∀ b, (w.dimension.exponent b).value = p.value * (u.dimension.exponent b).value) := by
  refine ⟨?_, ?_, ?_, ?_⟩
  · intro u factors hu ho b
    rw [← factorDegree_apply, ← hu.balanced.1 factors ho]
    rfl
  · intro u v w hu hv h b
    exact congrFun (multiply_balanced hu.balanced hv.balanced h).2 b
  · intro u v w hu hv h b
    exact congrFun (divide_balanced hu.balanced hv.balanced h).2 b
  · intro u w p hu h b
    exact congrFun (power_balanced hu.balanced h).2 b

/-- Metres per second, and the metres that come back when they are multiplied by seconds. -/
theorem reachable_dimension_laws_speed :
    ∃ v w : UnitOfMeasure Float,
      (base "m" (.of .length)).divide (base "s" (.of .time)) = .ok v ∧
      v.multiply (base "s" (.of .time)) = .ok w ∧ w.symbol? = some "m" ∧
      (∃ factors, v.origin = .product factors ∧ ∀ b, (v.dimension.exponent b).value =
        (factors.map fun f => f.2.value * (f.1.dimension.exponent b).value).sum) ∧
      ∀ b, (w.dimension.exponent b).value = (v.dimension.exponent b).value +
        ((base "s" (.of .time) : UnitOfMeasure Float).dimension.exponent b).value := by
  have hm : Reachable (base "m" (.of .length) : UnitOfMeasure Float) := .base _ _
  have hs : Reachable (base "s" (.of .time) : UnitOfMeasure Float) := .base _ _
  let quotient := (base "m" (.of .length) : UnitOfMeasure Float).divide (base "s" (.of .time))
  obtain ⟨w, hvw⟩ := Result.exists_of_isOk
    (x := quotient.bind (·.multiply (base "s" (.of .time)))) (by decide +kernel)
  obtain ⟨v, hv, hw⟩ := Result.bind_eq_ok.mp hvw
  have hvs : (quotient.map symbol?).toOption = some none := by decide +kernel
  have hws : ((quotient.bind (·.multiply (base "s" (.of .time)))).map symbol?).toOption =
      some (some "m") := by decide +kernel
  rw [hv] at hvs
  rw [hvw] at hws
  have hvr : Reachable v := .divide hm hs hv
  refine ⟨v, w, hv, hw, Option.some.inj hws, ?_, ?_⟩
  · have ho : v.origin = .product v.factors := by
      cases v with
      | atom a => cases hvs
      | product factors d s => rfl
    exact ⟨_, ho, reachable_dimension_laws.1 v _ hvr ho⟩
  · exact reachable_dimension_laws.2.1 v _ w hvr hs hw

end Metrology.UnitOfMeasure
