import Metrology.Dimension.Derived
import Metrology.Proofs.Dimension.Degree
import Metrology.Proofs.SortedEntries

/-!
# The algebra of dimensions

Products, reciprocals, quotients and powers of dimensions are exact: where they are defined their
exponents are the sums, negations, differences and multiples of those of the operands.  Two expressions
can be undefined for different reasons, so a law says that they `Agree`: they are the same if both are
defined.  The laws of an abelian group and those of powers follow from the laws of the rational vector
space of degrees (`algebra_laws`).

Adding up exponents of different bases meets no sum but those with zero.  So it is always defined, and
the entries of a dimension in any order add up to it again (`ofPairs?_of_perm`).
-/

namespace Metrology.Dimension

open SortedEntries

/-! ### Sums over different bases -/

theorem zero_add? (x : Exponent) : Exponent.add? 0 x = some x := by
  have hden : (0 : ℚ).den.lcm x.value.den = x.value.den := Nat.lcm_one_left _
  have hone : (x.value.den : ℤ) / x.value.den = 1 :=
    Int.ediv_self (Int.natCast_ne_zero.mpr x.value.den_nz)
  have hfits : Exponent.SumFits (0 : Exponent).value x.value := by
    simp only [Exponent.SumFits, Exponent.value_zero, hden, hone, Rat.num_zero, mul_zero, one_mul,
      zero_add]
    exact ⟨x.den_inWord, by decide, x.num_inWord, x.num_inWord⟩
  rw [Exponent.add?, if_pos hfits, Exponent.value_zero, zero_add, Exponent.ofRat?_value]

theorem addAt?_of_exponent_eq_zero {d : Dimension} {b : Base} (h : d.exponent b = 0)
    (x : Exponent) : d.addAt? b x = some (d.set b x) := by
  rw [addAt?, h, zero_add?, Option.map_some]

theorem exists_addAll? {d : Dimension} {pairs : List (Base × Exponent)}
    (hpairs : (pairs.map Prod.fst).Nodup) (hd : ∀ b ∈ pairs.map Prod.fst, d.exponent b = 0) :
    ∃ d', d.addAll? pairs = some d' := by
  induction pairs generalizing d with
  | nil => exact ⟨d, rfl⟩
  | cons e pairs ih =>
    rw [List.map_cons, List.nodup_cons] at hpairs
    -- the bases to come are others, so their exponents are still zero
    have hset : ∀ b ∈ pairs.map Prod.fst, (d.set e.1 e.2).exponent b = 0 := by
      intro b hb
      have hne : b ≠ e.1 := fun h => hpairs.1 (h ▸ hb)
      rw [exponent_set, if_neg hne]
      exact hd b (List.mem_cons_of_mem _ hb)
    obtain ⟨d', hd'⟩ := ih hpairs.2 hset
    refine ⟨d', ?_⟩
    rw [addAll?, addAt?_of_exponent_eq_zero (hd e.1 List.mem_cons_self)]
    exact hd'

/-- The entries of a dimension, in any order, add up to it. -/
theorem ofPairs?_of_perm {d : Dimension} {pairs : List (Base × Exponent)}
    (h : pairs.Perm d.entries) : ofPairs? pairs = some d := by
  have hnodup : (pairs.map Prod.fst).Nodup := (h.map Prod.fst).nodup_iff.mpr d.sorted.nodup
  obtain ⟨d', hd'⟩ := exists_addAll? (d := dimensionless) hnodup fun _ _ => rfl
  have hdegree : d'.degree = d.degree := by
    rw [degree_ofPairs? hd', ← degreeOf_entries d, degreeOf, degreeOf]
    exact (h.map _).sum_eq
  rw [ofPairs?, hd', degree_injective hdegree]

theorem degreeOf_apply (pairs : List (Base × Exponent)) (b : Base) :
    degreeOf pairs b = ((pairs.filter (·.1 = b)).map (·.2.value)).sum := by
  induction pairs with
  | nil => rfl
  | cons e pairs ih =>
    rw [degreeOf_cons, Pi.add_apply, ih]
    by_cases h : e.1 = b
    · subst h
      simp
    · simp [h, Ne.symm h]

/-! ### Laws -/

/-- Two results are the same if both are defined. -/
def Agree (x y : Option Dimension) : Prop :=
  ∀ d e, x = some d → y = some e → d = e

/-- Results of one degree agree. -/
theorem agree_of_degree {x y : Option Dimension} {v : Base → ℚ}
    (hx : ∀ d, x = some d → d.degree = v) (hy : ∀ e, y = some e → e.degree = v) : Agree x y :=
  fun d e hd he => degree_injective ((hx d hd).trans (hy e he).symm)

section

variable {x y : Option Dimension} {v w : Base → ℚ} {p : Exponent}

theorem degree_bind_multiply? {a : Dimension} (hy : ∀ e, y = some e → e.degree = w) :
    ∀ d, y.bind a.multiply? = some d → d.degree = a.degree + w := by
  intro d h
  obtain ⟨e, he, h⟩ := Option.bind_eq_some_iff.mp h
  rw [degree_multiply? h, hy e he]

theorem degree_bind_bind_multiply? (hx : ∀ d, x = some d → d.degree = v)
    (hy : ∀ e, y = some e → e.degree = w) :
    ∀ d, (x.bind fun a => y.bind a.multiply?) = some d → d.degree = v + w := by
  intro d h
  obtain ⟨a, ha, h⟩ := Option.bind_eq_some_iff.mp h
  rw [degree_bind_multiply? hy d h, hx a ha]

theorem degree_bind_power? (hx : ∀ d, x = some d → d.degree = v) :
    ∀ d, x.bind (·.power? p) = some d → d.degree = p.value • v := by
  intro d h
  obtain ⟨a, ha, h⟩ := Option.bind_eq_some_iff.mp h
  rw [degree_power? h, hx a ha]

theorem degree_power?_bind {a : Dimension} {o : Option Exponent} {r : ℚ}
    (ho : ∀ s, o = some s → s.value = r) :
    ∀ d, o.bind a.power? = some d → d.degree = r • a.degree := by
  intro d h
  obtain ⟨s, hs, h⟩ := Option.bind_eq_some_iff.mp h
  rw [degree_power? h, ho s hs]

end

section

variable (a b c : Dimension) (p q : Exponent)

theorem agree_multiply_comm : Agree (a.multiply? b) (b.multiply? a) :=
  agree_of_degree (fun _ => degree_multiply?) fun _ h => (degree_multiply? h).trans (add_comm _ _)

theorem agree_multiply_assoc :
    Agree ((a.multiply? b).bind (·.multiply? c)) ((b.multiply? c).bind a.multiply?) := by
  refine agree_of_degree (v := a.degree + b.degree + c.degree) ?_ ?_
  · intro d h
    obtain ⟨e, he, h⟩ := Option.bind_eq_some_iff.mp h
    rw [degree_multiply? h, degree_multiply? he]
  · intro d h
    rw [degree_bind_multiply? (fun _ => degree_multiply?) d h, add_assoc]

theorem multiply?_dimensionless : a.multiply? dimensionless = some a :=
  rfl

theorem dimensionless_multiply? : dimensionless.multiply? a = some a :=
  ofPairs?_of_perm (.refl _)

theorem agree_multiply_invert : Agree (a.invert?.bind a.multiply?) (some dimensionless) := by
  refine agree_of_degree (v := 0) ?_ ?_
  · intro d h
    rw [degree_bind_multiply? (fun _ => degree_invert?) d h, add_neg_cancel]
  · intro d h
    cases h
    exact degree_dimensionless

theorem agree_power_multiply :
    Agree ((a.multiply? b).bind (·.power? p))
      ((a.power? p).bind fun a' => (b.power? p).bind a'.multiply?) := by
  refine agree_of_degree (degree_bind_power? fun _ => degree_multiply?) ?_
  rw [smul_add]
  exact degree_bind_bind_multiply? (fun _ => degree_power?) fun _ => degree_power?

theorem agree_power_power :
    Agree ((a.power? p).bind (·.power? q)) ((p.mul? q).bind a.power?) := by
  refine agree_of_degree (degree_bind_power? fun _ => degree_power?) ?_
  rw [smul_smul, mul_comm]
  exact degree_power?_bind fun _ => Exponent.value_mul?

theorem agree_multiply_power :
    Agree ((a.power? p).bind fun a' => (a.power? q).bind a'.multiply?)
      ((p.add? q).bind a.power?) := by
  refine agree_of_degree
    (degree_bind_bind_multiply? (fun _ => degree_power?) fun _ => degree_power?) ?_
  rw [← add_smul]
  exact degree_power?_bind fun _ => Exponent.value_add?

/-- **The algebra of dimensions.**  Operations that are defined are exact on the exponent of every base,
and listed exponents of one base are summed.  So products form an abelian group, and powers distribute
over products, of dimensions as well as of exponents, and over powers, wherever both sides are
defined. -/
theorem algebra_laws :
    ((∀ d x, a.multiply? b = some d →
        (d.exponent x).value = (a.exponent x).value + (b.exponent x).value) ∧
      (∀ d x, a.invert? = some d → (d.exponent x).value = -(a.exponent x).value) ∧
      (∀ d x, a.divide? b = some d →
        (d.exponent x).value = (a.exponent x).value - (b.exponent x).value) ∧
      (∀ d x, a.power? p = some d → (d.exponent x).value = p.value * (a.exponent x).value) ∧
      ∀ pairs d x, ofPairs? pairs = some d →
        (d.exponent x).value = ((pairs.filter (·.1 = x)).map (·.2.value)).sum) ∧
    (Agree (a.multiply? b) (b.multiply? a) ∧
      Agree ((a.multiply? b).bind (·.multiply? c)) ((b.multiply? c).bind a.multiply?) ∧
      a.multiply? dimensionless = some a ∧ dimensionless.multiply? a = some a ∧
      Agree (a.invert?.bind a.multiply?) (some dimensionless)) ∧
    Agree ((a.multiply? b).bind (·.power? p))
        ((a.power? p).bind fun a' => (b.power? p).bind a'.multiply?) ∧
      Agree ((a.power? p).bind (·.power? q)) ((p.mul? q).bind a.power?) ∧
      Agree ((a.power? p).bind fun a' => (a.power? q).bind a'.multiply?)
        ((p.add? q).bind a.power?) := by
  refine ⟨⟨?_, ?_, ?_, ?_, ?_⟩, ⟨agree_multiply_comm a b, agree_multiply_assoc a b c,
    multiply?_dimensionless a, dimensionless_multiply? a, agree_multiply_invert a⟩,
    agree_power_multiply a b p, agree_power_power a p q, agree_multiply_power a p q⟩
  · exact fun d x h => congrFun (degree_multiply? h) x
  · exact fun d x h => congrFun (degree_invert? h) x
  · exact fun d x h => congrFun (degree_divide? h) x
  · exact fun d x h => congrFun (degree_power? h) x
  · exact fun pairs d x h => (congrFun (degree_ofPairs? h) x).trans (degreeOf_apply pairs x)

end

/-- The root of a velocity by an area, taken at once and factor by factor. -/
theorem algebra_laws_roots :
    ∃ d e, velocity.multiply? area = some d ∧
      (d.exponent .length).value = (velocity.exponent .length).value + (area.exponent .length).value ∧
      d.power? .half = some e ∧
      ((velocity.power? .half).bind fun v => (area.power? .half).bind v.multiply?) = some e := by
  obtain ⟨⟨hproduct, -⟩, -, hpower, -⟩ := algebra_laws velocity area dimensionless .half .third
  obtain ⟨d, hd⟩ : ∃ d, velocity.multiply? area = some d :=
    Option.isSome_iff_exists.mp (by decide +kernel)
  obtain ⟨e, he⟩ : ∃ e, (velocity.multiply? area).bind (·.power? .half) = some e :=
    Option.isSome_iff_exists.mp (by decide +kernel)
  obtain ⟨f, hf⟩ : ∃ f,
      ((velocity.power? .half).bind fun v => (area.power? .half).bind v.multiply?) = some f :=
    Option.isSome_iff_exists.mp (by decide +kernel)
  have hroot : d.power? .half = some e := by rwa [hd, Option.bind_some] at he
  refine ⟨d, e, hd, hproduct d .length hd, hroot, ?_⟩
  rw [hf, hpower e f he hf]

end Metrology.Dimension
