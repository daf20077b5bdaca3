import Metrology.Proofs.Quantity.Degree
import Metrology.Proofs.UnitOfMeasure.Worth

/-!
# Arithmetic in base units

An operation on quantities computes a value and, apart from it, a unit, which may be an atom of the
record of the operands.  Whether the two fit shows in base units: over exact scalars the base value of
a sum, a difference, a product, a quotient and a power is that of the operands under the operation of
the field, and conversion does not change it (`toBaseValue_laws`).  The units have to be linear and
built with integer powers (`Linear`); their scales have any sign.

* `Linear.add`, …, `Linear.power`, `toBaseValue_of_convertTo`: one law for each operation.
* `divide_eq_divisionByZero_iff`: a quotient is refused as a division by zero exactly when the base
  value of the divisor is zero.
* `Acts.equal`: results of equal operands are equal, for an operation that acts on dimensions and on
  base values (`Acts`) does not see the units.
-/

namespace Metrology

open UnitOfMeasure Result
open scoped Exact

variable {K : Type} [Field K] [LinearOrder K] [IsStrictOrderedRing K] [FloorRing K] [RealPowers K]

theorem UnitOfMeasure.toBase_fromBase {u : UnitOfMeasure K} (h : u.scale ≠ 0) (x : K) :
    u.toBase (u.fromBase x) = x := by
  change u.scale * ((x - u.offset) / u.scale) + u.offset = x
  rw [mul_div_cancel₀ _ h, sub_add_cancel]

namespace Quantity

/-- A quantity in a linear unit that is built with integer powers. -/
structure Linear (p : Quantity K) : Prop where
  built : IntegrallyBuilt p.unit
  linear : p.unit.isAffine = false

/-- Over exact scalars quantities are equal when they have one dimension and one base value. -/
theorem beq_iff {p q : Quantity K} :
    (p == q) = true ↔ p.dimension = q.dimension ∧ p.toBaseValue = q.toBaseValue := by
  change (p.dimension == q.dimension && decide (p.toBaseValue = q.toBaseValue)) = true ↔ _
  rw [Bool.and_eq_true, beq_iff_eq, decide_eq_true_iff]

variable {p q r : Quantity K}

namespace Linear

theorem toBaseValue_eq (hp : p.Linear) : p.toBaseValue = p.unit.scale * p.value := by
  have ho : p.unit.offset = 0 := isAffine_eq_false_iff.mp hp.linear
  change p.unit.scale * p.value + p.unit.offset = _
  rw [ho, add_zero]

theorem scale_ne_zero (hp : p.Linear) : p.unit.scale ≠ 0 :=
  hp.built.scale_ne_zero

/-- A value in the unit of a linear quantity is worth its multiple of the scale. -/
theorem toBaseValue_withValue (hp : p.Linear) (value : K) :
    (p.withValue value).toBaseValue = p.unit.scale * value :=
  toBaseValue_eq (p := p.withValue value) ⟨hp.built, hp.linear⟩

/-- The second operand, taken to the unit of the first, keeps its base value. -/
theorem scale_mul_of_valueOf (hp : p.Linear) {v : K} (h : p.valueOf q = .ok v) :
    p.unit.scale * v = q.toBaseValue := by
  obtain ⟨-, rfl⟩ := valueOf_eq_ok_iff.mp h
  rw [← hp.toBaseValue_withValue]
  exact toBase_fromBase hp.scale_ne_zero _

/-! ### The operations -/

theorem add (hp : p.Linear) (h : p.add q = .ok r) :
    r.toBaseValue = p.toBaseValue + q.toBaseValue := by
  obtain ⟨v, hv, rfl⟩ := map_eq_ok.mp h
  calc (p.withValue (p.value + v)).toBaseValue
      = p.unit.scale * (p.value + v) := hp.toBaseValue_withValue _
    _ = p.unit.scale * p.value + p.unit.scale * v := mul_add _ _ _
    _ = p.toBaseValue + q.toBaseValue := by rw [hp.toBaseValue_eq, hp.scale_mul_of_valueOf hv]

theorem subtract (hp : p.Linear) (h : p.subtract q = .ok r) :
    r.toBaseValue = p.toBaseValue - q.toBaseValue := by
  obtain ⟨v, hv, rfl⟩ := map_eq_ok.mp h
  calc (p.withValue (p.value - v)).toBaseValue
      = p.unit.scale * (p.value - v) := hp.toBaseValue_withValue _
    _ = p.unit.scale * p.value - p.unit.scale * v := mul_sub _ _ _
    _ = p.toBaseValue - q.toBaseValue := by rw [hp.toBaseValue_eq, hp.scale_mul_of_valueOf hv]

theorem multiply (hp : p.Linear) (hq : q.Linear) (h : p.multiply q = .ok r) :
    r.toBaseValue = p.toBaseValue * q.toBaseValue := by
  obtain ⟨w, hw, rfl⟩ := map_eq_ok.mp h
  have hs : w.scale = p.unit.scale * q.unit.scale :=
    (multiply_faithful hp.built.faithful hq.built.faithful hw).2
  have ho : w.offset = 0 := hp.built.offset_of_multiply hq.built hw
  rw [hp.toBaseValue_eq, hq.toBaseValue_eq]
  change w.scale * (p.value * q.value) + w.offset = _
  rw [hs, ho]
  ring

theorem divide (hp : p.Linear) (hq : q.Linear) (h : p.divide q = .ok r) :
    r.toBaseValue = p.toBaseValue / q.toBaseValue := by
  unfold Quantity.divide at h
  split at h
  · cases h
  · obtain ⟨w, hw, rfl⟩ := map_eq_ok.mp h
    have hs : w.scale = p.unit.scale / q.unit.scale :=
      (divide_faithful hp.built.faithful hq.built.faithful hw).2
    have ho : w.offset = 0 := hp.built.offset_of_divide hq.built hw
    rw [hp.toBaseValue_eq, hq.toBaseValue_eq]
    change w.scale * (p.value / q.value) + w.offset = _
    rw [hs, ho, add_zero, div_mul_div_comm]

theorem power {n : Exponent} (hp : p.Linear) (hn : n.isInteger = true) (h : p.power n = .ok r) :
    r.toBaseValue = p.toBaseValue ^ n.value.num := by
  obtain ⟨w, hw, h⟩ := bind_eq_ok.mp h
  obtain ⟨v, hv, rfl⟩ := map_eq_ok.mp h
  have hs : w.scale = p.unit.scale ^ n.value.num := (power_faithful hp.built.faithful hn hw).2
  have ho : w.offset = 0 := hp.built.offset_of_power hp.linear hw
  have hval : v = p.value ^ n.value.num := Scalar.raise_eq_zpow hn hv
  rw [hp.toBaseValue_eq]
  change w.scale * v + w.offset = _
  rw [hs, ho, hval, add_zero, mul_zpow]

end Linear

/-- Conversion keeps the base value, also from and to affine units. -/
theorem toBaseValue_of_convertTo {u : UnitOfMeasure K} (hu : u.scale ≠ 0)
    (h : p.convertTo u = .ok r) : r.toBaseValue = p.toBaseValue := by
  obtain ⟨v, hv, rfl⟩ := map_eq_ok.mp h
  obtain ⟨-, rfl⟩ := convert_eq_ok_iff.mp hv
  exact toBase_fromBase hu _

/-! ### Division by zero -/

theorem divide_eq_divisionByZero_iff (hq : q.Linear) :
    p.divide q = .error .divisionByZero ↔ q.toBaseValue = 0 := by
  have hbase : q.toBaseValue = 0 ↔ q.value = 0 := by
    rw [hq.toBaseValue_eq, mul_eq_zero, or_iff_right hq.scale_ne_zero]
  rw [hbase]
  by_cases hzero : q.value = 0
  · simp [Quantity.divide, hzero]
  · have hbeq : (q.value == 0) = false := Scalar.exact_beq_eq_false_iff.mpr hzero
    have hscale : (q.unit.scale == 0) = false :=
      Scalar.exact_beq_eq_false_iff.mpr hq.scale_ne_zero
    simp [Quantity.divide, hbeq, hzero, map_eq_error, UnitOfMeasure.divide_eq_divisionByZero_iff,
      hscale]

/-! ### Equal operands -/

theorem Linear.hasDegree (hp : p.Linear) : p.unit.HasDegree p.dimension.degree :=
  ⟨hp.built.reachable, rfl⟩

theorem beq_of_hasDegree {δ : Base → ℚ} (hp : p.unit.HasDegree δ) (hq : q.unit.HasDegree δ)
    (h : p.toBaseValue = q.toBaseValue) : (p == q) = true :=
  beq_iff.mpr ⟨Dimension.degree_injective (hp.degree_eq.trans hq.degree_eq.symm), h⟩

/-- An operation whose results have the dimension and the base value that come from those of the
operands by two given functions. -/
structure Acts (op : Quantity K → Quantity K → Except (MeasureError K) (Quantity K))
    (onDegrees : (Base → ℚ) → (Base → ℚ) → Base → ℚ) (onBaseValues : K → K → K) : Prop where
  hasDegree : ∀ {p q r : Quantity K}, p.Linear → q.Linear → op p q = .ok r →
    r.unit.HasDegree (onDegrees p.dimension.degree q.dimension.degree)
  toBaseValue_eq : ∀ {p q r : Quantity K}, p.Linear → q.Linear → op p q = .ok r →
    r.toBaseValue = onBaseValues p.toBaseValue q.toBaseValue

/-- An operation that acts on dimensions and base values gives equal results on equal operands. -/
theorem Acts.equal {op : Quantity K → Quantity K → Except (MeasureError K) (Quantity K)}
    {onDegrees : (Base → ℚ) → (Base → ℚ) → Base → ℚ} {onBaseValues : K → K → K}
    (hop : Acts op onDegrees onBaseValues) {p' q' r' : Quantity K} (hp : p.Linear) (hp' : p'.Linear)
    (hq : q.Linear) (hq' : q'.Linear) (hpp : (p == p') = true) (hqq : (q == q') = true)
    (h : op p q = .ok r) (h' : op p' q' = .ok r') : (r == r') = true := by
  obtain ⟨hpd, hpb⟩ := beq_iff.mp hpp
  obtain ⟨hqd, hqb⟩ := beq_iff.mp hqq
  have hr := hop.hasDegree hp hq h
  have hb := hop.toBaseValue_eq hp hq h
  rw [hpd, hqd] at hr
  rw [hpb, hqb] at hb
  exact beq_of_hasDegree hr (hop.hasDegree hp' hq' h')
    (hb.trans (hop.toBaseValue_eq hp' hq' h').symm)

theorem acts_add : Acts (K := K) add (fun δ _ => δ) (· + ·) where
  hasDegree hp hq h := ((joins_of_add h).hasDegree hp.hasDegree hq.hasDegree).2
  toBaseValue_eq hp _ h := hp.add h

theorem acts_subtract : Acts (K := K) subtract (fun δ _ => δ) (· - ·) where
  hasDegree hp hq h := ((joins_of_subtract h).hasDegree hp.hasDegree hq.hasDegree).2
  toBaseValue_eq hp _ h := hp.subtract h

theorem acts_multiply : Acts (K := K) multiply (· + ·) (· * ·) where
  hasDegree hp hq h := hasDegree_of_multiply hp.hasDegree hq.hasDegree h
  toBaseValue_eq hp hq h := hp.multiply hq h

theorem acts_divide : Acts (K := K) divide (· - ·) (· / ·) where
  hasDegree hp hq h := hasDegree_of_divide hp.hasDegree hq.hasDegree h
  toBaseValue_eq hp hq h := hp.divide hq h

/-- The operations on two quantities that act on dimensions and base values. -/
def binaryOperations : List (Quantity K → Quantity K → Except (MeasureError K) (Quantity K)) :=
  [add, subtract, multiply, divide]

theorem exists_acts {op : Quantity K → Quantity K → Except (MeasureError K) (Quantity K)}
    (h : op ∈ binaryOperations) : ∃ onDegrees onBaseValues, Acts op onDegrees onBaseValues := by
  simp only [binaryOperations, List.mem_cons, List.not_mem_nil, or_false] at h
  rcases h with rfl | rfl | rfl | rfl
  · exact ⟨_, _, acts_add⟩
  · exact ⟨_, _, acts_subtract⟩
  · exact ⟨_, _, acts_multiply⟩
  · exact ⟨_, _, acts_divide⟩

theorem Linear.equal_of_power {n : Exponent} {p' r' : Quantity K} (hp : p.Linear) (hp' : p'.Linear)
    (hn : n.isInteger = true) (hpp : (p == p') = true) (h : p.power n = .ok r)
    (h' : p'.power n = .ok r') : (r == r') = true := by
  obtain ⟨hd, hb⟩ := beq_iff.mp hpp
  have hr := hasDegree_of_power hp.hasDegree h
  rw [hd] at hr
  exact beq_of_hasDegree hr (hasDegree_of_power hp'.hasDegree h')
    (by rw [hp.power hn h, hp'.power hn h', hb])

/-- Conversion to different units gives equal quantities. -/
theorem equal_of_convertTo {u u' : UnitOfMeasure K} {p' r' : Quantity K} (hu : u.scale ≠ 0)
    (hu' : u'.scale ≠ 0) (hpp : (p == p') = true) (h : p.convertTo u = .ok r)
    (h' : p'.convertTo u' = .ok r') : (r == r') = true := by
  obtain ⟨hd, hb⟩ := beq_iff.mp hpp
  refine beq_iff.mpr ⟨?_, ?_⟩
  · rw [← dimension_eq_of_convertTo h, ← dimension_eq_of_convertTo h', hd]
  · rw [toBaseValue_of_convertTo hu h, toBaseValue_of_convertTo hu' h', hb]

/-! ### The laws -/

/-- **Arithmetic in base units.**  Over exact scalars the base values of quantities in linear units
that are built with integer powers obey the laws of the field: sums, differences, products, quotients,
integer powers and conversions are those of the base values, and a quotient is refused as a division
by zero exactly when the base value of the divisor is zero.  So operands can be replaced by equal
quantities in other units: the results are equal. -/
theorem toBaseValue_laws :
    (∀ p q r : Quantity K, p.Linear → q.Linear → p.add q = .ok r →
      r.toBaseValue = p.toBaseValue + q.toBaseValue) ∧
    (∀ p q r : Quantity K, p.Linear → q.Linear → p.subtract q = .ok r →
      r.toBaseValue = p.toBaseValue - q.toBaseValue) ∧
    (∀ p q r : Quantity K, p.Linear → q.Linear → p.multiply q = .ok r →
      r.toBaseValue = p.toBaseValue * q.toBaseValue) ∧
    (∀ p q r : Quantity K, p.Linear → q.Linear → p.divide q = .ok r →
      r.toBaseValue = p.toBaseValue / q.toBaseValue) ∧
    (∀ (p r : Quantity K) (n : Exponent), p.Linear → n.isInteger = true → p.power n = .ok r →
      r.toBaseValue = p.toBaseValue ^ n.value.num) ∧
    (∀ (p r : Quantity K) (u : UnitOfMeasure K), IntegrallyBuilt u → p.convertTo u = .ok r →
      r.toBaseValue = p.toBaseValue) ∧
    (∀ p q : Quantity K, q.Linear →
      (p.divide q = .error .divisionByZero ↔ q.toBaseValue = 0)) ∧
    (∀ op ∈ binaryOperations, ∀ p p' q q' r r' : Quantity K, p.Linear → p'.Linear → q.Linear →
      q'.Linear → (p == p') = true → (q == q') = true → op p q = .ok r → op p' q' = .ok r' →
      (r == r') = true) ∧
    (∀ (p p' r r' : Quantity K) (n : Exponent), p.Linear → p'.Linear → n.isInteger = true →
      (p == p') = true → p.power n = .ok r → p'.power n = .ok r' → (r == r') = true) ∧
    (∀ (p p' r r' : Quantity K) (u u' : UnitOfMeasure K), IntegrallyBuilt u → IntegrallyBuilt u' →
      (p == p') = true → p.convertTo u = .ok r → p'.convertTo u' = .ok r' → (r == r') = true) := by
  refine ⟨?_, ?_, ?_, ?_, ?_, ?_, ?_, ?_, ?_, ?_⟩
  · exact fun _ _ _ => acts_add.toBaseValue_eq
  · exact fun _ _ _ => acts_subtract.toBaseValue_eq
  · exact fun _ _ _ => acts_multiply.toBaseValue_eq
  · exact fun _ _ _ => acts_divide.toBaseValue_eq
  · exact fun _ _ _ hp hn h => hp.power hn h
  · exact fun _ _ _ hu h => toBaseValue_of_convertTo hu.scale_ne_zero h
  · exact fun _ _ hq => divide_eq_divisionByZero_iff hq
  · intro op hop p p' q q' r r' hp hp' hq hq' hpp hqq h h'
    obtain ⟨onDegrees, onBaseValues, hacts⟩ := exists_acts hop
    exact hacts.equal hp hp' hq hq' hpp hqq h h'
  · exact fun _ _ _ _ _ hp hp' hn hpp h h' => hp.equal_of_power hp' hn hpp h h'
  · exact fun _ _ _ _ _ _ hu hu' hpp h h' =>
      equal_of_convertTo hu.scale_ne_zero hu'.scale_ne_zero hpp h h'

/-- Three kilometres and five of a unit of two metres counted backwards: their sum, also with the first
in metres, their product and quotient, a negative power, a conversion, and a division by zero. -/
theorem toBaseValue_laws_lengths :
    ∃ p p' q sum sum' product quotient power converted : Quantity ℚ,
      p.Linear ∧ p'.Linear ∧ q.Linear ∧ p.unit.text = "km" ∧ p'.unit.text = "m" ∧
      q.unit.text = "r" ∧ (p == p') = true ∧
      p.add q = .ok sum ∧ sum.toBaseValue = p.toBaseValue + q.toBaseValue ∧
      p'.add q = .ok sum' ∧ (sum == sum') = true ∧
      p.multiply q = .ok product ∧ product.toBaseValue = p.toBaseValue * q.toBaseValue ∧
      p.divide q = .ok quotient ∧ quotient.toBaseValue = p.toBaseValue / q.toBaseValue ∧
      q.power (.ofInt8 (-2)) = .ok power ∧ power.toBaseValue = q.toBaseValue ^ (-2 : ℤ) ∧
      p.convertTo q.unit = .ok converted ∧ converted.toBaseValue = p.toBaseValue ∧
      p.divide (q.withValue 0) = .error .divisionByZero := by
  let m : UnitOfMeasure ℚ := base "m" (.of .length)
  let km : UnitOfMeasure ℚ :=
    atom ⟨Prefix.kilo.symbol ++ "m", .of .length, 1 * Prefix.kilo.factor, 0, .prefixed .kilo m, 0⟩
  let r : UnitOfMeasure ℚ := atom ⟨"r", .of .length, 1 * -2, 0, .scaled m (-2), 0⟩
  have hkm : prefixed .kilo m = .ok km := prefixed_eq_ok_iff.mpr ⟨by decide +kernel, rfl⟩
  have hr : scaled "r" m (-2) = .ok r :=
    scaled_eq_ok_iff.mpr ⟨by decide +kernel, by decide +kernel, rfl⟩
  let p : Quantity ℚ := ⟨3, km⟩
  let p' : Quantity ℚ := ⟨3000, m⟩
  let q : Quantity ℚ := ⟨5, r⟩
  have hp : p.Linear := ⟨.prefixed (.base _ _) hkm, by decide +kernel⟩
  have hp' : p'.Linear := ⟨.base _ _, by decide +kernel⟩
  have hq : q.Linear := ⟨.scaled (.base _ _) hr, by decide +kernel⟩
  have hpp : (p == p') = true := by decide +kernel
  have hzero : (q.withValue 0).toBaseValue = 0 := by decide +kernel
  obtain ⟨sum, hsum⟩ := exists_of_isOk (x := p.add q) (by decide +kernel)
  obtain ⟨sum', hsum'⟩ := exists_of_isOk (x := p'.add q) (by decide +kernel)
  obtain ⟨product, hproduct⟩ := exists_of_isOk (x := p.multiply q) (by decide +kernel)
  obtain ⟨quotient, hquotient⟩ := exists_of_isOk (x := p.divide q) (by decide +kernel)
  obtain ⟨power, hpower⟩ := exists_of_isOk (x := q.power (.ofInt8 (-2))) (by decide +kernel)
  obtain ⟨converted, hconverted⟩ := exists_of_isOk (x := p.convertTo r) (by decide +kernel)
  obtain ⟨hadd, -, hmul, hdiv, hpow, hconvert, hdivZero, hequal, -⟩ := toBaseValue_laws (K := ℚ)
  refine ⟨p, p', q, sum, sum', product, quotient, power, converted, hp, hp', hq, rfl, rfl, rfl, hpp,
    hsum, hadd _ _ _ hp hq hsum, hsum', ?_, hproduct, hmul _ _ _ hp hq hproduct,
    hquotient, hdiv _ _ _ hp hq hquotient, hpower, hpow _ _ _ hq (by decide) hpower,
    hconverted, hconvert _ _ _ hq.built hconverted,
    (hdivZero p (q.withValue 0) ⟨hq.built, hq.linear⟩).mpr hzero⟩
  exact hequal add (by simp [binaryOperations]) _ _ _ _ _ _ hp hp' hq hq hpp
    (by decide +kernel) hsum hsum'

end Quantity

end Metrology
