import Metrology.Proofs.Binary64.Remainder
import Metrology.Proofs.Catalog.Scale
import Metrology.Proofs.Quantity.Degree

/-!
# Conversion to the own unit

A value converts by way of base units, also when it is in the target unit already.  So what comes
back is the value after four roundings (`ownValue`), and whether a quantity equals itself depends on
them.

* `ExactAt.ownValue_beq`: a value comes back if its base value is computed without rounding, since
  then the difference and the quotient on the way back are doubles too.
* `Rising.abs_ownValue_sub_le`: a value that comes back finite is off by four roundings at most.
* `divMod_self_iff`: a quantity goes into itself once, with nothing left over, exactly when its value
  comes back.
* `own_unit_laws`: a quantity compares with itself, is subtracted from itself and is divided by
  itself as its value and the one that comes back do.  Among the units of the catalog the centimetre
  is one whose values do not all come back (`own_unit_seven_centimetres`).
-/

namespace Metrology

open Binary64 Result Float.Model UnpackedFloat

namespace UnitOfMeasure

/-- A unit of doubles with a finite offset, whose values grow with what they measure. -/
structure Rising (u : UnitOfMeasure Float) : Prop where
  scale_pos : 0 < toRat u.scale
  isFinite_offset : Scalar.isFinite u.offset = true

/-- What a value is when it comes back from base units. -/
def ownValue (u : UnitOfMeasure Float) (value : Float) : Float :=
  u.fromBase (u.toBase value)

/-- The base value is computed without rounding. -/
structure ExactAt (u : UnitOfMeasure Float) (value : Float) : Prop where
  isFinite_product : Scalar.isFinite (u.scale * value) = true
  toRat_product : toRat (u.scale * value) = toRat u.scale * toRat value
  isFinite_base : Scalar.isFinite (u.toBase value) = true
  toRat_base : toRat (u.toBase value) = toRat (u.scale * value) + toRat u.offset

variable {u : UnitOfMeasure Float} {v : Float}

theorem Rising.isFactor_scale (h : u.Rising) : Scalar.isFactor u.scale = true := by
  have hne := ne_of_gt h.scale_pos
  rwa [Ne, toRat_eq_zero_iff, Bool.not_eq_false] at hne

/-- The units of the catalog are like that (`Catalog.graded_builtin`). -/
theorem rising_of_graded (h : Graded (0 < toRat ·) u) : u.Rising :=
  ⟨h.scale, h.offset⟩

theorem Rising.isFinite_scale (h : u.Rising) : Scalar.isFinite u.scale = true :=
  (Bool.and_eq_true_iff.mp h.isFactor_scale).2

/-! ### Values that come back -/

/-- A value comes back if its base value is computed exactly: then so is the difference from the
offset, and the quotient is the value. -/
theorem ExactAt.ownValue_beq (h : u.ExactAt v) (hu : u.Rising) (hv : Scalar.isFinite v = true) :
    (u.ownValue v == v) = true := by
  have hdifference := isRounded_sub h.isFinite_base hu.isFinite_offset
  rw [h.toRat_base, add_sub_cancel_right] at hdifference
  obtain ⟨hdfinite, hd⟩ := hdifference.toRat_eq h.isFinite_product rfl
  have hquotient := isRounded_div hdfinite hu.isFactor_scale
  rw [hd, h.toRat_product, mul_div_cancel_left₀ _ (ne_of_gt hu.scale_pos)] at hquotient
  obtain ⟨hwfinite, hw⟩ := hquotient.toRat_eq hv rfl
  exact (beq_iff_toRat_eq hwfinite hv).mpr hw

/-- Nothing is rounded in a unit of scale one without an offset. -/
theorem exactAt_of_scale_one (hs : u.scale = 1) (ho : u.offset = 0)
    (hv : Scalar.isFinite v = true) : u.ExactAt v := by
  have hproduct := isRounded_mul (x := 1) rfl hv
  rw [toRat_one, one_mul] at hproduct
  obtain ⟨hfinite, hp⟩ := hproduct.toRat_eq hv rfl
  have hsum := isRounded_add (y := 0) hfinite rfl
  rw [toRat_zero, add_zero] at hsum
  obtain ⟨hbfinite, hb⟩ := hsum.toRat_eq hfinite rfl
  refine ⟨?_, ?_, ?_, ?_⟩ <;> simp only [toBase, hs, ho]
  · exact hfinite
  · rw [toRat_one, one_mul, hp]
  · exact hbfinite
  · rw [hb, toRat_zero, add_zero]

/-- A zero comes back as the positive zero: what the offset is taken from is the offset, or a zero. -/
theorem Rising.ownValue_zero (hu : u.Rising) (hv : (v == 0) = true) : u.ownValue v = 0 := by
  obtain ⟨s, hs⟩ : ∃ s, unpacked v = .zero s := by
    rw [beq_zero_eq] at hv
    cases h : unpacked v <;> simp_all [isZero]
  obtain ⟨m, e, hm, hscale⟩ := unpacked_of_toRat_pos hu.scale_pos
  have hproduct : unpacked (u.scale * v) = .zero (.positive * s) := by
    rw [unpacked_mul, hscale, hs]
    exact repacked_zero _
  have hdifference : unpacked (u.toBase v - u.offset) = .zero .positive := by
    rcases unpacked_cases hu.isFinite_offset with ⟨t, ht⟩ | ⟨t, n, k, hn, ht⟩
    · rw [unpacked_sub, toBase, unpacked_add, hproduct, ht]
      cases s <;> cases t <;> rfl
    · have hback := repacked_unpacked hu.isFinite_offset
      rw [ht] at hback
      have hbase : unpacked (u.toBase v) = .finite t n k hn := by
        rw [toBase, unpacked_add, hproduct, ht]
        exact hback
      rw [unpacked_sub, hbase, ht, UnpackedFloat.sub]
      simp [UnpackedFloat.normalize]
  refine (eq_of_unpacked_eq (x := 0) rfl ?_).symm
  rw [ownValue, fromBase, unpacked_div, hdifference, hscale]
  rfl

/-! ### Drift -/

/-- The effect of four roundings. -/
theorem abs_sub_le_of_rounded {scale offset value product base difference result least : ℚ}
    (hscale : 0 < scale) (hleast : 0 ≤ least)
    (hproduct : |product - scale * value| ≤ 2 ^ (-53 : ℤ) * |scale * value| + least)
    (hbase : |base - (product + offset)| ≤ 2 ^ (-53 : ℤ) * |product + offset| + least)
    (hdifference : |difference - (base - offset)| ≤ 2 ^ (-53 : ℤ) * |base - offset| + least)
    (hresult : |result - difference / scale| ≤ 2 ^ (-53 : ℤ) * |difference / scale| + least) :
    |result - value| ≤
      2 ^ (-51 : ℤ) * (|value| + |base| / scale) + 8 * least * (1 + 1 / scale) := by
  have hproduct' : |product| ≤ |scale * value| + |product - scale * value| := by
    have := abs_sub_abs_le_abs_sub product (scale * value)
    linarith
  have hbase' : |product + offset| ≤ |base| + |base - (product + offset)| := by
    have := abs_sub_abs_le_abs_sub (product + offset) base
    rw [abs_sub_comm] at this
    linarith
  have hdifference' : |base - offset| ≤ |base - (product + offset)| + |product| := by
    have := abs_add_le (base - (product + offset)) product
    rwa [show base - (product + offset) + product = base - offset by ring] at this
  have hresult' : |scale * result - difference| ≤ 2 ^ (-53 : ℤ) * |difference| + scale * least := by
    have hsplit : scale * result - difference = scale * (result - difference / scale) := by
      field_simp
    have habs : scale * |difference / scale| = |difference| := by
      rw [abs_div, abs_of_pos hscale]
      field_simp
    calc |scale * result - difference| = scale * |result - difference / scale| := by
          rw [hsplit, abs_mul, abs_of_pos hscale]
      _ ≤ scale * (2 ^ (-53 : ℤ) * |difference / scale| + least) := by gcongr
      _ = 2 ^ (-53 : ℤ) * |difference| + scale * least := by rw [← habs]; ring
  have hend : |difference| ≤ |base - offset| + |difference - (base - offset)| := by
    have := abs_sub_abs_le_abs_sub difference (base - offset)
    linarith
  have htotal : |scale * (result - value)| ≤ |scale * result - difference| +
      |difference - (base - offset)| + |base - (product + offset)| +
        |product - scale * value| := by
    have hsplit : scale * (result - value) = scale * result - difference +
        (difference - (base - offset)) + (base - (product + offset)) +
          (product - scale * value) := by ring
    rw [hsplit]
    refine (abs_add_le _ _).trans (add_le_add_left ?_ _)
    refine (abs_add_le _ _).trans (add_le_add_left ?_ _)
    exact abs_add_le _ _
  have hcancel : scale * (2 ^ (-51 : ℤ) * (|value| + |base| / scale) +
      8 * least * (1 + 1 / scale)) =
        2 ^ (-51 : ℤ) * (|scale * value| + |base|) + 8 * least * (scale + 1) := by
    rw [abs_mul, abs_of_pos hscale]
    field_simp
  refine le_of_mul_le_mul_left ?_ hscale
  rw [hcancel, ← abs_of_pos hscale, ← abs_mul, abs_of_pos hscale]
  have hbase0 := abs_nonneg base
  have hvalue0 := abs_nonneg (scale * value)
  have hscaled : 0 ≤ scale * least := mul_nonneg hscale.le hleast
  have h53 : (2 : ℚ) ^ (-53 : ℤ) = 1 / 9007199254740992 := by norm_num
  have h51 : (2 : ℚ) ^ (-51 : ℤ) = 1 / 2251799813685248 := by norm_num
  rw [h53] at hproduct hbase hdifference hresult'
  rw [h51]
  linarith

/-- A value that comes back without overflow is off by four roundings at most. -/
theorem Rising.abs_ownValue_sub_le (hu : u.Rising) (hv : Scalar.isFinite v = true)
    (hw : Scalar.isFinite (u.ownValue v) = true) :
    |toRat (u.ownValue v) - toRat v| ≤
      2 ^ (-51 : ℤ) * (|toRat v| + |toRat (u.toBase v)| / toRat u.scale) +
        8 * 2 ^ (-1075 : ℤ) * (1 + 1 / toRat u.scale) := by
  have hdifference : Scalar.isFinite (u.toBase v - u.offset) = true :=
    isFinite_of_div hu.isFactor_scale hw
  have hbase : Scalar.isFinite (u.toBase v) = true := isFinite_of_sub hu.isFinite_offset hdifference
  have hproduct : Scalar.isFinite (u.scale * v) = true := (isFinite_of_add hbase).1
  exact abs_sub_le_of_rounded hu.scale_pos (zpow_nonneg zero_le_two _)
    ((isRounded_mul hu.isFinite_scale hv).abs_toRat_sub_le hproduct)
    ((isRounded_add hproduct hu.isFinite_offset).abs_toRat_sub_le hbase)
    ((isRounded_sub hbase hu.isFinite_offset).abs_toRat_sub_le hdifference)
    ((isRounded_div hdifference hu.isFactor_scale).abs_toRat_sub_le hw)

end UnitOfMeasure

/-! ### Quantities -/

namespace Quantity

open UnitOfMeasure

variable {u : UnitOfMeasure Float} {v : Float}

theorem valueOf_self (p : Quantity Float) : p.valueOf p = .ok (p.unit.ownValue p.value) :=
  valueOf_eq_ok_iff.mpr ⟨rfl, rfl⟩

theorem convertTo_self (p : Quantity Float) :
    p.convertTo p.unit = .ok (p.withValue (p.unit.ownValue p.value)) :=
  map_eq_ok.mpr ⟨_, convert_eq_ok_iff.mpr ⟨rfl, rfl⟩, rfl⟩

theorem compare_self_eq_iff (p : Quantity Float) (hv : Scalar.isFinite p.value = true) :
    p.compare p = .ok .eq ↔ p.unit.ownValue p.value = p.value := by
  have hcompare : p.compare p = .ok (Scalar.totalCompare p.value (p.unit.ownValue p.value)) :=
    map_eq_ok.mpr ⟨_, valueOf_self p, rfl⟩
  rw [hcompare, Except.ok.injEq, totalCompare_eq_iff hv, eq_comm]

theorem subtract_self (p : Quantity Float) (hv : Scalar.isFinite p.value = true) :
    ∃ d, p.subtract p = .ok (p.withValue d) ∧
      ((d == 0) = true ↔ (p.unit.ownValue p.value == p.value) = true) := by
  refine ⟨_, map_eq_ok.mpr ⟨_, valueOf_self p, rfl⟩, ?_⟩
  rw [sub_beq_zero_iff hv, BEq.comm]

/-- A value other than zero goes into itself once, with nothing left over, exactly when it comes back:
no other divisor goes into it once. -/
theorem divMod_self_iff (p : Quantity Float) (hv : Scalar.isFinite p.value = true)
    (h0 : (p.value == 0) = false) :
    (∃ rest, (rest == 0) = true ∧ p.divMod p = .ok (1, p.withValue rest) ∧
      p.remainder p = .ok (p.withValue rest)) ↔ p.unit.ownValue p.value = p.value := by
  have hfactor : Scalar.isFactor p.value = true := by simp [Scalar.isFactor, h0, hv]
  constructor
  · rintro ⟨rest, hrest, hdivMod, -⟩
    obtain ⟨divisor, hdivisor, hparts⟩ := bind_eq_ok.mp hdivMod
    obtain rfl := Except.ok.inj ((valueOf_self p).symm.trans hdivisor)
    split at hparts
    · cases hparts
    · rename_i hdivisor0
      obtain ⟨hcount, hvalue⟩ := Prod.mk.inj (Except.ok.inj hparts)
      have hsame : Scalar.flooredDivMod p.value (p.unit.ownValue p.value) = (1, rest) :=
        Prod.ext hcount (congrArg Quantity.value hvalue)
      exact (eq_of_flooredDivMod hfactor (Bool.eq_false_iff.mpr hdivisor0) hrest hsame).symm
  · intro h
    obtain ⟨rest, hrest, hparts⟩ := flooredDivMod_self hfactor
    have hdivMod : p.divMod p = .ok (1, p.withValue rest) := by
      refine bind_eq_ok.mpr ⟨_, valueOf_self p, ?_⟩
      rw [h, h0, hparts]
      rfl
    exact ⟨rest, hrest, hdivMod, map_eq_ok.mpr ⟨_, hdivMod, rfl⟩⟩

/-- **Conversion to the own unit.**  A finite value of a unit of the catalog comes back from base
units as some value.  The quantity compares as equal to itself exactly when that is the value bit for
bit, taken from itself it leaves zero exactly when that equals the value, and unless it is zero it
goes into itself once with nothing left over exactly when, again, that is the value: for values other
than zero the three say the same.  A zero comes back as the positive zero.
The value comes back if its base value is computed without rounding, as it always is in a unit of
scale one without an offset; otherwise it is off by four roundings at most, or lost to overflow. -/
theorem own_unit_laws {name : String} (hu : Registry.builtin.get? name = some u)
    (hv : Scalar.isFinite v = true) :
    ∃ w, Quantity.convertTo ⟨v, u⟩ u = .ok ⟨w, u⟩ ∧
      (Quantity.compare ⟨v, u⟩ ⟨v, u⟩ = .ok .eq ↔ w = v) ∧
      (∃ d, Quantity.subtract ⟨v, u⟩ ⟨v, u⟩ = .ok ⟨d, u⟩ ∧
        ((d == 0) = true ↔ (w == v) = true)) ∧
      ((v == 0) = false → ((w == v) = true ↔ w = v) ∧
        ((∃ rest, (rest == 0) = true ∧ Quantity.divMod ⟨v, u⟩ ⟨v, u⟩ = .ok (1, ⟨rest, u⟩) ∧
          Quantity.remainder ⟨v, u⟩ ⟨v, u⟩ = .ok ⟨rest, u⟩) ↔ w = v)) ∧
      ((v == 0) = true → w = 0) ∧
      (u.ExactAt v → (w == v) = true) ∧
      (u.scale = 1 → u.offset = 0 → (w == v) = true) ∧
      (Scalar.isFinite w = true → |toRat w - toRat v| ≤
        2 ^ (-51 : ℤ) * (|toRat v| + |toRat (u.toBase v)| / toRat u.scale) +
          8 * 2 ^ (-1075 : ℤ) * (1 + 1 / toRat u.scale)) := by
  have hrising : u.Rising := rising_of_graded (Catalog.graded_builtin hu)
  refine ⟨u.ownValue v, convertTo_self ⟨v, u⟩, compare_self_eq_iff ⟨v, u⟩ hv,
    subtract_self ⟨v, u⟩ hv, fun h0 => ⟨?_, divMod_self_iff ⟨v, u⟩ hv h0⟩, hrising.ownValue_zero,
    fun hexact => hexact.ownValue_beq hrising hv,
    fun hs ho => (exactAt_of_scale_one hs ho hv).ownValue_beq hrising hv,
    hrising.abs_ownValue_sub_le hv⟩
  have hfactor : Scalar.isFactor v = true := by simp [Scalar.isFactor, h0, hv]
  refine ⟨fun hback => eq_of_beq_of_isFactor hback hfactor, fun h => ?_⟩
  rw [h]
  exact (beq_iff_toRat_eq hv hv).mpr rfl

theorem exists_centimetre :
    ∃ u : UnitOfMeasure Float, Registry.builtin.get? "cm" = some u ∧ u.scale = 0.01 ∧
      u.offset = 0 := by
  have hany : (Catalog.metres.get? "cm").any (fun u =>
      Scalar.same u.scale 0.01 && Scalar.same u.offset 0) = true := by decide +kernel
  obtain ⟨u, hu, hsame⟩ := (Option.any_eq_true _ _).mp hany
  obtain ⟨hs, ho⟩ := Bool.and_eq_true_iff.mp hsame
  exact ⟨u, Catalog.get?_builtin_of_metres hu, eq_of_toBits_eq (eq_of_beq hs),
    eq_of_toBits_eq (eq_of_beq ho)⟩

/-- 250 centimetres are 2.5 metres, and back they are 250 centimetres. -/
theorem own_unit_laws_centimetres :
    ∃ u : UnitOfMeasure Float, Registry.builtin.get? "cm" = some u ∧
      Quantity.convertTo ⟨250, u⟩ u = .ok ⟨250, u⟩ ∧
      Quantity.compare ⟨250, u⟩ ⟨250, u⟩ = .ok .eq ∧
      ∃ rest, (rest == 0) = true ∧ Quantity.divMod ⟨250, u⟩ ⟨250, u⟩ = .ok (1, ⟨rest, u⟩) := by
  obtain ⟨u, hu, hs, ho⟩ := exists_centimetre
  obtain ⟨w, hconvert, hcompare, -, hself, -⟩ := own_unit_laws hu (v := 250) rfl
  have hown : u.ownValue 250 = 250 := by
    rw [ownValue, fromBase, toBase, hs, ho]
    exact eq_of_toBits_eq (by decide +kernel)
  have hw : w = 250 := by
    have hvalue : Quantity.withValue ⟨250, u⟩ (u.ownValue 250) = ⟨w, u⟩ :=
      Except.ok.inj ((convertTo_self ⟨250, u⟩).symm.trans hconvert)
    exact (congrArg Quantity.value hvalue).symm.trans hown
  obtain ⟨rest, hrest, hdivMod, -⟩ := (hself rfl).2.mpr hw
  exact ⟨u, hu, hw ▸ hconvert, hcompare.mpr hw, rest, hrest, hdivMod⟩

/-- Seven centimetres are 0.07 metres after rounding, and back they are more than seven
centimetres.  So they are less than themselves, a difference is left, and they do not go into
themselves. -/
theorem own_unit_seven_centimetres :
    ∃ (u : UnitOfMeasure Float) (w : Float), Registry.builtin.get? "cm" = some u ∧
      Scalar.isFinite (7 : Float) = true ∧ Quantity.convertTo ⟨7, u⟩ u = .ok ⟨w, u⟩ ∧
      (w == 7) = false ∧ Quantity.compare ⟨7, u⟩ ⟨7, u⟩ = .ok .lt ∧
      (∃ d, Quantity.subtract ⟨7, u⟩ ⟨7, u⟩ = .ok ⟨d, u⟩ ∧ (d == 0) = false) ∧
      Quantity.divMod ⟨7, u⟩ ⟨7, u⟩ = .ok (0, ⟨7, u⟩) := by
  obtain ⟨u, hu, hs, ho⟩ := exists_centimetre
  have hown : u.ownValue 7 = 7.000000000000001 := by
    rw [ownValue, fromBase, toBase, hs, ho]
    exact eq_of_toBits_eq (by decide +kernel)
  have hvalue : Quantity.valueOf ⟨7, u⟩ ⟨7, u⟩ = .ok 7.000000000000001 :=
    (valueOf_self ⟨7, u⟩).trans (congrArg Except.ok hown)
  have hconvert : Quantity.convertTo ⟨7, u⟩ u = .ok ⟨7.000000000000001, u⟩ :=
    (convertTo_self ⟨7, u⟩).trans (by rw [hown]; rfl)
  have hlt : Scalar.totalCompare (7 : Float) 7.000000000000001 = .lt := by decide +kernel
  have hne : ((7 : Float) - 7.000000000000001 == 0) = false := by decide +kernel
  have hparts : Scalar.flooredDivMod (7 : Float) 7.000000000000001 = (0, 7) :=
    Prod.ext (eq_of_toBits_eq (by decide +kernel)) (eq_of_toBits_eq (by decide +kernel))
  refine ⟨u, _, hu, rfl, hconvert, by decide +kernel, ?_, ?_, ?_⟩
  · exact map_eq_ok.mpr ⟨_, hvalue, hlt⟩
  · exact ⟨_, map_eq_ok.mpr ⟨_, hvalue, rfl⟩, hne⟩
  · refine bind_eq_ok.mpr ⟨_, hvalue, ?_⟩
    rw [hparts]
    exact if_neg (by decide +kernel)

end Quantity

end Metrology
