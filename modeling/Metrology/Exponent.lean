import Metrology.Numeral

/-!
# Exponents

An `Exponent` is a rational number in lowest terms whose numerator and denominator fit a signed
64-bit word.  The operations are exact where they are defined and undefined where the result does
not fit.  Sums are stricter than that: they are taken over the least common denominator, and every
number met on the way has to fit as well (`SumFits`), so `add?` can be undefined although the
reduced sum would fit.

* `value_add?`, `value_neg?`, `value_mul?`: a defined result is the exact one.
* `mul?_eq_none_iff`, `neg?_eq_none_iff`: products and negations fail only when the exact result
  does not fit.
* `ofText?_text`: a written exponent reads back.
-/

namespace Metrology

/-- The integers of a signed 64-bit word. -/
def InWord (n : Int) : Prop :=
  -0x8000000000000000 ≤ n ∧ n < 0x8000000000000000

instance (n : Int) : Decidable (InWord n) :=
  inferInstanceAs (Decidable (_ ∧ _))

/-- A rational number whose numerator and denominator, in lowest terms, are words. -/
structure Exponent where
  value : Rat
  num_inWord : InWord value.num
  den_inWord : InWord value.den
deriving DecidableEq

namespace Exponent

@[ext]
theorem ext {x y : Exponent} (h : x.value = y.value) : x = y := by
  cases x; cases y; simp_all

/-- The exponent of a given value, when numerator and denominator fit. -/
def ofRat? (q : Rat) : Option Exponent :=
  if h : InWord q.num ∧ InWord q.den then some ⟨q, h.1, h.2⟩ else none

/-- The exponent of a small integer. -/
def ofInt8 (n : Int8) : Exponent where
  value := n.toInt
  num_inWord := by
    have := n.le_toInt
    have := n.toInt_lt
    simp only [Rat.num_intCast, InWord]
    omega
  den_inWord := by
    simp only [Rat.den_intCast, InWord]
    decide

/-- The exponent of an integer, when it fits. -/
def ofInt? (n : Int) : Option Exponent :=
  ofRat? n

instance : Zero Exponent := ⟨ofInt8 0⟩

instance : One Exponent := ⟨ofInt8 1⟩

/-- The exponent of a square root. -/
def half : Exponent :=
  ⟨mkRat 1 2, by decide, by decide⟩

/-- The exponent of a cube root. -/
def third : Exponent :=
  ⟨mkRat 1 3, by decide, by decide⟩

/-- Whether the exponent is an integer. -/
def isInteger (x : Exponent) : Bool :=
  x.value.den == 1

/-! ### Arithmetic -/

/-- Over the least common denominator of `x` and `y`, the denominator, both numerators and their
sum are words. -/
def SumFits (x y : Rat) : Prop :=
  let d : Nat := Nat.lcm x.den y.den
  let a : Int := d / x.den * x.num
  let b : Int := d / y.den * y.num
  InWord d ∧ InWord a ∧ InWord b ∧ InWord (a + b)

instance (x y : Rat) : Decidable (SumFits x y) :=
  inferInstanceAs (Decidable (_ ∧ _))

/-- The sum, defined when it can be taken over the least common denominator within words. -/
def add? (x y : Exponent) : Option Exponent :=
  if SumFits x.value y.value then ofRat? (x.value + y.value) else none

/-- The negation, undefined only for the least word. -/
def neg? (x : Exponent) : Option Exponent :=
  ofRat? (-x.value)

/-- The product, defined whenever it fits. -/
def mul? (x y : Exponent) : Option Exponent :=
  ofRat? (x.value * y.value)

theorem value_ofRat? {q : Rat} {x : Exponent} (h : ofRat? q = some x) : x.value = q := by
  unfold ofRat? at h
  split at h
  · cases h; rfl
  · cases h

theorem ofRat?_value (x : Exponent) : ofRat? x.value = some x := by
  unfold ofRat?
  rw [dif_pos ⟨x.num_inWord, x.den_inWord⟩]

theorem ofRat?_eq_none_iff {q : Rat} : ofRat? q = none ↔ ¬(InWord q.num ∧ InWord q.den) := by
  unfold ofRat?
  split <;> simp_all

theorem value_add? {x y z : Exponent} (h : x.add? y = some z) : z.value = x.value + y.value := by
  unfold add? at h
  split at h
  · exact value_ofRat? h
  · cases h

theorem value_neg? {x y : Exponent} (h : x.neg? = some y) : y.value = -x.value :=
  value_ofRat? h

theorem value_mul? {x y z : Exponent} (h : x.mul? y = some z) : z.value = x.value * y.value :=
  value_ofRat? h

theorem neg?_eq_none_iff {x : Exponent} :
    x.neg? = none ↔ ¬(InWord (-x.value).num ∧ InWord (-x.value).den) :=
  ofRat?_eq_none_iff

theorem mul?_eq_none_iff {x y : Exponent} :
    x.mul? y = none ↔ ¬(InWord (x.value * y.value).num ∧ InWord (x.value * y.value).den) :=
  ofRat?_eq_none_iff

@[simp]
theorem value_zero : (0 : Exponent).value = 0 := rfl

@[simp]
theorem value_one : (1 : Exponent).value = 1 := rfl

/-! ### Text -/

/-- The characters of an exponent: its numerator and, unless it is an integer, a slash and its
denominator. -/
def chars (x : Exponent) : List Char :=
  if x.isInteger then Numeral.ofInt x.value.num
  else Numeral.ofInt x.value.num ++ '/' :: Numeral.ofNat x.value.den

/-- The text of an exponent. -/
def text (x : Exponent) : String :=
  String.ofList x.chars

/-- Reads a word. -/
def wordOfChars? (cs : List Char) : Option Int :=
  (Numeral.toInt? cs).filter fun n => decide (InWord n)

/-- Reads an integer, or two integers divided by the first slash; signs and common factors are
allowed in both, a denominator of zero is not. -/
def ofChars? (cs : List Char) : Option Exponent :=
  match wordOfChars? (cs.takeWhile (· != '/')), cs.dropWhile (· != '/') with
  | none, _ => none
  | some n, [] => ofInt? n
  | some n, _ :: cs =>
    match wordOfChars? cs with
    | none => none
    | some d => if d = 0 then none else ofRat? (Rat.divInt n d)

/-- Reads the text of an exponent. -/
def ofText? (s : String) : Option Exponent :=
  ofChars? s.toList

theorem wordOfChars?_ofInt {n : Int} (h : InWord n) :
    wordOfChars? (Numeral.ofInt n) = some n := by
  simp [wordOfChars?, Numeral.toInt?_ofInt, h]

theorem takeWhile_ofInt_append (n : Int) (cs : List Char) :
    (Numeral.ofInt n ++ cs).takeWhile (· != '/') =
      Numeral.ofInt n ++ cs.takeWhile (· != '/') :=
  List.takeWhile_append_of_pos fun c hc => by simpa using Numeral.ne_slash_of_mem_ofInt hc

theorem dropWhile_ofInt_append (n : Int) (cs : List Char) :
    (Numeral.ofInt n ++ cs).dropWhile (· != '/') = cs.dropWhile (· != '/') :=
  List.dropWhile_append_of_pos fun c hc => by simpa using Numeral.ne_slash_of_mem_ofInt hc

theorem ofChars?_ofInt {n : Int} (h : InWord n) : ofChars? (Numeral.ofInt n) = ofInt? n := by
  have ht := takeWhile_ofInt_append n []
  have hd := dropWhile_ofInt_append n []
  simp only [List.append_nil, List.takeWhile_nil, List.dropWhile_nil] at ht hd
  simp only [ofChars?, ht, hd, wordOfChars?_ofInt h]

theorem ofChars?_chars (x : Exponent) : ofChars? x.chars = some x := by
  unfold chars
  split
  · rename_i h
    have hden : x.value.den = 1 := by simpa [isInteger] using h
    have hx : (x.value.num : Rat) = x.value :=
      Rat.ext (Rat.num_intCast _) ((Rat.den_intCast _).trans hden.symm)
    rw [ofChars?_ofInt x.num_inWord, ofInt?, hx, ofRat?_value]
  · have hd : Numeral.ofNat x.value.den = Numeral.ofInt (x.value.den : Int) := by
      simp [Numeral.ofInt]
    have hw : wordOfChars? (Numeral.ofNat x.value.den) = some (x.value.den : Int) := by
      rw [hd, wordOfChars?_ofInt x.den_inWord]
    have hz : (x.value.den : Int) ≠ 0 := Int.ofNat_ne_zero.mpr x.value.den_nz
    have ht := takeWhile_ofInt_append x.value.num ('/' :: Numeral.ofNat x.value.den)
    have hr := dropWhile_ofInt_append x.value.num ('/' :: Numeral.ofNat x.value.den)
    simp at ht hr
    simp only [ofChars?, ht, hr, wordOfChars?_ofInt x.num_inWord, hw, if_neg hz,
      Rat.num_divInt_den, ofRat?_value]

theorem ofText?_text (x : Exponent) : ofText? x.text = some x := by
  simp [ofText?, text, ofChars?_chars]

end Exponent

end Metrology
