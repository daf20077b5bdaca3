/-!
# Decimal numerals of integers

The text of an integer is its decimal digits, most significant first, after a minus sign when it is
negative (`ofInt`).  Reading (`toInt?`) is more generous than writing: it takes a plus sign and
leading zeros too, but nothing besides ASCII digits after the sign, and at least one of them.

* `toInt?_ofInt`: a written integer reads back.
* `ofInt_injective`: two integers of one text are equal.
-/

namespace Metrology.Numeral

/-- The decimal digits of a natural number, most significant first. -/
def ofNat (n : Nat) : List Char :=
  Nat.toDigits 10 n

/-- The decimal text of an integer. -/
def ofInt (n : Int) : List Char :=
  if n < 0 then '-' :: ofNat n.natAbs else ofNat n.natAbs

/-- Reads a run of ASCII digits, which must not be empty. -/
def toNat? (cs : List Char) : Option Nat :=
  if cs ≠ [] ∧ cs.all Char.isDigit then some (Nat.ofDigitChars 10 cs 0) else none

/-- Reads an optional sign and a run of ASCII digits. -/
def toInt? : List Char → Option Int
  | '+' :: cs => (toNat? cs).map Int.ofNat
  | '-' :: cs => (toNat? cs).map fun n => -Int.ofNat n
  | cs => (toNat? cs).map Int.ofNat

theorem isDigit_of_mem_ofNat {n : Nat} {c : Char} (h : c ∈ ofNat n) : c.isDigit = true :=
  Nat.isDigit_of_mem_toDigits (by decide) (by decide) h

theorem toNat?_ofNat (n : Nat) : toNat? (ofNat n) = some n := by
  have hne : ofNat n ≠ [] := Nat.toDigits_ne_nil
  have hall : (ofNat n).all Char.isDigit = true :=
    List.all_eq_true.mpr fun _ h => isDigit_of_mem_ofNat h
  rw [toNat?, if_pos ⟨hne, hall⟩]
  simp [ofNat, Nat.ofDigitChars_toDigits]

/-- A text that starts with a digit is read without a sign. -/
theorem toInt?_of_isDigit {c : Char} {cs : List Char} (h : c.isDigit = true) :
    toInt? (c :: cs) = (toNat? (c :: cs)).map Int.ofNat := by
  unfold toInt?
  split
  · simp_all [Char.isDigit]
  · simp_all [Char.isDigit]
  · simp_all

theorem toInt?_ofInt (n : Int) : toInt? (ofInt n) = some n := by
  unfold ofInt
  split
  · simp only [toInt?, toNat?_ofNat, Option.map_some, Option.some.injEq, Int.ofNat_eq_natCast]
    omega
  · obtain ⟨c, cs, hc⟩ := List.exists_cons_of_ne_nil (Nat.toDigits_ne_nil (n := n.natAbs) (b := 10))
    have hd : c.isDigit = true := isDigit_of_mem_ofNat (n := n.natAbs) (by simp [ofNat, hc])
    have hs : ofNat n.natAbs = c :: cs := hc
    rw [hs, toInt?_of_isDigit hd, ← hs, toNat?_ofNat]
    simp only [Option.map_some, Option.some.injEq, Int.ofNat_eq_natCast]
    omega

/-- A numeral holds no slash. -/
theorem ne_slash_of_mem_ofInt {n : Int} {c : Char} (h : c ∈ ofInt n) : c ≠ '/' := by
  rintro rfl
  unfold ofInt at h
  split at h
  · rcases List.mem_cons.mp h with h | h
    · exact absurd h (by decide)
    · exact absurd (isDigit_of_mem_ofNat h) (by decide)
  · exact absurd (isDigit_of_mem_ofNat h) (by decide)

theorem ofInt_injective {m n : Int} (h : ofInt m = ofInt n) : m = n := by
  have hm := toInt?_ofInt m
  rw [h, toInt?_ofInt n] at hm
  exact (Option.some.inj hm).symm

end Metrology.Numeral
