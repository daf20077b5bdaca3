import Metrology.Binary64.Parts

/-!
# The shortest decimal of a double

Every real number between the two midpoints to the neighbouring doubles rounds to a given double;
the midpoints do too when its significand is even.  `shortest` looks for the first of the decimal
grids of 1, 2, 3, … digits that has a point there, and takes the point nearest to the double.  Of
two equally near ones it takes the larger.

* `Interval.mem_of_gridPoint?`: a chosen point rounds to the double.
-/

namespace Metrology

/-- The number `digits * 10 ^ exponent`. -/
structure Decimal where
  digits : Nat
  exponent : Int
deriving DecidableEq

namespace Decimal

/-- The reals that round to a double: `value / den` lies between `low / den` and `high / den`, and
the ends belong to the interval when it is closed. -/
structure Interval where
  low : Nat
  value : Nat
  high : Nat
  den : Nat
  closed : Bool

/-- The reals that round to the double `significand * 2 ^ exponent`.  Below a power of two the
doubles lie twice as close. -/
def Interval.ofDouble (significand : Nat) (exponent : Int) : Interval :=
  let unit := Nat.pow 2 exponent.toNat
  let gap := if significand = Binary64.binade ∧ -1074 < exponent then 1 else 2
  { low := (4 * significand - gap) * unit
    value := 4 * significand * unit
    high := (4 * significand + 2) * unit
    den := 4 * Nat.pow 2 (-exponent).toNat
    closed := significand % 2 == 0 }

/-- Whether a decimal number lies in an interval. -/
def Interval.mem (i : Interval) (d : Decimal) : Bool :=
  let point := d.digits * Nat.pow 10 d.exponent.toNat * i.den
  let unit := Nat.pow 10 (-d.exponent).toNat
  if i.closed then i.low * unit ≤ point && point ≤ i.high * unit
  else i.low * unit < point && point < i.high * unit

/-- The number `k` of digits before the point, so that the value of an interval is below `10 ^ k`
and not below `10 ^ (k - 1)`; it is zero or negative for small values. -/
def Interval.point (i : Interval) : Int :=
  let k := Binary64.log2Ratio i.value i.den * 30103 / 100000 + 1
  if Nat.pow 10 k.toNat * i.den ≤ i.value * Nat.pow 10 (-k).toNat then k + 1 else k

/-- The point of an interval on the decimal grid of the given number of digits that is nearest to
its value. -/
def Interval.gridPoint? (i : Interval) (digits : Nat) : Option Decimal :=
  let exponent := i.point - digits
  let num := i.value * Nat.pow 10 (-exponent).toNat
  let den := i.den * Nat.pow 10 exponent.toNat
  let below : Decimal := ⟨num / den, exponent⟩
  let above : Decimal := ⟨num / den + 1, exponent⟩
  match i.mem below, i.mem above with
  | true, true => some (if 2 * (num % den) < den then below else above)
  | true, false => some below
  | false, true => some above
  | false, false => none

/-- The decimal number that a double is exactly. -/
def ofDyadic (significand : Nat) (exponent : Int) : Decimal :=
  if 0 ≤ exponent then ⟨significand * Nat.pow 2 exponent.toNat, 0⟩
  else ⟨significand * Nat.pow 5 (-exponent).toNat, exponent⟩

/-- A decimal number without one trailing zero. -/
def strip (d : Decimal) : Decimal :=
  if d.digits % 10 = 0 then ⟨d.digits / 10, d.exponent + 1⟩ else d

/-- The shortest decimal number that rounds to the double `significand * 2 ^ exponent`. -/
def shortest (significand : Nat) (exponent : Int) : Decimal :=
  if significand = 0 then ⟨0, 0⟩
  else
    let interval := Interval.ofDouble significand exponent
    match (List.range 17).findSome? fun n => interval.gridPoint? (n + 1) with
    | some d => d.strip
    | none => ofDyadic significand exponent

theorem Interval.mem_of_gridPoint? {i : Interval} {n : Nat} {d : Decimal}
    (h : i.gridPoint? n = some d) : i.mem d = true := by
  unfold gridPoint? at h
  simp only at h
  split at h
  · rename_i hb ha
    rw [Option.some.injEq] at h
    subst h
    split
    · exact hb
    · exact ha
  · rename_i hb _
    rw [Option.some.injEq] at h
    exact h ▸ hb
  · rename_i _ ha
    rw [Option.some.injEq] at h
    exact h ▸ ha
  · cases h

end Decimal

end Metrology
