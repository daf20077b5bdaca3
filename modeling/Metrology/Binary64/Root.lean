import Metrology.Binary64.Parts

/-!
# Cube roots of doubles

The integer cube root is found bit by bit (`cubeRootBits`).  A double is scaled by a power of eight
until its integer root has more bits than a significand; one more bit records whether the root is
inexact, and rounding that number once gives the double nearest to the exact root.

* `cube_cubeRoot_le`, `lt_cube_succ_cubeRoot`: the integer root is the floor of the exact one.
-/

namespace Metrology.Binary64

/-- The third power. -/
def cube (n : Nat) : Nat :=
  n * n * n

/-- The largest number `r`, among those that agree with `root` above the lowest `bits` bits, with
`cube r ≤ n`. -/
def cubeRootBits (n : Nat) : Nat → Nat → Nat
  | 0, root => root
  | bits + 1, root =>
    let raised := root + Nat.pow 2 bits
    cubeRootBits n bits (if cube raised ≤ n then raised else root)

/-- The integer part of the cube root. -/
def cubeRoot (n : Nat) : Nat :=
  cubeRootBits n (Nat.log2 n / 3 + 1) 0

/-- The double nearest to the cube root of a double. -/
def cbrt (x : Float) : Float :=
  match parts x with
  | .finite negative significand exponent =>
    if significand = 0 then x
    else
      let shift := ((180 - exponent) / 3).toNat
      let scaled := significand * Nat.pow 2 (exponent + 3 * shift).toNat
      let root := cubeRoot scaled
      let inexact := if cube root = scaled then 0 else 1
      ofDyadic negative (2 * root + inexact) (-(shift + 1 : Int))
  | _ => x

theorem cube_cubeRootBits_le {n bits root : Nat} (h : cube root ≤ n) :
    cube (cubeRootBits n bits root) ≤ n := by
  induction bits generalizing root with
  | zero => exact h
  | succ bits ih =>
    simp only [cubeRootBits]
    split
    · exact ih ‹_›
    · exact ih h

theorem lt_cube_succ_cubeRootBits {n bits root : Nat} (h : n < cube (root + Nat.pow 2 bits)) :
    n < cube (cubeRootBits n bits root + 1) := by
  induction bits generalizing root with
  | zero => exact h
  | succ bits ih =>
    simp only [cubeRootBits]
    split
    · refine ih ?_
      rw [Nat.add_assoc, ← Nat.mul_two]
      exact h
    · exact ih (by omega)

theorem cube_cubeRoot_le (n : Nat) : cube (cubeRoot n) ≤ n :=
  cube_cubeRootBits_le (Nat.zero_le n)

theorem lt_cube_succ_cubeRoot (n : Nat) : n < cube (cubeRoot n + 1) := by
  refine lt_cube_succ_cubeRootBits ?_
  simp only [Nat.zero_add, cube, Nat.pow_eq, ← Nat.pow_add]
  exact Nat.lt_of_lt_of_le Nat.lt_log2_self (Nat.pow_le_pow_right (by omega) (by omega))

end Metrology.Binary64
