import Mathlib.Algebra.Ring.Int.Defs
import Mathlib.Algebra.Ring.Nat
import Mathlib.Tactic.Common

/-!
This module contains the wrap-around of Go's `int64`.
-/

/--
The value an `int64` holds after an operation whose exact result is `x`.
-/
def i64 (x : Int) : Int := Int.bmod x (2 ^ 64)

def maxInt64 : Int := 2 ^ 63 - 1

theorem i64_eq (h1 : 0 ≤ x) (h2 : x ≤ maxInt64) : i64 x = x := by
  unfold maxInt64 at h2
  apply Int.bmod_eq_of_le <;> omega
