import Mathlib.Tactic.Ring
import Mathlib.Tactic.Linarith

/-!
This module contains the arithmetic of a sequence cut into blocks of a fixed size `p`: position `i`
is element `i % p` of block `i / p`.
-/

namespace Blocks

variable {p : Nat}

-- Block `idx` has a position in `[lo, hi)`.
def Hit (p lo hi idx : Nat) : Prop := lo < hi ∧ idx * p < hi ∧ lo < (idx + 1) * p

instance (p lo hi idx : Nat) : Decidable (Hit p lo hi idx) := inferInstanceAs (Decidable (_ ∧ _))

def count (p size : Nat) : Nat := (size + p - 1) / p

theorem div_eq_iff (hp : 0 < p) : i / p = idx ↔ idx * p ≤ i ∧ i < (idx + 1) * p := by
  rw [Nat.div_eq_iff hp, Nat.add_mul]
  omega

theorem pos_eq (i : Nat) : i = i / p * p + i % p := by
  rw [Nat.mul_comm]
  exact (Nat.div_add_mod i p).symm

theorem div_of_eq (hp : 0 < p) (ho : o < p) : (idx * p + o) / p = idx := by
  rw [div_eq_iff hp, Nat.add_mul]
  omega

theorem mod_of_eq (ho : o < p) : (idx * p + o) % p = o := by
  rw [Nat.mul_comm, Nat.mul_add_mod]
  exact Nat.mod_eq_of_lt ho

theorem eq_zero_of_mul_lt (idx) (h : idx * p < p) : idx = 0 := by
  by_contra hne
  have := Nat.le_mul_of_pos_left p (Nat.pos_of_ne_zero hne)
  omega

theorem mul_lt_of_lt (h : idx < idx') : (idx + 1) * p ≤ idx' * p := by
  exact Nat.mul_le_mul_right p h

theorem hit_div (hp : 0 < p) (h1 : lo ≤ i) (h2 : i < hi) : Hit p lo hi (i / p) := by
  have hi' := pos_eq (p := p) i
  have hm := Nat.mod_lt i hp
  unfold Hit
  rw [Nat.add_mul]
  omega

theorem lt_count_iff (hp : 0 < p) (size idx : Nat) : idx < count p size ↔ idx * p < size := by
  unfold count
  rw [Nat.lt_div_iff_mul_lt hp]
  omega

theorem count_le_iff (hp : 0 < p) (size idx : Nat) : count p size ≤ idx ↔ size ≤ idx * p := by
  have := lt_count_iff hp size idx
  omega

theorem count_of_mod_ne (hp : 0 < p) (h : size % p ≠ 0) : count p size = size / p + 1 := by
  have hpos := pos_eq (p := p) size
  have hmod := Nat.mod_lt size hp
  have hlt := (lt_count_iff hp size (size / p)).mpr (by omega)
  have hle := (count_le_iff hp size (size / p + 1)).mpr (by rw [Nat.add_mul]; omega)
  omega

end Blocks
