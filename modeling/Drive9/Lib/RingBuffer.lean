import Mathlib.Data.List.Basic
import Mathlib.Data.List.Induction

/-!
This module contains a ring buffer of fixed size: the next write goes to `head`, and the last
`count` writes can be read back.
-/

structure RingBuffer (α : Type) where
  cells : List α
  head : Nat
  count : Nat
  deriving DecidableEq

open List

namespace RingBuffer

variable {α : Type}

def empty (size : Nat) (zero : α) : RingBuffer α := ⟨List.replicate size zero, 0, 0⟩

def push (size : Nat) (r : RingBuffer α) (a : α) : RingBuffer α :=
  ⟨r.cells.set r.head a, (r.head + 1) % size, if r.count < size then r.count + 1 else r.count⟩

def oldestIdx (size : Nat) (r : RingBuffer α) : Nat := (r.head + size - r.count) % size

def oldest? (size : Nat) (r : RingBuffer α) : Option α := r.cells[r.oldestIdx size]?

def newest? (size : Nat) (r : RingBuffer α) : Option α := r.cells[(r.head + size - 1) % size]?

def walk (size : Nat) (r : RingBuffer α) : List α :=
  (List.range r.count).filterMap fun i => r.cells[(r.oldestIdx size + i) % size]?

structure Window (size : Nat) (r : RingBuffer α) (l : List α) : Prop where
  length : r.cells.length = size
  count : r.count = min l.length size
  head : r.head = l.length % size
  cells : ∀ i, i < l.length → l.length ≤ i + size → r.cells[i % size]? = l[i]?

namespace Window

variable {size : Nat} {r : RingBuffer α} {l : List α}

theorem empty (size) (zero : α) : Window size (.empty size zero) [] where
  length := length_replicate
  count := by simp [RingBuffer.empty]
  head := by simp [RingBuffer.empty]
  cells := by
    intro i hi
    contradiction

theorem mod_ne (hlt : i < n) (hle : n < i + size) : i % size ≠ n % size := by
  intro heq
  have hmod : (n - i) % size = 0 := (Nat.sub_mod_eq_zero_of_mod_eq heq.symm)
  rw [Nat.mod_eq_of_lt (by omega)] at hmod
  omega

section

variable (h : Window size r l)

include h

theorem push (hsize : 0 < size) (a : α) : Window size (r.push size a) (l ++ [a]) where
  length := by
    unfold RingBuffer.push
    rw [length_set]
    exact h.length
  count := by
    unfold RingBuffer.push
    dsimp only
    rw [h.count, length_append, length_singleton]
    split
    . omega
    . omega
  head := by
    unfold RingBuffer.push
    rw [h.head, length_append, length_singleton, Nat.mod_add_mod]
  cells := by
    intro i hi hle
    rw [length_append, length_singleton] at hi hle
    unfold RingBuffer.push
    by_cases hlast : i = l.length
    . have hhead : r.head < r.cells.length := by
        rw [h.head, h.length]
        exact Nat.mod_lt _ hsize
      rw [hlast, ← h.head, getElem?_set_self hhead, getElem?_concat_length]
    . rw [getElem?_set_ne, getElem?_append_left (by omega)]
      . apply h.cells
        . omega
        . omega
      . rw [h.head]
        exact (mod_ne (by omega) (by omega)).symm

theorem oldestIdx : r.oldestIdx size = (l.length - r.count) % size := by
  unfold RingBuffer.oldestIdx
  have hcount := h.count
  by_cases hfull : size ≤ l.length
  . have heq : r.count = size := by omega
    rw [heq, Nat.add_sub_cancel, h.head, Nat.mod_mod]
    exact Nat.mod_eq_sub_mod hfull
  . have heq : r.count = l.length := by omega
    have hhead : r.head = l.length := by
      rw [h.head]
      exact Nat.mod_eq_of_lt (by omega)
    rw [heq, hhead, Nat.add_sub_cancel_left, Nat.sub_self, Nat.mod_self, Nat.zero_mod]

theorem getElem?_walk (hi : i < r.count)
    : r.cells[(r.oldestIdx size + i) % size]? = l[l.length - r.count + i]? := by
  have hcount := h.count
  rw [h.oldestIdx, Nat.mod_add_mod]
  apply h.cells
  . omega
  . omega

theorem oldest? (hsize : 0 < size) (hpos : 0 < r.count)
    : r.oldest? size = l[l.length - r.count]? := by
  have hwalk := h.getElem?_walk hpos
  have hlt : r.oldestIdx size < size := Nat.mod_lt _ hsize
  rw [Nat.add_zero, Nat.add_zero, Nat.mod_eq_of_lt hlt] at hwalk
  exact hwalk

theorem newest? (hsize : 0 < size) (hpos : 0 < l.length) : r.newest? size = l[l.length - 1]? := by
  unfold RingBuffer.newest?
  have hidx : (r.head + size - 1) % size = (l.length - 1) % size := by
    rw [h.head, Nat.add_sub_assoc hsize, Nat.mod_add_mod]
    have heq : l.length + (size - 1) = l.length - 1 + size := by omega
    rw [heq, Nat.add_mod_right]
  rw [hidx]
  apply h.cells
  . omega
  . omega

end

theorem filterMap_range (l : List α) : (List.range l.length).filterMap (fun i => l[i]?) = l := by
  induction l using List.reverseRecOn with
  | nil => rfl
  | append_singleton l a ih =>
    have hinit : ∀ i ∈ List.range l.length, (l ++ [a])[i]? = l[i]? := by
      intro i hi
      exact getElem?_append_left (mem_range.mp hi)
    rw [length_append, length_singleton, range_succ, filterMap_append,
      filterMap_congr hinit, ih, filterMap_cons, getElem?_concat_length]
    rfl

theorem walk (h : Window size r l) : r.walk size = l.drop (l.length - r.count) := by
  have hcount := h.count
  have hlength : r.count = (l.drop (l.length - r.count)).length := by
    rw [length_drop]
    omega
  rw [← filterMap_range (l.drop (l.length - r.count)), ← hlength]
  apply filterMap_congr
  intro i hi
  rw [getElem?_drop]
  exact h.getElem?_walk (mem_range.mp hi)

end Window

end RingBuffer
