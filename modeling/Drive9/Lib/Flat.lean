import Mathlib.Data.List.Basic

/-!
This module contains flat files: sequences that can be written at an offset and resized, where
whatever was never written reads as a fixed default element `z`.
-/

namespace Flat

open List

variable {α : Type}

def copyAt (dst : List α) (pos : Nat) (src : List α) : List α :=
  dst.take pos ++ src.take (dst.length - pos) ++ dst.drop (pos + src.length)

def resize (z : α) (xs : List α) (n : Nat) : List α :=
  xs.take n ++ List.replicate (n - xs.length) z

def write (z : α) (xs : List α) (off : Nat) (data : List α) : List α :=
  copyAt (resize z xs (max xs.length (off + data.length))) off data

def slice (xs : List α) (lo hi : Nat) : List α := (xs.drop lo).take (hi - lo)

theorem ext_getD (z) {xs ys : List α} (hlen : xs.length = ys.length)
    (h : ∀ i, i < xs.length → xs.getD i z = ys.getD i z)
    : xs = ys := by
  apply ext_getElem hlen
  intro i h1 h2
  specialize h i h1
  simpa [getD_eq_getElem?_getD, h1, h2] using h

theorem getD_of_length_le (z) {xs : List α} (h : xs.length ≤ i) : xs.getD i z = z := by
  simp [getD_eq_getElem?_getD, h]

@[simp]
theorem length_copyAt (dst src : List α) (h : pos ≤ dst.length)
    : (copyAt dst pos src).length = dst.length := by
  simp only [copyAt, length_append, length_take, length_drop]
  omega

theorem getD_copyAt (z) (dst src : List α) (i) (h : pos ≤ dst.length)
    : (copyAt dst pos src).getD i z
        =
      if pos ≤ i ∧ i < pos + src.length ∧ i < dst.length then
        src.getD (i - pos) z
      else
        dst.getD i z := by
  simp only [copyAt, getD_eq_getElem?_getD, getElem?_append, getElem?_take,
    getElem?_drop, length_append, length_take]
  grind

section

variable (xs : List α)

include xs

@[simp]
theorem length_resize (z) (n) : (resize z xs n).length = n := by
  simp only [resize, length_append, length_take, length_replicate]
  omega

theorem getD_resize (z) (n i) : (resize z xs n).getD i z = if i < n then xs.getD i z else z := by
  simp only [resize, getD_eq_getElem?_getD, getElem?_append, getElem?_take,
    getElem?_replicate, length_take]
  grind

@[simp]
theorem length_write (z) (off) (data : List α)
    : (write z xs off data).length = max xs.length (off + data.length) := by
  unfold write
  rw [length_copyAt]
  . rw [length_resize]
  . rw [length_resize]
    omega

theorem getD_write (z) (off) (data : List α) (i)
    : (write z xs off data).getD i z
        =
      if off ≤ i ∧ i < off + data.length then
        data.getD (i - off) z
      else
        xs.getD i z := by
  unfold write
  rw [getD_copyAt]
  . rw [getD_resize, length_resize]
    grind
  . rw [length_resize]
    omega

theorem copyAt_grow (z) (off) (data : List α)
    : copyAt (if off + data.length > xs.length then resize z xs (off + data.length) else xs) off data
        =
      write z xs off data := by
  unfold write
  split
  . next h =>
    rw [Nat.max_eq_right (by omega)]
  . next h =>
    rw [Nat.max_eq_left (by omega)]
    simp [resize]

theorem length_slice (lo hi : Nat) : (slice xs lo hi).length = min (hi - lo) (xs.length - lo) := by
  simp [slice]

theorem getD_slice (z) (lo hi i : Nat)
    : (slice xs lo hi).getD i z = if lo + i < hi then xs.getD (lo + i) z else z := by
  simp only [slice, getD_eq_getElem?_getD, getElem?_take, getElem?_drop]
  grind

end

end Flat
