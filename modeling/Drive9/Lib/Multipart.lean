import Mathlib.Data.List.Sort
import Drive9.Lib.Blocks
import Drive9.Lib.Flat
import Drive9.Lib.FMap

/-!
This module contains multipart objects: numbered parts that are put one by one, in any order, and
concatenated in the order of their numbers at the end.
-/

namespace Multipart

open List

variable {α : Type}

def complete (parts : FMap Int (List α)) : List α :=
  (parts.keys.insertionSort (· ≤ ·)).flatMap (fun k => (parts.get? k).getD [])

def block (p : Nat) (file : List α) (idx : Nat) : List α :=
  Flat.slice file (idx * p) (min ((idx + 1) * p) file.length)

theorem flatMap_block (p : Nat) (file : List α) (n : Nat)
    : (List.range n).flatMap (block p file) = file.take (n * p) := by
  induction n with
  | zero => simp
  | succ n ih =>
    rw [range_succ, flatMap_append, ih, flatMap_singleton]
    unfold block Flat.slice
    rw [Nat.add_mul, Nat.one_mul, take_add]
    congr 1
    rw [take_eq_take_iff, length_drop]
    omega

theorem sorted_keys (parts : FMap Int (List α)) (n : Nat)
    (hkeys : ∀ k, (parts.get? k).isSome ↔ ∃ idx : Nat, k = idx + 1 ∧ idx < n)
    : parts.keys.insertionSort (· ≤ ·) = (List.range n).map (fun idx : Nat => (idx : Int) + 1) := by
  apply List.Perm.eq_of_pairwise' (r := (· ≤ ·))
  . exact pairwise_insertionSort _ _
  . rw [pairwise_map]
    apply List.Pairwise.imp _ pairwise_lt_range
    intro a b hab
    omega
  . apply (perm_insertionSort _ _).trans
    rw [perm_ext_iff_of_nodup parts.nodup_keys]
    . intro k
      rw [FMap.mem_keys, hkeys, mem_map]
      constructor
      . rintro ⟨idx, hk, hidx⟩
        exact ⟨idx, mem_range.mpr hidx, hk.symm⟩
      . rintro ⟨idx, hidx, hk⟩
        exact ⟨idx, hk.symm, mem_range.mp hidx⟩
    . apply List.Nodup.map _ nodup_range
      intro a b hab
      dsimp only at hab
      omega

theorem complete_eq (hp : 0 < p) (parts : FMap Int (List α)) (file : List α)
    (hkeys : ∀ k, (parts.get? k).isSome ↔ ∃ idx : Nat, k = idx + 1 ∧ idx < Blocks.count p file.length)
    (hblock : ∀ idx : Nat, idx < Blocks.count p file.length →
      parts.get? ((idx : Int) + 1) = some (block p file idx))
    : complete parts = file := by
  unfold complete
  rw [sorted_keys parts _ hkeys, flatMap_map]
  have hcongr : (List.range (Blocks.count p file.length)).flatMap
        (fun idx : Nat => (parts.get? ((idx : Int) + 1)).getD [])
      = (List.range (Blocks.count p file.length)).flatMap (block p file) := by
    apply flatMap_congr
    intro idx hidx
    rw [hblock idx (mem_range.mp hidx)]
    rfl
  rw [hcongr, flatMap_block]
  apply take_of_length_le
  rw [← Blocks.count_le_iff hp]

end Multipart
