import Mathlib.Algebra.Order.Ring.Int
import Mathlib.Data.List.Sort

/-!
This module contains reading a table page by page: the rows behind the last key that was read, in
the order of their keys, up to a limit.
-/

namespace Paging

open List

variable {α : Type} (key : α → Int)

def rows (l : List α) (after : Int) : List α :=
  (l.filter fun a => after < key a).insertionSort fun a b => key a ≤ key b

variable {key} {l : List α} {after : Int}

local instance total_le : Std.Total fun a b : α => key a ≤ key b := ⟨fun a b => le_total (key a) (key b)⟩

local instance isTrans_le : IsTrans α fun a b : α => key a ≤ key b := ⟨fun _ _ _ => le_trans⟩

theorem perm_rows (key : α → Int) (l : List α) (after : Int)
    : (rows key l after).Perm (l.filter fun a => after < key a) := by
  apply perm_insertionSort

theorem mem_rows : a ∈ rows key l after ↔ a ∈ l ∧ after < key a := by
  rw [(perm_rows key l after).mem_iff]
  simp

theorem length_rows_le (key : α → Int) (l : List α) (after : Int)
    : (rows key l after).length ≤ l.length := by
  rw [(perm_rows key l after).length_eq]
  apply length_filter_le

theorem pairwise_rows (key : α → Int) (l : List α) (after : Int)
    : (rows key l after).Pairwise fun a b => key a ≤ key b := by
  apply pairwise_insertionSort

theorem nodup_rows (h : (l.map key).Nodup) (after : Int) : ((rows key l after).map key).Nodup := by
  rw [((perm_rows key l after).map key).nodup_iff]
  exact h.sublist (filter_sublist.map key)

theorem eq_of_perm {l₁ l₂ : List α} (hnd : (l₁.map key).Nodup)
    (h₁ : l₁.Pairwise fun a b => key a ≤ key b)
    (h₂ : l₂.Pairwise fun a b => key a ≤ key b) (hperm : l₁.Perm l₂)
    : l₁ = l₂ := by
  apply hperm.eq_of_pairwise _ h₁ h₂
  intro a b ha hb hab hba
  exact inj_on_of_nodup_map hnd ha (hperm.mem_iff.mpr hb) (le_antisymm hab hba)

theorem rows_of_sorted (h : l.Pairwise fun a b => key a ≤ key b) (hafter : ∀ a ∈ l, after < key a)
    : rows key l after = l := by
  unfold rows
  rw [filter_eq_self.mpr fun a ha => decide_eq_true (hafter a ha)]
  exact h.insertionSort_eq

theorem rows_eq_filter (h : (l.map key).Nodup) (hs : after ≤ s)
    : rows key l s = (rows key l after).filter fun a => s < key a := by
  apply eq_of_perm (nodup_rows h s) (pairwise_rows key l s) ((pairwise_rows key l after).filter _)
  apply (perm_rows key l s).trans
  apply List.Perm.symm
  apply ((perm_rows key l after).filter _).trans
  rw [filter_filter]
  apply List.Perm.of_eq
  apply filter_congr
  intro a _
  simp
  omega

theorem rows_eq_append (h : (l.map key).Nodup) (hrows : rows key l after = page ++ a :: rest)
    : rows key l (key a) = rest := by
  have hsorted := pairwise_rows key l after
  have hnd := nodup_rows h after
  have ha : a ∈ rows key l after := by simp [hrows]
  rw [rows_eq_filter h (mem_rows.mp ha).2.le]
  rw [hrows, pairwise_append, pairwise_cons] at hsorted
  rw [hrows, map_append, map_cons, nodup_append, nodup_cons] at hnd
  obtain ⟨_, ⟨hrest, _⟩, hpage⟩ := hsorted
  rw [hrows, filter_append, filter_cons_of_neg (by simp), filter_eq_nil_iff.mpr,
    filter_eq_self.mpr, nil_append]
  . intro b hb
    have hne : key a ≠ key b := fun heq => hnd.2.1.1 (heq ▸ mem_map_of_mem hb)
    have hle := hrest b hb
    simp
    omega
  . intro b hb
    have hle := hpage b hb a mem_cons_self
    simp
    omega

end Paging
