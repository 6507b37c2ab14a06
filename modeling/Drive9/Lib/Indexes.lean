import Drive9.Lib.FMap

/-!
This module contains the index of a list by a key: a map that has, for each key, the elements with
this key.
-/

structure Indexes {α κ : Type} [DecidableEq κ] (key : α → κ) (l : List α)
    (index : FMap κ (List α)) : Prop where
  mem : ∀ k a, a ∈ (index.get? k).getD [] ↔ a ∈ l ∧ key a = k
  sets : ∀ k as, index.get? k = some as → as ≠ [] ∧ as.Nodup

namespace Indexes

variable {α κ : Type} [DecidableEq κ] {key : α → κ} {l : List α} {index : FMap κ (List α)}

theorem empty : Indexes key [] .empty := by
  constructor <;> simp

section

variable (h : Indexes key l index)

include h

theorem nodup (k) : ((index.get? k).getD []).Nodup := by
  cases hk : index.get? k with
  | none => exact List.nodup_nil
  | some as => exact (h.sets k as hk).2

theorem del (k) : Indexes key (l.filter (key · ≠ k)) (index.del k) := by
  obtain ⟨hmem, hsets⟩ := h
  constructor <;> grind

variable [DecidableEq α]

theorem add (a) : Indexes key (l ++ [a])
    (index.set (key a) (((index.get? (key a)).getD []).insert a)) := by
  have hne := List.ne_nil_of_mem (@List.mem_insert_self _ _ _ a ((index.get? (key a)).getD []))
  have hnodup := (h.nodup (key a)).insert (a := a)
  obtain ⟨hmem, hsets⟩ := h
  constructor <;> grind

theorem remove (hl : l.Nodup) (a)
    : Indexes key (l.erase a)
        (if ((index.get? (key a)).getD []).erase a = [] then index.del (key a)
          else index.set (key a) (((index.get? (key a)).getD []).erase a)) := by
  have hnodup := (h.nodup (key a)).erase a
  have herase : ∀ b, b ∈ ((index.get? (key a)).getD []).erase a
      ↔ b ≠ a ∧ b ∈ l ∧ key b = key a := by
    intro b
    rw [(h.nodup (key a)).mem_erase_iff, h.mem]
  obtain ⟨hmem, hsets⟩ := h
  generalize ((index.get? (key a)).getD []).erase a = as at herase hnodup
  split
  all_goals constructor <;> grind

end

end Indexes
