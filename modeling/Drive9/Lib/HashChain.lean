import Mathlib.Data.List.Induction

/-!
This module contains hash chains: lists in which every element names the hash of the one before it.
-/

namespace HashChain

variable {α H : Type} (prev hash : α → H)

def Linked (first : H) (l : List α) (last : H) : Prop :=
  match l with
  | [] => first = last
  | a :: l => prev a = first ∧ Linked (hash a) l last

variable {prev hash}

theorem linked_cons : Linked prev hash first (a :: l) last ↔ prev a = first ∧ Linked prev hash
    (hash a) l last := by
  rfl

theorem linked_append
    : Linked prev hash first (l ++ l') last
        ↔
      ∃ middle, Linked prev hash first l middle ∧ Linked prev hash middle l' last := by
  induction l generalizing first with
  | nil => simp [Linked]
  | cons a l ih =>
    rw [List.cons_append, linked_cons, ih]
    simp only [linked_cons]
    constructor
    . rintro ⟨h, middle, hl, hl'⟩
      exact ⟨middle, ⟨h, hl⟩, hl'⟩
    . rintro ⟨middle, ⟨h, hl⟩, hl'⟩
      exact ⟨h, middle, hl, hl'⟩

theorem linked_concat : Linked prev hash first (l ++ [a]) last ↔ Linked prev hash first l
    (prev a) ∧ hash a = last := by
  rw [linked_append]
  constructor
  . rintro ⟨middle, hl, ha, hlast⟩
    rw [ha]
    exact ⟨hl, hlast⟩
  . rintro ⟨hl, hlast⟩
    exact ⟨prev a, hl, rfl, hlast⟩

theorem Linked.last_eq (h : Linked prev hash first l last)
    : last = (l.getLast?.map hash).getD first := by
  induction l using List.reverseRecOn with
  | nil => exact h.symm
  | append_singleton l a _ =>
    rw [List.getLast?_concat]
    exact (linked_concat.mp h).2.symm

theorem linked_map
    : Linked prev hash first (l.map f) last
        ↔
      Linked (fun b => prev (f b)) (fun b => hash (f b)) first l last := by
  induction l generalizing first with
  | nil => rfl
  | cons b l ih => rw [List.map_cons, linked_cons, linked_cons, ih]

end HashChain
