import Drive9.Lib.Like

/-!
This module contains globs, in which `*` stands for any string and `?` for one character, and when
the `LIKE` pattern with `%` and `_` in their places accepts the same strings.
-/

namespace Glob

open List

def accepts (pattern s : List Char) : Bool :=
  match pattern with
  | [] => s.isEmpty
  | '*' :: pattern => s.tails.any (accepts pattern)
  | '?' :: pattern =>
    match s with
    | [] => false
    | _ :: s => accepts pattern s
  | c :: pattern =>
    match s with
    | [] => false
    | x :: s => x = c && accepts pattern s

def toLike (c : Char) : Char := if c = '*' then '%' else if c = '?' then '_' else c

-- The characters that are special in `LIKE` only.
def Plain (pattern : List Char) : Prop := '%' ∉ pattern ∧ '_' ∉ pattern ∧ '\\' ∉ pattern.dropLast

theorem mem_dropLast_cons {x : Char}
    : x ∈ (c :: s).dropLast ↔ s ≠ [] ∧ (x = c ∨ x ∈ s.dropLast) := by
  cases s <;> simp

theorem accepts_cons (h1 : c ≠ '*') (h2 : c ≠ '?') (pattern s : List Char)
    : accepts (c :: pattern) s = true ↔ ∃ t, s = c :: t ∧ accepts pattern t = true := by
  cases s with
  | nil | cons x s =>
    rw [accepts.eq_def]
    split <;> simp_all

theorem accepts_map_toLike (h : Plain pattern) (s)
    : Like.accepts (pattern.map toLike) s = accepts pattern s := by
  induction pattern generalizing s with
  | nil => rfl
  | cons c pattern ih =>
    have htail : Plain pattern := by
      unfold Plain at h ⊢
      grind [mem_dropLast_cons]
    specialize ih htail
    rw [map_cons, toLike]
    split
    . next hc =>
      subst hc
      rw [accepts, Like.accepts]
      congr 1
      funext t
      exact ih t
    . next hstar =>
      split
      . next hc =>
        subst hc
        cases s with
        | nil => rfl
        | cons x s =>
          rw [accepts, Like.accepts]
          exact ih s
      . next hquestion =>
        rw [Bool.eq_iff_iff, accepts_cons hstar hquestion,
          Like.accepts_cons (ne_of_not_mem_cons h.1).symm
          (ne_of_not_mem_cons h.2.1).symm]
        . simp only [ih]
        . intro hback
          by_contra hne
          exact h.2.2 (mem_dropLast_cons.mpr ⟨by simpa using hne, .inl hback.symm⟩)

-- A string that the `LIKE` pattern accepts, with as few special characters as possible.
def sample (pattern : List Char) : List Char :=
  match pattern with
  | [] => []
  | '\\' :: c :: pattern => toLike c :: sample pattern
  | c :: pattern =>
    if toLike c = '%' then sample pattern else if toLike c = '_' then 'x' :: sample pattern else c :: sample pattern

theorem accepts_sample (pattern) : Like.accepts (pattern.map toLike) (sample pattern) = true := by
  fun_induction sample pattern with
  | case1 => rfl
  | case2 c pattern ih =>
    rw [map_cons, map_cons, show toLike '\\' = '\\' from rfl, Like.accepts]
    simp [ih]
  | case3 c pattern hne hc ih =>
    rw [map_cons, hc, Like.accepts, any_eq_true]
    exact ⟨_, (mem_tails _ _).mpr suffix_rfl, ih⟩
  | case4 c pattern hne hpercent hc ih =>
    rw [map_cons, hc, Like.accepts]
    exact ih
  | case5 c pattern hne hpercent hunder ih =>
    have hc : toLike c = c := by
      unfold toLike at hpercent hunder ⊢
      grind
    rw [map_cons, hc, Like.accepts_cons (by grind) (by grind)]
    . exact ⟨_, rfl, ih⟩
    . intro hback
      cases pattern with
      | nil => rfl
      | cons y pattern => exact absurd rfl (hne y pattern hback)

theorem count_le_of_accepts (h : accepts pattern s = true) (h1 : c ≠ '*') (h2 : c ≠ '?')
    : pattern.count c ≤ s.count c := by
  induction pattern generalizing s with
  | nil => simp
  | cons x pattern ih =>
    by_cases hstar : x = '*'
    . subst hstar
      rw [accepts, any_eq_true] at h
      obtain ⟨t, ht, hacc⟩ := h
      rw [count_cons_of_ne h1.symm]
      exact (ih hacc).trans (((mem_tails _ _).mp ht).sublist.count_le c)
    . by_cases hquestion : x = '?'
      . subst hquestion
        rw [count_cons_of_ne h2.symm]
        cases s with
        | nil => contradiction
        | cons y s => exact (ih h).trans ((sublist_cons_self y s).count_le c)
      . obtain ⟨t, rfl, hacc⟩ := (accepts_cons hstar hquestion pattern s).mp h
        rw [count_cons, count_cons]
        exact Nat.add_le_add_right (ih hacc) _

theorem count_sample (pattern)
    : (sample pattern).count '\\' + (if '\\' ∈ pattern.dropLast then 1 else 0)
      ≤ pattern.count '\\' := by
  fun_induction sample pattern with
  | case1 => simp
  | case2 c pattern ih => grind [toLike, mem_dropLast_cons]
  | case3 c pattern hne hc ih => grind [toLike, mem_dropLast_cons]
  | case4 c pattern hne hpercent hc ih => grind [toLike, mem_dropLast_cons]
  | case5 c pattern hne hpercent hunder ih =>
    cases pattern with
    | nil | cons y pattern => grind [toLike, mem_dropLast_cons]

theorem not_mem_sample (h : '\\' ∉ pattern.dropLast)
    : '%' ∉ sample pattern ∧ '_' ∉ sample pattern := by
  fun_induction sample pattern with
  | case1 => simp
  | case2 c pattern ih => simp at h
  | case3 c pattern hne hc ih => grind [toLike, mem_dropLast_cons]
  | case4 c pattern hne hpercent hc ih => grind [toLike, mem_dropLast_cons]
  | case5 c pattern hne hpercent hunder ih => grind [toLike, mem_dropLast_cons]

theorem not_mem_of_accepts (h : accepts pattern s = true) (h1 : c ≠ '*') (h2 : c ≠ '?') (hc : c ∉ s)
    : c ∉ pattern := by
  have hle := count_le_of_accepts h h1 h2
  rw [← count_eq_zero] at hc ⊢
  omega

theorem plain_of_accepts_sample (h : accepts pattern (sample pattern) = true) : Plain pattern := by
  have hback : '\\' ∉ pattern.dropLast := by
    intro hmem
    have hcount := count_sample pattern
    have hle := count_le_of_accepts (c := '\\') h (by decide) (by decide)
    rw [if_pos hmem] at hcount
    omega
  obtain ⟨hpercent, hunder⟩ := not_mem_sample hback
  exact ⟨not_mem_of_accepts h (by decide) (by decide) hpercent,
    not_mem_of_accepts h (by decide) (by decide) hunder, hback⟩

end Glob
