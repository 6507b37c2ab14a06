import Mathlib.Data.List.Infix

/-!
This module contains the `LIKE` operator of SQL: in a pattern `_` stands for any character, `%` for
any string, and a character after `\` for itself.
-/

namespace Like

open List

def accepts (pattern s : List Char) : Bool :=
  match pattern with
  | [] => s.isEmpty
  | '%' :: pattern => s.tails.any (accepts pattern)
  | '_' :: pattern =>
    match s with
    | [] => false
    | _ :: s => accepts pattern s
  | '\\' :: c :: pattern =>
    match s with
    | [] => false
    | x :: s => x = c && accepts pattern s
  | c :: pattern =>
    match s with
    | [] => false
    | x :: s => x = c && accepts pattern s

def literal (c : Char) : Bool := c ≠ '%' && c ≠ '_' && c ≠ '\\'

theorem ne_of_literal (hc : literal c) : c ≠ '%' ∧ c ≠ '_' ∧ c ≠ '\\' := by
  simpa [literal, and_assoc] using hc

variable {s : List Char} {f : Char → Char}

theorem accepts_percent (s) : accepts ['%'] s = true := by
  rw [accepts, any_eq_true]
  exact ⟨[], (mem_tails _ _).mpr nil_suffix, rfl⟩

-- A backslash at the end has nothing to escape.
theorem accepts_cons (h1 : c ≠ '%') (h2 : c ≠ '_') (h3 : c = '\\' → pattern = []) (s : List Char)
    : accepts (c :: pattern) s = true ↔ ∃ t, s = c :: t ∧ accepts pattern t = true := by
  cases s with
  | nil | cons x s =>
    rw [accepts.eq_def]
    split <;> simp_all

theorem accepts_literal_cons (hc : literal c) (pattern s : List Char)
    : accepts (c :: pattern) s = true ↔ ∃ t, s = c :: t ∧ accepts pattern t = true := by
  obtain ⟨h1, h2, h3⟩ := ne_of_literal hc
  exact accepts_cons h1 h2 (fun h => absurd h h3) s

theorem accepts_literal (hd : ∀ c ∈ d, literal c) (s)
    : accepts (d ++ ['%']) s = true ↔ d <+: s := by
  induction d generalizing s with
  | nil => simp [accepts_percent]
  | cons c d ih =>
    rw [cons_append, accepts_literal_cons (hd c mem_cons_self)]
    simp only [ih fun x hx => hd x (mem_cons_of_mem _ hx)]
    constructor
    . rintro ⟨t, rfl, ht⟩
      exact (prefix_cons_inj c).mpr ht
    . rintro ⟨t, rfl⟩
      exact ⟨d ++ t, rfl, prefix_append d t⟩

theorem accepts_percent_cons (x : Char) (h : accepts pattern s = true)
    : accepts ('%' :: pattern) (x :: s) = true := by
  rw [accepts, any_eq_true]
  exact ⟨s, (mem_tails _ _).mpr (suffix_cons x s), h⟩

theorem accepts_map_append (f) (hf : ∀ c, literal c → f c = c) (hd : '\\' ∉ d) (s)
    : accepts (d ++ ['%']) (d.map f ++ s) = true := by
  induction d with
  | nil => exact accepts_percent s
  | cons c d ih =>
    rw [mem_cons, not_or] at hd
    specialize ih hd.2
    rw [map_cons, cons_append, cons_append]
    by_cases hc : literal c
    . rw [accepts_literal_cons hc, hf c hc]
      exact ⟨_, rfl, ih⟩
    . by_cases hpercent : c = '%'
      . subst hpercent
        exact accepts_percent_cons _ ih
      . have hunder : c = '_' := by
          simpa [literal, hpercent, Ne.symm hd.1] using hc
        subst hunder
        rw [accepts]
        exact ih

theorem accepts_map (f) (hf : ∀ c, literal c → f c = c) (hd : '\\' ∉ d)
    : accepts (d ++ ['%']) (d.map f) = true := by
  have h := accepts_map_append f hf hd []
  rwa [append_nil] at h

end Like
