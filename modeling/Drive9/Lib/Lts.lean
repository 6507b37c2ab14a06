import Mathlib.Tactic.Common

/-!
This module contains labelled transition systems given by a partial step function: a run is a list
of labels, each of them enabled where it is taken.
-/

namespace Lts

variable {σ α : Type}

def exec (step : σ → α → Option σ) (s : σ) (labels : List α) : Option σ :=
  match labels with
  | [] => some s
  | a :: as =>
    match step s a with
    | none => none
    | some s => exec step s as

-- Every step of the run is taken in a state and with a label that meet `ok`.
def Along (step : σ → α → Option σ) (ok : σ → α → Prop) (s : σ) (labels : List α) : Prop :=
  match labels with
  | [] => True
  | a :: as =>
    ok s a ∧
      match step s a with
      | none => True
      | some s => Along step ok s as

instance decidableAlong (step : σ → α → Option σ) (ok : σ → α → Prop) [∀ s a, Decidable (ok s a)]
    (s : σ) (labels : List α) : Decidable (Along step ok s labels) :=
  match labels with
  | [] => .isTrue trivial
  | a :: as =>
    haveI : Decidable (match step s a with
        | none => True
        | some s => Along step ok s as) :=
      match step s a with
      | none => .isTrue trivial
      | some s => decidableAlong step ok s as
    inferInstanceAs (Decidable (_ ∧ _))

variable {step : σ → α → Option σ} {s s' : σ} {o : Option σ}

theorem exec_invariant (ok : σ → α → Prop) (inv : σ → Prop)
    (hstep : ∀ s a s', inv s → ok s a → step s a = some s' → inv s') (hinv : inv s)
    (hok : Along step ok s labels) (hexec : exec step s labels = some s')
    : inv s' := by
  induction labels generalizing s with
  | nil =>
    cases hexec
    exact hinv
  | cons a as ih =>
    unfold exec at hexec
    rcases hok with ⟨ha, has⟩
    cases hs : step s a with
    | none =>
      rw [hs] at hexec
      contradiction
    | some s1 =>
      rw [hs] at hexec has
      exact ih (hstep s a s1 hinv ha hs) has hexec

theorem exec_length_le (inv : σ → Prop) (todo : σ → Nat)
    (hstep : ∀ s a s', inv s → step s a = some s' → inv s' ∧ todo s' < todo s) (hinv : inv s)
    (hexec : exec step s labels = some s')
    : inv s' ∧ labels.length + todo s' ≤ todo s := by
  induction labels generalizing s with
  | nil =>
    cases hexec
    exact ⟨hinv, Nat.le_of_eq (Nat.zero_add _)⟩
  | cons a as ih =>
    unfold exec at hexec
    cases hs : step s a with
    | none =>
      rw [hs] at hexec
      contradiction
    | some s1 =>
      rw [hs] at hexec
      obtain ⟨hinv1, hlt⟩ := hstep s a s1 hinv hs
      obtain ⟨hinv', hle⟩ := ih hinv1 hexec
      refine ⟨hinv', ?_⟩
      rw [List.length_cons]
      omega

-- A run on fixed labels is evaluated once, and what holds at its end is derived from what was seen
-- there.
theorem exists_of_any {p : σ → Prop} (seen : σ → Prop) [DecidablePred seen]
    (hany : (o.any fun s => seen s) = true) (h : ∀ s, o = some s → seen s → p s)
    : ∃ s, o = some s ∧ p s := by
  obtain ⟨s, hs, hseen⟩ := (Option.any_eq_true _ _).mp hany
  exact ⟨s, hs, h s hs (of_decide_eq_true hseen)⟩

theorem exists₂_of_any {f : σ → Option β} {p : σ → β → Prop} (seen : σ → β → Prop)
    [∀ s b, Decidable (seen s b)]
    (hany : (o.any fun s => (f s).any fun b => seen s b) = true)
    (h : ∀ s b, o = some s → f s = some b → seen s b → p s b)
    : ∃ s b, o = some s ∧ f s = some b ∧ p s b := by
  obtain ⟨s, hs, hany⟩ := (Option.any_eq_true _ _).mp hany
  obtain ⟨b, hb, hseen⟩ := (Option.any_eq_true _ _).mp hany
  exact ⟨s, b, hs, hb, h s b hs hb (of_decide_eq_true hseen)⟩

theorem of_guard [Decidable p] (h : (if p then some s else none) = some s') : p ∧ s' = s := by
  rw [Option.ite_none_right_eq_some] at h
  exact ⟨h.1, (Option.some.inj h.2).symm⟩

theorem along_and {p : α → Prop} (h : Along step ok s labels) (hp : ∀ a ∈ labels, p a)
    : Along step (fun s a => ok s a ∧ p a) s labels := by
  induction labels generalizing s with
  | nil => trivial
  | cons a as ih =>
    rw [List.forall_mem_cons] at hp
    rw [Along] at h ⊢
    refine ⟨⟨h.1, hp.1⟩, ?_⟩
    cases hs : step s a with
    | none => trivial
    | some s1 =>
      rw [hs] at h
      exact ih h.2 hp.2

theorem exec_append (step : σ → α → Option σ) (s : σ) (as bs : List α)
    : exec step s (as ++ bs) = (exec step s as).bind (fun s => exec step s bs) := by
  induction as generalizing s with
  | nil => rfl
  | cons a as ih =>
    rw [List.cons_append, exec, exec]
    cases step s a with
    | none => rfl
    | some s1 => exact ih s1

variable {a : α}

theorem exec_cons (h : step s a = some s1) (as : List α)
    : exec step s (a :: as) = exec step s1 as := by
  rw [exec, h]

variable {as : List α}

theorem of_exec_cons (h : exec step s (a :: as) = some s')
    : ∃ s1, step s a = some s1 ∧ exec step s1 as = some s' := by
  cases hs : step s a with
  | none =>
    rw [exec, hs] at h
    contradiction
  | some s1 =>
    rw [exec_cons hs] at h
    exact ⟨s1, rfl, h⟩

theorem exec_concat : exec step s
    (as ++ [a]) = some s' ↔ ∃ s1, exec step s as = some s1 ∧ step s1 a = some s' := by
  rw [exec_append, Option.bind_eq_some_iff]
  have hlast : ∀ s1, exec step s1 [a] = step s1 a := by
    intro s1
    rw [exec]
    cases step s1 a with
    | none | some s2 => rfl
  simp only [hlast]

theorem along_append (h : Along step ok s (as ++ bs)) (hexec : exec step s as = some s')
    : Along step ok s as ∧ Along step ok s' bs := by
  induction as generalizing s with
  | nil =>
    cases hexec
    exact ⟨trivial, h⟩
  | cons a as ih =>
    rw [List.cons_append, Along] at h
    rw [exec] at hexec
    rw [Along]
    cases hs : step s a with
    | none =>
      rw [hs] at hexec
      contradiction
    | some s1 =>
      rw [hs] at hexec h
      obtain ⟨h1, h2⟩ := ih h.2 hexec
      exact ⟨⟨h.1, h1⟩, h2⟩

end Lts
