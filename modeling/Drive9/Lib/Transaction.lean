import Mathlib.Tactic.Common

/-!
This module contains programs that run on a state and may fail, in which case what they did is lost:
the transactions of a database.
-/

namespace Transaction

variable {σ ε α β γ : Type}

def require (c : Prop) [Decidable c] (err : ε) : StateT σ (Except ε) Unit :=
  if c then pure () else throw err

def Keeps (f : σ → γ) (x : StateT σ (Except ε) α) : Prop := ∀ s a s', x s = .ok (a, s') → f s' = f s

variable {x : StateT σ (Except ε) α} {err : ε}

theorem of_bind (h : (x >>= k) s = .ok (b, s'))
    : ∃ a s1, x s = .ok (a, s1) ∧ k a s1 = .ok (b, s') := by
  change (x s >>= fun r => k r.1 r.2) = .ok (b, s') at h
  cases hx : x s with
  | error err =>
    rw [hx] at h
    contradiction
  | ok r =>
    rw [hx] at h
    exact ⟨r.1, r.2, rfl, h⟩

theorem bind_of_ok (h : x s = .ok (a, s')) : (x >>= k) s = k a s' := by
  change (x s >>= fun r => k r.1 r.2) = _
  rw [h]
  rfl

theorem require_of [Decidable c] (h : c) (err) (s : σ)
    : (require c err : StateT σ (Except ε) Unit) s = .ok ((), s) := by
  unfold require
  rw [if_pos h]
  rfl

theorem of_require [Decidable c] (h : (require c err : StateT σ (Except ε) Unit) s = .ok (a, s'))
    : c ∧ s = s' := by
  unfold require at h
  split at h
  . next hc =>
    cases h
    exact ⟨hc, rfl⟩
  . cases h

theorem of_get (h : ((get : StateT σ (Except ε) σ) >>= k) s = .ok (b, s')) : k s s = .ok (b, s') :=
  h

theorem of_require_bind [Decidable c]
    (h : ((require c err : StateT σ (Except ε) Unit) >>= k) s = .ok (b, s'))
    : c ∧ k () s = .ok (b, s') := by
  obtain ⟨_, _, hreq, h⟩ := of_bind h
  obtain ⟨hc, rfl⟩ := of_require hreq
  exact ⟨hc, h⟩

theorem of_tryCatch_throw {g : ε → ε} (h : (tryCatch x fun err => throw (g err)) s = .ok (a, s'))
    : x s = .ok (a, s') := by
  change MonadExcept.tryCatch (x s) (fun err => (throw (g err) : StateT σ (Except ε) α) s) = .ok (a, s') at h
  cases hs : x s with
  | error err =>
    rw [hs] at h
    cases h
  | ok r =>
    rw [hs] at h
    exact h

namespace Keeps

variable {f : σ → γ}

theorem pure (a : α) : Keeps f (pure a : StateT σ (Except ε) α) := by
  intro s a' s' h
  cases h
  rfl

theorem get : Keeps f (get : StateT σ (Except ε) σ) := by
  intro s a s' h
  cases h
  rfl

theorem throw (err) : Keeps f (throw err : StateT σ (Except ε) α) := by
  intro s a s' h
  cases h

theorem require (c : Prop) [Decidable c] (err)
    : Keeps f (require c err : StateT σ (Except ε) Unit) := by
  unfold Transaction.require
  split
  . exact pure ()
  . exact throw err

theorem modify (h : ∀ s, f (g s) = f s) : Keeps f (modify g : StateT σ (Except ε) Unit) := by
  intro s a s' hs
  cases hs
  exact h s

theorem bind (hx : Keeps f x) (hk : ∀ a, Keeps f (k a)) : Keeps f (x >>= k) := by
  intro s b s' h
  obtain ⟨a, s1, h1, h2⟩ := of_bind h
  rw [hk a s1 b s' h2, hx s a s1 h1]

theorem tryCatch (hx : Keeps f x) (hk : ∀ err, Keeps f (k err)) : Keeps f (tryCatch x k) := by
  intro s a s' h
  change MonadExcept.tryCatch (x s) (fun err => k err s) = .ok (a, s') at h
  cases hs : x s with
  | error err =>
    rw [hs] at h
    exact hk err s a s' h
  | ok r =>
    rw [hs] at h
    cases h
    exact hx s a s' hs

end Keeps

end Transaction
