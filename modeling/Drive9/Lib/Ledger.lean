import Mathlib.Logic.Function.Basic
import Mathlib.Tactic.Common

/-!
This module contains a ledger of keys: every key that was ever put is in one place, and the
operations move keys between the places.
-/

structure Ledger (κ ρ : Type) where
  puts : List κ
  candidates : List κ
  gone : κ → Prop
  current : Option κ
  held : ρ → Option κ

namespace Ledger

variable {κ ρ : Type} {l l' : Ledger κ ρ}

structure Balanced (l : Ledger κ ρ) : Prop where
  current : ∀ k, l.current = some k → k ∈ l.puts ∧ k ∉ l.candidates
  candidates : ∀ k ∈ l.candidates, k ∈ l.puts
  held : ∀ r k, l.held r = some k → k ∈ l.puts ∧ k ∉ l.candidates ∧ l.current ≠ some k
  unique : ∀ r r' k, l.held r = some k → l.held r' = some k → r = r'
  accounted : ∀ k ∈ l.puts, l.current = some k ∨ l.gone k ∨ k ∈ l.candidates
    ∨ ∃ r, l.held r = some k

namespace Balanced

theorem congr (h : l.Balanced) (hputs : ∀ k, k ∈ l'.puts ↔ k ∈ l.puts)
    (hcand : ∀ k, k ∈ l'.candidates ↔ k ∈ l.candidates) (hgone : l'.gone = l.gone)
    (hcurrent : l'.current = l.current) (hheld : l'.held = l.held)
    : l'.Balanced := by
  constructor
  . intro k
    rw [hcurrent, hputs, hcand]
    exact h.current k
  . intro k
    rw [hputs, hcand]
    exact h.candidates k
  . intro r k
    rw [hheld, hputs, hcand, hcurrent]
    exact h.held r k
  . rw [hheld]
    exact h.unique
  . intro k
    rw [hputs, hcurrent, hgone, hcand, hheld]
    exact h.accounted k

variable [DecidableEq ρ] {gone : κ → Prop}

theorem held_of_update (h : Function.update l.held r v r' = some k)
    : r' = r ∧ v = some k ∨ r' ≠ r ∧ l.held r' = some k := by
  by_cases heq : r' = r
  . rw [heq, Function.update_self] at h
    exact .inl ⟨heq, h⟩
  . rw [Function.update_of_ne heq] at h
    exact .inr ⟨heq, h⟩

theorem unique_update (h : l.Balanced) (hv : ∀ r' k, l.held r' = some k → r' ≠ r → v ≠ some k)
    (h1 : Function.update l.held r v r1 = some k) (h2 : Function.update l.held r v r2 = some k)
    : r1 = r2 := by
  obtain ⟨heq1, h1⟩ | ⟨hne1, h1⟩ := held_of_update h1
  . obtain ⟨heq2, _⟩ | ⟨hne2, h2⟩ := held_of_update h2
    . rw [heq1, heq2]
    . exact absurd h1 (hv r2 k h2 hne2)
  . obtain ⟨_, h2⟩ | ⟨_, h2⟩ := held_of_update h2
    . exact absurd h2 (hv r1 k h1 hne1)
    . exact h.unique r1 r2 k h1 h2

theorem put (h : l.Balanced) (hr : l.held r = none) (hk : k ∉ l.puts)
    (hgone : ∀ x ∈ l.puts, l.gone x → gone x)
    : Balanced { l with
        puts := k :: l.puts
        gone := gone
        held := Function.update l.held r (some k) } := by
  constructor
  . intro x hx
    obtain ⟨hput, hcand⟩ := h.current x hx
    exact ⟨List.mem_cons_of_mem k hput, hcand⟩
  . intro x hx
    exact List.mem_cons_of_mem k (h.candidates x hx)
  . intro r' x hx
    obtain ⟨_, hx⟩ | ⟨_, hx⟩ := held_of_update hx
    . cases hx
      exact ⟨List.mem_cons_self, fun hc => hk (h.candidates k hc), fun hc => hk (h.current k hc).1⟩
    . obtain ⟨hput, hcand, hcur⟩ := h.held r' x hx
      exact ⟨List.mem_cons_of_mem k hput, hcand, hcur⟩
  . intro r1 r2 x
    apply h.unique_update
    rintro r' _ hheld _ ⟨⟩
    exact hk (h.held r' k hheld).1
  . intro x hx
    dsimp only
    cases List.mem_cons.mp hx with
    | inl heq =>
      rw [heq]
      exact .inr (.inr (.inr ⟨r, Function.update_self _ _ _⟩))
    | inr hput =>
      obtain hcur | hg | hcand | ⟨r', hheld⟩ := h.accounted x hput
      . exact .inl hcur
      . exact .inr (.inl (hgone x hput hg))
      . exact .inr (.inr (.inl hcand))
      . refine .inr (.inr (.inr ⟨r', ?_⟩))
        rw [Function.update_of_ne]
        . exact hheld
        . rintro rfl
          rw [hr] at hheld
          contradiction

theorem swap (h : l.Balanced) (r : ρ)
    : Balanced { l with
        current := l.held r
        held := Function.update l.held r l.current } := by
  constructor
  . intro x hx
    obtain ⟨hput, hcand, _⟩ := h.held r x hx
    exact ⟨hput, hcand⟩
  . exact h.candidates
  . intro r' x hx
    obtain ⟨_, hx⟩ | ⟨hne, hx⟩ := held_of_update hx
    . obtain ⟨hput, hcand⟩ := h.current x hx
      exact ⟨hput, hcand, fun hc => (h.held r x hc).2.2 hx⟩
    . obtain ⟨hput, hcand, _⟩ := h.held r' x hx
      exact ⟨hput, hcand, fun hc => hne (h.unique r' r x hx hc)⟩
  . intro r1 r2 x
    apply h.unique_update
    exact fun r' k hheld _ => (h.held r' k hheld).2.2
  . intro x hx
    dsimp only
    obtain hcur | hg | hcand | ⟨r', hheld⟩ := h.accounted x hx
    . refine .inr (.inr (.inr ⟨r, ?_⟩))
      rw [Function.update_self]
      exact hcur
    . exact .inr (.inl hg)
    . exact .inr (.inr (.inl hcand))
    . by_cases heq : r' = r
      . rw [heq] at hheld
        exact .inl hheld
      . refine .inr (.inr (.inr ⟨r', ?_⟩))
        rw [Function.update_of_ne heq]
        exact hheld

theorem delete (h : l.Balanced) (hr : l.held r = some k) (hk : gone k)
    (hgone : ∀ x, l.gone x → gone x)
    : Balanced { l with
        gone := gone
        held := Function.update l.held r none } := by
  constructor
  . exact h.current
  . exact h.candidates
  . intro r' x hx
    obtain ⟨_, hx⟩ | ⟨_, hx⟩ := held_of_update hx
    . contradiction
    . exact h.held r' x hx
  . intro r1 r2 x
    apply h.unique_update
    exact fun _ _ _ _ => nofun
  . intro x hx
    dsimp only
    obtain hcur | hg | hcand | ⟨r', hheld⟩ := h.accounted x hx
    . exact .inl hcur
    . exact .inr (.inl (hgone x hg))
    . exact .inr (.inr (.inl hcand))
    . by_cases heq : r' = r
      . rw [heq, hr] at hheld
        cases hheld
        exact .inr (.inl hk)
      . refine .inr (.inr (.inr ⟨r', ?_⟩))
        rw [Function.update_of_ne heq]
        exact hheld

theorem enqueue (h : l.Balanced) (hr : l.held r = some k)
    : Balanced { l with
        candidates := k :: l.candidates
        held := Function.update l.held r none } := by
  obtain ⟨hput, _, hcur⟩ := h.held r k hr
  constructor
  . intro x hx
    obtain ⟨hxput, hxcand⟩ := h.current x hx
    refine ⟨hxput, ?_⟩
    intro hc
    cases List.mem_cons.mp hc with
    | inl heq =>
      rw [heq] at hx
      exact hcur hx
    | inr hc => exact hxcand hc
  . intro x hx
    cases List.mem_cons.mp hx with
    | inl heq =>
      rw [heq]
      exact hput
    | inr hx => exact h.candidates x hx
  . intro r' x hx
    obtain ⟨_, hx⟩ | ⟨hne, hx⟩ := held_of_update hx
    . contradiction
    obtain ⟨hxput, hxcand, hxcur⟩ := h.held r' x hx
    refine ⟨hxput, ?_, hxcur⟩
    intro hc
    cases List.mem_cons.mp hc with
    | inl heq =>
      rw [heq] at hx
      exact hne (h.unique r' r k hx hr)
    | inr hc => exact hxcand hc
  . intro r1 r2 x
    apply h.unique_update
    exact fun _ _ _ _ => nofun
  . intro x hx
    dsimp only
    obtain hcur | hg | hcand | ⟨r', hheld⟩ := h.accounted x hx
    . exact .inl hcur
    . exact .inr (.inl hg)
    . exact .inr (.inr (.inl (List.mem_cons_of_mem k hcand)))
    . by_cases heq : r' = r
      . rw [heq, hr] at hheld
        cases hheld
        exact .inr (.inr (.inl List.mem_cons_self))
      . refine .inr (.inr (.inr ⟨r', ?_⟩))
        rw [Function.update_of_ne heq]
        exact hheld

end Balanced

end Ledger
