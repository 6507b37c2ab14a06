import Mathlib.Tactic.Common

/-!
This module contains machines that are driven by a list of inputs, answer each of them, and may
crash (`none`).
-/

namespace Machine

variable {σ τ ι ρ : Type}

def run (step : σ → ι → Option (σ × ρ)) (s : σ) (inputs : List ι) : Option (σ × List ρ) :=
  match inputs with
  | [] => some (s, [])
  | i :: is =>
    match step s i with
    | none => none
    | some (s, r) =>
      match run step s is with
      | none => none
      | some (s, rs) => some (s, r :: rs)

def specRun (spec : τ → ι → τ × ρ) (t : τ) (inputs : List ι) : τ × List ρ :=
  match inputs with
  | [] => (t, [])
  | i :: is => ((specRun spec (spec t i).1 is).1, (spec t i).2 :: (specRun spec (spec t i).1 is).2)

-- Every step of the run is taken in a state and on an input that meet `ok`.
def Steps (step : σ → ι → Option (σ × ρ)) (ok : σ → ι → Prop) (s : σ) (inputs : List ι) : Prop :=
  match inputs with
  | [] => True
  | i :: is =>
    ok s i ∧
      match step s i with
      | none => True
      | some (s, _) => Steps step ok s is

instance decidableSteps (step : σ → ι → Option (σ × ρ)) (ok : σ → ι → Prop)
    [∀ s i, Decidable (ok s i)]
    (s : σ) (inputs : List ι) : Decidable (Steps step ok s inputs) :=
  match inputs with
  | [] => .isTrue trivial
  | i :: is =>
    haveI : Decidable (match step s i with
        | none => True
        | some (s, _) => Steps step ok s is) :=
      match step s i with
      | none => .isTrue trivial
      | some (s, _) => decidableSteps step ok s is
    inferInstanceAs (Decidable (_ ∧ _))

theorem steps_of_forall (s : σ) (inputs : List ι) (h : ∀ i, i ∈ inputs → ok i)
    : Steps step (fun _ => ok) s inputs := by
  induction inputs generalizing s with
  | nil => trivial
  | cons i is ih =>
    constructor
    . apply h
      exact List.mem_cons_self
    . split
      . trivial
      . apply ih
        intro j hj
        apply h
        exact List.mem_cons_of_mem i hj

theorem run_refines (spec : τ → ι → τ × ρ) (ok : σ → ι → Prop) (rel : σ → τ → Prop)
    (hstep : ∀ s t i, rel s t → ok s i → ∃ s', step s i = some (s', (spec t i).2) ∧ rel s' (spec t i).1)
    (hrel : rel s t) (hok : Steps step ok s inputs)
    : ∃ s', run step s inputs = some (s', (specRun spec t inputs).2)
      ∧ rel s' (specRun spec t inputs).1 := by
  induction inputs generalizing s t with
  | nil => exact ⟨s, rfl, hrel⟩
  | cons i is ih =>
    rcases hok with ⟨hi, his⟩
    obtain ⟨s1, hs1, hrel1⟩ := hstep s t i hrel hi
    rw [hs1] at his
    obtain ⟨s2, hs2, hrel2⟩ := ih hrel1 his
    refine ⟨s2, ?_, hrel2⟩
    unfold run
    rw [hs1]
    dsimp only
    rw [hs2]
    rfl

theorem run_invariant (ok : σ → ι → Prop) (inv : σ → Prop)
    (hstep : ∀ s i, inv s → ok s i → ∃ s' r, step s i = some (s', r) ∧ inv s') (hinv : inv s)
    (hok : Steps step ok s inputs)
    : ∃ s' rs, run step s inputs = some (s', rs) ∧ inv s' := by
  induction inputs generalizing s with
  | nil => exact ⟨s, [], rfl, hinv⟩
  | cons i is ih =>
    rcases hok with ⟨hi, his⟩
    obtain ⟨s1, r, hs1, hinv1⟩ := hstep s i hinv hi
    rw [hs1] at his
    obtain ⟨s2, rs, hs2, hinv2⟩ := ih hinv1 his
    refine ⟨s2, r :: rs, ?_, hinv2⟩
    unfold run
    rw [hs1]
    dsimp only
    rw [hs2]

end Machine
