import Drive9.Datastore.Tasks.Lease

/-!
This module bounds how often a task is claimed.
-/

namespace Tasks

namespace TaskSystem

variable {κ π : Type}

/--
The step queues the task again although it has no attempts left: its lease ran out and is recovered.
-/
def recoversExhausted (s : TaskSystem κ π) (id : TaskID) (label : TaskLabel κ π) : Bool :=
  match label with
  | .recoverExpired now limit locked =>
    (s.table.get? id).any (fun t => t.expired now && t.maxAttempts ≤ t.attemptCount)
      && ((recoverExpired now limit locked s.table).2.get? id).any (·.status = .queued)
  | _ => false

def Bounded (n : Nat) (t : Task κ π) : Prop :=
  0 < t.maxAttempts → t.attemptCount ≤ t.maxAttempts + n ∧ (t.status = .queued → t.attemptCount < t.maxAttempts + n)

variable {q : Queue κ π} {s s' : TaskSystem κ π} {id : TaskID} {t t' : Task κ π} {n : Nat}

section

variable (h : Bounded n t)

include h

theorem Bounded.succ (k : Nat) : Bounded (n + k) t := by
  intro hmax
  obtain ⟨hle, hqueued⟩ := h hmax
  refine ⟨by omega, ?_⟩
  intro hq
  have hlt := hqueued hq
  omega

theorem Bounded.settled (hsettled : Settled q t t') : Bounded n t' := by
  intro hmax
  rw [hsettled.maxAttempts] at hmax ⊢
  rw [hsettled.attemptCount]
  refine ⟨(h hmax).1, ?_⟩
  intro hq
  have hleft := hsettled.notExhausted hq
  rw [Bool.eq_false_iff, ne_eq, q.exhausted_iff t hmax] at hleft
  omega

theorem Bounded.claimed (hqueued : t.status = .queued) (receipt : Receipt) (now leaseUntil : Int)
    : Bounded n (t.claimed receipt now leaseUntil) := by
  intro hmax
  have hlt := (h hmax).2 hqueued
  refine ⟨?_, ?_⟩
  . dsimp only [Task.claimed]
    omega
  . intro hq
    contradiction

theorem Bounded.recovered (now : Int)
    : Bounded (n + if t.maxAttempts ≤ t.attemptCount then 1 else 0) (t.recovered now) := by
  intro hmax
  have hle := (h hmax).1
  dsimp only [Task.recovered, Task.free]
  split
  all_goals
    refine ⟨by omega, ?_⟩
    intro _
    omega

end

variable [DecidableEq κ] {label : TaskLabel κ π}

def exhaustedRecoveries (q : Queue κ π) (id : TaskID) (s : TaskSystem κ π)
    (labels : List (TaskLabel κ π))
    : Nat :=
  match labels with
  | [] => 0
  | label :: labels =>
    match step q s label with
    | none => 0
    | some s' =>
      (if s.recoversExhausted id label then 1 else 0) + exhaustedRecoveries q id s' labels

section

variable (hbound : ∀ t, s.table.get? id = some t → Bounded n t)

include hbound

theorem bounded_of_step (hstep : step q s label = some s')
    (hkept : s.requeues id label = false)
    : ∀ t, s'.table.get? id = some t → Bounded (n + if s.recoversExhausted id label then 1 else 0) t := by
  intro t' hget'
  cases step_cases hstep with
  | idle => exact (hbound t' hget').succ _
  | created hlabel hnone =>
    cases FMap.of_get?_set hget' with
    | inl heq =>
      rw [heq.2]
      intro hmax
      dsimp only [newRow] at hmax ⊢
      omega
    | inr hne => exact (hbound t' hne.2).succ _
  | requeued hget hsemantic hkey =>
    cases FMap.of_get?_set hget' with
    | inl heq =>
      unfold requeues at hkept
      rw [heq.1, hget] at hkept
      simp [hkey] at hkept
    | inr hne => exact (hbound t' hne.2).succ _
  | claimed hget hqueued hfresh =>
    cases FMap.of_get?_set hget' with
    | inl heq =>
      rw [heq.2]
      rw [← heq.1] at hget
      exact ((hbound _ hget).claimed hqueued _ _ _).succ _
    | inr hne => exact (hbound t' hne.2).succ _
  | settled hlabel hget hholds hsettled =>
    cases FMap.of_get?_set hget' with
    | inl heq =>
      rw [heq.2]
      rw [← heq.1] at hget
      exact ((hbound _ hget).settled hsettled).succ _
    | inr hne => exact (hbound t' hne.2).succ _
  | renewed hget hholds =>
    cases FMap.of_get?_set hget' with
    | inl heq =>
      rw [heq.2]
      rw [← heq.1] at hget
      exact (hbound _ hget).succ _
    | inr hne => exact (hbound t' hne.2).succ _
  | recovered now limit locked =>
    cases get?_recoverExpired now limit locked s.table id with
    | inl hsame =>
      rw [hsame] at hget'
      exact (hbound t' hget').succ _
    | inr hrec =>
      obtain ⟨t, hget, hexp, heq⟩ := hrec
      rw [heq] at hget'
      cases hget'
      have hrecovers : s.recoversExhausted id (.recoverExpired now limit locked)
          = decide (t.maxAttempts ≤ t.attemptCount) := by
        unfold recoversExhausted
        dsimp only
        rw [hget, heq]
        simp [hexp, Task.recovered]
      rw [hrecovers]
      simpa using (hbound t hget).recovered now

theorem bounded_of_exec
    (hkept : Lts.Along (step q) (fun s label => s.requeues id label = false) s labels)
    (hexec : Lts.exec (step q) s labels = some s')
    : ∀ t, s'.table.get? id = some t → Bounded (n + exhaustedRecoveries q id s labels) t := by
  induction labels generalizing s n with
  | nil =>
    cases hexec
    exact hbound
  | cons label labels ih =>
    obtain ⟨s1, hstep, hrest⟩ := Lts.of_exec_cons hexec
    unfold Lts.Along at hkept
    unfold exhaustedRecoveries
    rw [hstep] at hkept ⊢
    rw [← Nat.add_assoc]
    exact ih (bounded_of_step hbound hstep hkept.1) hkept.2 hrest

end

-- Without recoveries of a task that has no attempts left, it is claimed at most `max_attempts`
-- times.
theorem claims_bounded_by_attempts {labels : List (TaskLabel κ π)}
    (hexec : Lts.exec (step q) init labels = some s)
    (hkept : Lts.Along (step q) (fun s label => s.requeues id label = false) init labels)
    (hget : s.table.get? id = some t) (hmax : 0 < t.maxAttempts)
    : s.claimsOf id ≤ t.maxAttempts + exhaustedRecoveries q id init labels := by
  have hnone : ∀ t : Task κ π, (init : TaskSystem κ π).table.get? id = some t → Bounded 0 t := by
    intro t h
    contradiction
  have hle := (bounded_of_exec hnone hkept hexec t hget hmax).1
  have hcount := (Ok.init.exec hexec).claimsOf_eq hget
  rw [hcount]
  omega

section Crash

def crashLabels (task : NewTask κ π) : List (TaskLabel κ π) :=
  [.enqueue 0 task, .claim 0 30 [] [] ['r'], .recoverExpired 31 0 [], .claim 31 30 [] [] ['q'],
    .retry 32 ['t'] ['q'] none none]

theorem claims_bounded_by_attempts_recovered
    : (∃ s t, Lts.exec (step semanticTasks) init (crashLabels (semanticTask 1)) = some s ∧ s.table.get? ['t'] = some t
        ∧ t.maxAttempts = 1 ∧ t.status = .deadLettered
        ∧ exhaustedRecoveries semanticTasks ['t'] init (crashLabels (semanticTask 1)) = 1
        ∧ s.claimsOf ['t']
          ≤ t.maxAttempts + exhaustedRecoveries semanticTasks ['t'] init (crashLabels (semanticTask 1)))
      ∧ ∃ s t, Lts.exec (step fileGCTasks) init (crashLabels (fileGCTask 1)) = some s
        ∧ s.table.get? ['t'] = some t
        ∧ t.maxAttempts = 1 ∧ t.status = .deadLettered
        ∧ exhaustedRecoveries fileGCTasks ['t'] init (crashLabels (fileGCTask 1)) = 1
        ∧ s.claimsOf ['t']
          ≤ t.maxAttempts + exhaustedRecoveries fileGCTasks ['t'] init (crashLabels (fileGCTask 1)) := by
  constructor
  all_goals
    apply Lts.exists₂_of_any (fun _ t => t.maxAttempts = 1 ∧ t.status = .deadLettered)
      (by decide +kernel)
    intro s t hexec hget ⟨hmax, hstatus⟩
    refine ⟨hmax, hstatus, by decide +kernel, ?_⟩
    apply claims_bounded_by_attempts hexec (by decide +kernel) hget
    rw [hmax]
    decide

theorem crashed_task_claimed_again
    : ∃ s t, Lts.exec (step semanticTasks) init (crashLabels (semanticTask 1)) = some s
      ∧ s.table.get? ['t'] = some t
        ∧ Lts.Along (step semanticTasks) (fun s label => s.requeues ['t'] label = false) init
            (crashLabels (semanticTask 1))
        ∧ t.maxAttempts = 1 ∧ s.claimsOf ['t'] = 2 := by
  apply Lts.exists₂_of_any (fun s t => t.maxAttempts = 1 ∧ s.claimsOf ['t'] = 2) (by decide +kernel)
  exact fun _ _ _ _ h => ⟨by decide +kernel, h⟩

end Crash

end TaskSystem

end Tasks
