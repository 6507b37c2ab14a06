import Drive9.Datastore.Tasks.Impl

/-!
This module contains what one transaction can do to the tasks: `TaskSystem.StepCase` has one case
for each way in which rows change.
-/

namespace Tasks

variable {κ π : Type}

namespace Task

variable {t : Task κ π} {receipt : Receipt} {now : Int}

theorem of_holds (h : t.holds receipt now)
    : t.status = .processing ∧ t.receipt = some receipt ∧ t.leaseUntil.any (now < ·) := by
  unfold holds at h
  simpa [and_assoc] using h

theorem of_holdsScanned (h : t.holdsScanned receipt now)
    : t.status = .processing ∧ t.receipt.getD [] = receipt ∧ t.leaseUntil.any (now < ·) := by
  unfold holdsScanned at h
  simpa [and_assoc] using h

theorem holdsScanned_of_holds (h : t.holds receipt now) : t.holdsScanned receipt now := by
  have hheld := of_holds h
  unfold holdsScanned
  simp [hheld]

theorem status_of_expired (h : t.expired now) : t.status = .processing := by
  unfold expired at h
  simp at h
  exact h.1

end Task

variable {q : Queue κ π} {table : TaskTable κ π} {id : TaskID}

theorem of_updateHeld (h : updateHeld id held f table = .ok table')
    : ∃ t, table.get? id = some t ∧ held t ∧ table' = table.set id (f t) := by
  unfold updateHeld at h
  split at h
  . contradiction
  . next t hget =>
    split at h
    . next hheld =>
      cases h
      exact ⟨t, hget, hheld, rfl⟩
    . contradiction

theorem mem_lockRows {cond : Task κ π → Bool} (h : (id, t) ∈ lockRows time cond locked table)
    : table.get? id = some t ∧ cond t := by
  unfold lockRows at h
  rw [List.mem_insertionSort, List.mem_filter, FMap.mem_toList] at h
  simp at h
  exact ⟨h.1, h.2.1⟩

theorem of_claimTask {t' : Task κ π}
    (h : claimTask q now leaseDuration types locked receipt table = .ok (some (id, t'), table'))
    : ∃ t, table.get? id = some t ∧ t.status = .queued
        ∧ table' = table.set id (t.claimed receipt now (now + leaseOr leaseDuration)) := by
  unfold claimTask at h
  cases hnorm : normalizeClaimTaskTypes types with
  | error e =>
    rw [hnorm] at h
    contradiction
  | ok types =>
    rw [hnorm] at h
    dsimp only [bind, Except.bind] at h
    split at h
    . cases h
    . next hhead =>
      cases h
      have hrow := mem_lockRows (List.mem_of_head? hhead)
      simp at hrow
      exact ⟨_, hrow.1, hrow.2.1.1, rfl⟩

theorem get?_foldl_recoverOne (now) (ids : List TaskID) (acc : Nat × TaskTable κ π) (id)
    : (ids.foldl (recoverOne now) acc).2.get? id = acc.2.get? id
      ∨ ∃ t, acc.2.get? id = some t ∧ t.expired now
          ∧ (ids.foldl (recoverOne now) acc).2.get? id = some (t.recovered now) := by
  induction ids generalizing acc with
  | nil => exact .inl rfl
  | cons i ids ih =>
    rw [List.foldl_cons]
    specialize ih (recoverOne now acc i)
    unfold recoverOne at ih ⊢
    split at ih
    . exact ih
    . next t hget =>
      split at ih
      . next hexp =>
        by_cases hid : id = i
        . subst hid
          rw [FMap.get?_set_self] at ih
          cases ih with
          | inl heq => exact .inr ⟨t, hget, hexp, by rw [if_pos hexp, heq]⟩
          | inr htwice =>
            obtain ⟨t', heq, hexp', -⟩ := htwice
            cases heq
            contradiction
        . rw [FMap.get?_set_ne _ _ hid] at ih
          rw [if_pos hexp]
          exact ih
      . next hexp =>
        rw [if_neg hexp]
        exact ih

theorem get?_recoverExpired (now limit) (locked) (table : TaskTable κ π) (id)
    : (recoverExpired now limit locked table).2.get? id = table.get? id
      ∨ ∃ t, table.get? id = some t ∧ t.expired now
          ∧ (recoverExpired now limit locked table).2.get? id = some (t.recovered now) := by
  apply get?_foldl_recoverOne

def TaskLabel.presents? : TaskLabel κ π → Option (TaskID × Receipt × Int)
  | .ack now taskID receipt => some (taskID, receipt, now)
  | .deadLetter now taskID receipt _ => some (taskID, receipt, now)
  | .renew now taskID receipt _ => some (taskID, receipt, now)
  | .retry now taskID receipt _ _ => some (taskID, receipt, now)
  | .enqueue .. | .ensureQueued .. | .claim .. | .recoverExpired .. => none

structure Settled (q : Queue κ π) (t t' : Task κ π) : Prop where
  released : t'.status ≠ .processing
  attemptCount : t'.attemptCount = t.attemptCount
  maxAttempts : t'.maxAttempts = t.maxAttempts
  key : t'.key = t.key
  notExhausted : t'.status = .queued → q.exhausted t = false

namespace Settled

theorem acked (q) (t : Task κ π) (now) : Settled q t (t.acked now) := by
  constructor <;> simp [Task.acked, Task.free]

theorem dead (q) (t : Task κ π) (lastErr) (now) : Settled q t (t.dead lastErr now) := by
  constructor <;> simp [Task.dead, Task.free]

theorem retried (h : q.exhausted t = false) (retryAt) (lastErr) (now)
    : Settled q t (t.retried retryAt lastErr now) := by
  constructor <;> simp [Task.retried, Task.free, h]

end Settled

namespace TaskSystem

theorem update_cases (s : TaskSystem κ π) (result)
    : s.update result = s ∨ ∃ table, result = .ok table ∧ s.update result = { s with table } := by
  cases result with
  | error e => exact .inl rfl
  | ok table => exact .inr ⟨table, rfl, rfl⟩

inductive StepCase (q : Queue κ π)
    (s : TaskSystem κ π) : TaskLabel κ π → TaskSystem κ π → Prop where
  | idle (label : TaskLabel κ π) : StepCase q s label s
  | created {label now task} (hlabel : label.presents? = none)
      (hnone : s.table.get? task.taskID = none)
    : StepCase q s label { s with table := s.table.set task.taskID (newRow q now task) }
  | requeued {now task id t} (hget : s.table.get? id = some t)
      (hsemantic : q.semantic) (hkey : t.key = task.key)
    : StepCase q s (.ensureQueued now task) { s with table := s.table.set id (requeue q now task t) }
  | claimed {now leaseDuration types locked receipt id t} (hget : s.table.get? id = some t)
      (hqueued : t.status = .queued)
      (hfresh : ∀ c ∈ s.claims, c.receipt ≠ receipt)
    : StepCase q s (.claim now leaseDuration types locked receipt)
        ⟨s.table.set id (t.claimed receipt now (now + leaseOr leaseDuration)),
          ⟨id, receipt, now + leaseOr leaseDuration⟩ :: s.claims⟩
  | settled {label id receipt now t t'}
      (hlabel : label.presents? = some (id, receipt, now)) (hget : s.table.get? id = some t)
      (hholds : t.holdsScanned receipt now) (hsettled : Settled q t t')
    : StepCase q s label { s with table := s.table.set id t' }
  | renewed {now leaseDuration receipt id t}
      (hget : s.table.get? id = some t) (hholds : t.holds receipt now)
    : StepCase q s (.renew now id receipt leaseDuration)
        ⟨s.table.set id (t.renewed now (now + leaseOr leaseDuration)),
          renewClaims s.claims receipt (now + leaseOr leaseDuration)⟩
  | recovered (now limit : Int) (locked : List TaskID)
    : StepCase q s (.recoverExpired now limit locked) { s with table := (recoverExpired now limit locked s.table).2 }

variable {s s' : TaskSystem κ π} {label : TaskLabel κ π}

theorem StepCase.of_updateHeld (hlabel : label.presents? = some (id, receipt, now))
    (hheld : ∀ t, held t → t.holdsScanned receipt now) (hf : ∀ t, Settled q t (f t))
    : StepCase q s label (s.update (updateHeld id held f s.table)) := by
  cases update_cases s (updateHeld id held f s.table) with
  | inl hsame =>
    rw [hsame]
    apply StepCase.idle
  | inr hdone =>
    obtain ⟨table, hok, hs⟩ := hdone
    obtain ⟨t, hget, ht, htable⟩ := Tasks.of_updateHeld hok
    rw [hs, htable]
    exact .settled hlabel hget (hheld t ht) (hf t)

end TaskSystem

variable [DecidableEq κ]

theorem of_byKey? (h : byKey? table key = some (id, t)) : table.get? id = some t ∧ t.key = key := by
  apply And.intro
  . exact FMap.mem_toList.mp (List.mem_of_find?_eq_some h)
  . simpa using List.find?_some h

theorem of_enqueueTask (h : enqueueTask q now task table = .ok (created, table'))
    : table' = table ∨ ∃ task', table.get? task'.taskID = none ∧ created = true
        ∧ table' = table.set task'.taskID (newRow q now task') := by
  unfold enqueueTask at h
  cases hprep : q.prepare task with
  | error e =>
    rw [hprep] at h
    contradiction
  | ok task' =>
    rw [hprep] at h
    dsimp only [bind, Except.bind] at h
    split at h
    . cases h
      exact .inl rfl
    . split at h
      . cases htaken : q.onTakenID with
        | error e =>
          rw [htaken] at h
          contradiction
        | ok b =>
          rw [htaken] at h
          cases h
          exact .inl rfl
      . next hid =>
        cases h
        exact .inr ⟨task', Option.not_isSome_iff_eq_none.mp hid, rfl, rfl⟩

namespace TaskSystem

variable {s s' : TaskSystem κ π} {label : TaskLabel κ π}

theorem StepCase.of_enqueueTask (hlabel : label.presents? = none) (now) (task)
    : StepCase q s label (s.update ((enqueueTask q now task s.table).map Prod.snd)) := by
  cases henq : enqueueTask q now task s.table with
  | error e => exact .idle label
  | ok result =>
    cases Tasks.of_enqueueTask henq with
    | inl hsame =>
      change StepCase q s label { s with table := result.2 }
      rw [hsame]
      exact .idle label
    | inr hcreated =>
      obtain ⟨task', hnone, -, htable⟩ := hcreated
      change StepCase q s label { s with table := result.2 }
      rw [htable]
      exact .created hlabel hnone

theorem StepCase.of_ensureTaskQueued (now) (task) (hsemantic : q.semantic)
    : StepCase q s (.ensureQueued now task) (s.update ((ensureTaskQueued q now task s.table).map Prod.snd)) := by
  unfold ensureTaskQueued
  cases henq : enqueueTask q now task s.table with
  | error e => exact .idle _
  | ok result =>
    obtain ⟨created, table⟩ := result
    have hcreated := Tasks.of_enqueueTask henq
    cases created with
    | true =>
      cases hcreated with
      | inl hsame =>
        subst hsame
        exact .idle _
      | inr hnew =>
        obtain ⟨task', hnone, -, htable⟩ := hnew
        subst htable
        exact .created rfl hnone
    | false =>
      have hsame : table = s.table := by
        cases hcreated with
        | inl hsame => exact hsame
        | inr hnew =>
          obtain ⟨task', -, hfalse, -⟩ := hnew
          contradiction
      subst hsame
      dsimp only [bind, Except.bind]
      rw [if_neg Bool.false_ne_true]
      split
      . exact .idle _
      . next id t hkey =>
        split
        . exact .idle _
        . obtain ⟨hget, heq⟩ := of_byKey? hkey
          exact .requeued hget hsemantic heq

theorem step_cases (h : step q s label = some s') : StepCase q s label s' := by
  unfold step at h
  cases label with
  | enqueue now task =>
    cases h
    apply StepCase.of_enqueueTask rfl
  | ensureQueued now task =>
    obtain ⟨hsemantic, rfl⟩ := Lts.of_guard h
    exact .of_ensureTaskQueued now task hsemantic
  | claim now leaseDuration types locked receipt =>
    dsimp only at h
    split at h
    . contradiction
    . next hfresh =>
      split at h
      . cases h
        apply StepCase.idle
      . cases h
        apply StepCase.idle
      . next hclaim =>
        cases h
        obtain ⟨t, hget, hqueued, htable⟩ := of_claimTask hclaim
        rw [htable]
        apply StepCase.claimed hget hqueued
        simpa using hfresh
  | ack now id receipt =>
    cases h
    apply StepCase.of_updateHeld rfl
    . intro t ht
      exact Task.holdsScanned_of_holds ht
    . intro t
      exact .acked q t now
  | deadLetter now id receipt lastErr =>
    obtain ⟨_, rfl⟩ := Lts.of_guard h
    apply StepCase.of_updateHeld rfl
    . intro t ht
      exact Task.holdsScanned_of_holds ht
    . intro t
      exact .dead q t lastErr now
  | renew now id receipt leaseDuration =>
    dsimp only at h
    split at h
    . split at h
      . cases h
        apply StepCase.idle
      . next hrenew =>
        cases h
        obtain ⟨t, hget, hholds, htable⟩ := Tasks.of_updateHeld hrenew
        rw [htable]
        exact .renewed hget hholds
    . contradiction
  | retry now id receipt retryAt lastErr =>
    cases h
    apply StepCase.of_updateHeld rfl
    . intro t ht
      exact ht
    . intro t
      split
      . exact .dead q t lastErr now
      . next hexh =>
        apply Settled.retried
        simpa using hexh
  | recoverExpired now limit locked =>
    cases h
    apply StepCase.recovered

end TaskSystem

end Tasks
