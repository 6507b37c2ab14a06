import Drive9.Datastore.Tasks.Lemmas

/-!
This module shows that a lease is exclusive: the row of a task that is being processed names the
latest claim of it, so whoever comes with an older receipt finds the task as it was.
-/

open List Option FMap

namespace Tasks

namespace TaskSystem

variable {κ π : Type} {q : Queue κ π} {s s' : TaskSystem κ π}

def Leased (s : TaskSystem κ π) (id : TaskID) (t : Task κ π) : Prop :=
  t.status = .processing
    → ∃ c, s.lastClaim? id = some c ∧ t.receipt = some c.receipt ∧ t.leaseUntil = some c.leaseUntil

structure Ok (s : TaskSystem κ π) : Prop where
  receipts : (s.claims.map Claim.receipt).Nodup
  leased : ∀ id t, s.table.get? id = some t → Leased s id t
  counted : ∀ id, s.claimsOf id = (s.table.get? id).elim 0 (·.attemptCount)

section

variable (s : TaskSystem κ π)

theorem lastClaim?_claim (table) (c : Claim) (id)
    : (⟨table, c :: s.claims⟩ : TaskSystem κ π).lastClaim? id
      = if c.taskID = id then some c else s.lastClaim? id := by
  unfold lastClaim?
  rw [find?_cons]
  split
  . next h => simp at h; simp [h]
  . next h => simp at h; simp [h]

theorem lastClaim?_renewClaims (table) (receipt) (leaseUntil) (id)
    : (⟨table, renewClaims s.claims receipt leaseUntil⟩ : TaskSystem κ π).lastClaim? id
      = (s.lastClaim? id).map fun c => if c.receipt = receipt then { c with leaseUntil } else c := by
  unfold lastClaim? renewClaims
  rw [find?_map]
  congr 2
  funext c
  dsimp only [Function.comp]
  split <;> rfl

theorem claimsOf_claim (table) (c : Claim) (id)
    : (⟨table, c :: s.claims⟩ : TaskSystem κ π).claimsOf id
      = s.claimsOf id + if c.taskID = id then 1 else 0 := by
  unfold claimsOf
  rw [countP_cons]
  simp

theorem claimsOf_renewClaims (table) (receipt) (leaseUntil) (id)
    : (⟨table, renewClaims s.claims receipt leaseUntil⟩ : TaskSystem κ π).claimsOf id
      = s.claimsOf id := by
  unfold claimsOf renewClaims
  rw [countP_map]
  congr 1
  funext c
  dsimp only [Function.comp]
  split <;> rfl

end

theorem receipts_renewClaims (claims : List Claim) (receipt) (leaseUntil)
    : (renewClaims claims receipt leaseUntil).map Claim.receipt = claims.map Claim.receipt := by
  unfold renewClaims
  rw [List.map_map]
  apply List.map_congr_left
  intro c _
  dsimp only [Function.comp]
  split <;> rfl

namespace Ok

theorem init : Ok (init : TaskSystem κ π) := by
  constructor
  . exact nodup_nil
  . intro id t h
    contradiction
  . intro id
    rfl

section

variable (hok : Ok s) {id : TaskID}

include hok

theorem set (ht : t.status ≠ .processing) (hcount : t.attemptCount = s.claimsOf id)
    : Ok { s with table := s.table.set id t } := by
  constructor
  . exact hok.receipts
  . intro id' t' h
    cases of_get?_set h with
    | inl heq =>
      rw [heq.2]
      intro hproc
      exact absurd hproc ht
    | inr hne => exact hok.leased id' t' hne.2
  . intro id'
    rw [get?_set]
    split
    . next heq =>
      rw [heq]
      exact hcount.symm
    . exact hok.counted id'

theorem claimsOf_eq (hget : s.table.get? id = some t) : s.claimsOf id = t.attemptCount := by
  rw [hok.counted, hget, elim_some]

theorem claim_eq {id id' : TaskID} (hc : s.lastClaim? id = some c)
    (hc' : s.lastClaim? id' = some c') (heq : c.receipt = c'.receipt)
    : id = id' := by
  have hmem := mem_of_find?_eq_some hc
  have hmem' := mem_of_find?_eq_some hc'
  have hsame : c = c' := inj_on_of_nodup_map hok.receipts hmem hmem' heq
  have hid := find?_some hc
  have hid' := find?_some hc'
  simp at hid hid'
  rw [← hid, ← hid', hsame]

theorem holder (hget : s.table.get? id = some t) (hholds : t.holdsScanned receipt now)
    : ∃ c, s.lastClaim? id = some c ∧ c.receipt = receipt ∧ now < c.leaseUntil := by
  obtain ⟨hproc, hreceipt, huntil⟩ := Task.of_holdsScanned hholds
  obtain ⟨c, hc, hcr, hcu⟩ := hok.leased id t hget hproc
  rw [hcr, getD_some] at hreceipt
  rw [hcu, any_some, decide_eq_true_iff] at huntil
  exact ⟨c, hc, hreceipt, huntil⟩

theorem claimed (hget : s.table.get? id = some t) (hfresh : ∀ c ∈ s.claims, c.receipt ≠ receipt)
    : Ok ⟨s.table.set id (t.claimed receipt now leaseUntil), ⟨id, receipt, leaseUntil⟩ :: s.claims⟩ := by
  constructor
  . rw [map_cons, nodup_cons]
    apply And.intro
    . simpa using hfresh
    . exact hok.receipts
  . intro id' t' h hproc
    rw [lastClaim?_claim]
    cases of_get?_set h with
    | inl heq =>
      rw [heq.1, heq.2, if_pos rfl]
      exact ⟨_, rfl, rfl, rfl⟩
    | inr hne =>
      rw [if_neg (Ne.symm hne.1)]
      exact hok.leased id' t' hne.2 hproc
  . intro id'
    rw [claimsOf_claim]
    rw [get?_set]
    by_cases heq : id' = id
    . rw [heq, if_pos rfl, if_pos rfl, hok.claimsOf_eq hget]
      rfl
    . rw [if_neg heq, if_neg (Ne.symm heq)]
      exact hok.counted id'

theorem renewed (hget : s.table.get? id = some t) (hholds : t.holds receipt now)
    : Ok ⟨s.table.set id (t.renewed now leaseUntil), renewClaims s.claims receipt leaseUntil⟩ := by
  obtain ⟨c, hc, hcr, -⟩ := hok.holder hget (Task.holdsScanned_of_holds hholds)
  constructor
  . rw [receipts_renewClaims]
    exact hok.receipts
  . intro id' t' h hproc
    rw [lastClaim?_renewClaims]
    cases of_get?_set h with
    | inl heq =>
      obtain ⟨-, hreceipt, -⟩ := Task.of_holds hholds
      rw [heq.1, heq.2, hc, map_some, if_pos hcr]
      refine ⟨_, rfl, ?_, rfl⟩
      rw [hcr]
      exact hreceipt
    | inr hne =>
      obtain ⟨c', hc', hleased⟩ := hok.leased id' t' hne.2 hproc
      have hother : c'.receipt ≠ receipt := by
        intro heq
        apply hne.1
        apply hok.claim_eq hc' hc
        rw [heq, hcr]
      rw [hc', map_some, if_neg hother]
      exact ⟨c', rfl, hleased⟩
  . intro id'
    rw [claimsOf_renewClaims]
    rw [get?_set]
    split
    . next heq =>
      rw [heq, hok.claimsOf_eq hget]
      rfl
    . exact hok.counted id'

theorem recovered (now limit) (locked)
    : Ok { s with table := (recoverExpired now limit locked s.table).2 } := by
  constructor
  . exact hok.receipts
  . intro id t h
    cases get?_recoverExpired now limit locked s.table id with
    | inl hsame =>
      rw [hsame] at h
      exact hok.leased id t h
    | inr hrec =>
      obtain ⟨t', -, -, heq⟩ := hrec
      rw [heq] at h
      cases h
      intro hproc
      contradiction
  . intro id
    change s.claimsOf id = _
    cases get?_recoverExpired now limit locked s.table id with
    | inl hsame =>
      rw [hsame]
      exact hok.counted id
    | inr hrec =>
      obtain ⟨t', hget, -, heq⟩ := hrec
      rw [heq, hok.claimsOf_eq hget]
      rfl

end

variable [DecidableEq κ] {label : TaskLabel κ π}

theorem step (hok : Ok s) (h : TaskSystem.step q s label = some s') : Ok s' := by
  cases step_cases h with
  | idle => exact hok
  | created hlabel hnone =>
    apply hok.set
    . intro hproc
      contradiction
    . rw [hok.counted, hnone]
      rfl
  | requeued hget hsemantic hkey =>
    apply hok.set
    . intro hproc
      contradiction
    . rw [hok.claimsOf_eq hget]
      rfl
  | claimed hget hqueued hfresh => exact hok.claimed hget hfresh
  | settled hlabel hget hholds hsettled =>
    apply hok.set hsettled.released
    rw [hok.claimsOf_eq hget, hsettled.attemptCount]
  | renewed hget hholds => exact hok.renewed hget hholds
  | recovered now limit locked => exact hok.recovered now limit locked

theorem exec (hok : Ok s) (h : Lts.exec (TaskSystem.step q) s labels = some s') : Ok s' := by
  induction labels generalizing s with
  | nil =>
    cases h
    exact hok
  | cons label labels ih =>
    obtain ⟨s1, hstep, hrest⟩ := Lts.of_exec_cons h
    exact ih (hok.step hstep) hrest

end Ok

/--
The step may put the task back in place: it is the requeueing of a semantic task with the key of
this one.
-/
def requeues [DecidableEq κ] (s : TaskSystem κ π) (id : TaskID) (label : TaskLabel κ π) : Bool :=
  match label with
  | .ensureQueued _ task => (s.table.get? id).any (·.key = task.key)
  | _ => false

variable [DecidableEq κ] {label : TaskLabel κ π} {id : TaskID} {t : Task κ π}

theorem changed_by_holder (hok : Ok s) (hstep : step q s label = some s')
    (hlabel : label.presents? = some (id, receipt, now))
    (hchanged : s'.table.get? id' ≠ s.table.get? id')
    : id' = id ∧ ∃ c, s.lastClaim? id = some c ∧ c.receipt = receipt ∧ now < c.leaseUntil := by
  cases step_cases hstep with
  | idle | requeued hget hsemantic hkey | claimed hget hqueued hfresh | recovered now limit locked => contradiction
  | created hnot hnone =>
    rw [hnot] at hlabel
    contradiction
  | settled hlabel' hget hholds hsettled =>
    cases hlabel.symm.trans hlabel'
    apply And.intro
    . apply Classical.byContradiction
      intro hne
      apply hchanged
      exact get?_set_ne _ _ hne
    . exact hok.holder hget hholds
  | renewed hget hholds =>
    cases hlabel
    apply And.intro
    . apply Classical.byContradiction
      intro hne
      apply hchanged
      exact get?_set_ne _ _ hne
    . exact hok.holder hget (Task.holdsScanned_of_holds hholds)

section

variable (hget : s.table.get? id = some t)
  (hdone : t.status = .succeeded ∨ t.status = .deadLettered)

include hget hdone

theorem done_of_step
    (hstep : step q s label = some s') (hkept : s.requeues id label = false)
    : s'.table.get? id = some t := by
  have hnot : ∀ {id' : TaskID} {t1 t2 : Task κ π}, s.table.get? id' = some t1
      → t1.status = .queued ∨ t1.status = .processing → (s.table.set id' t2).get? id = some t := by
    intro id' t1 t2 hget' hstatus
    apply (get?_set_ne _ _ _).trans hget
    intro heq
    rw [heq, hget'] at hget
    cases hget
    cases hdone with
    | inl h | inr h => simp [h] at hstatus
  cases step_cases hstep with
  | idle => exact hget
  | created hlabel hnone =>
    apply (get?_set_ne _ _ _).trans hget
    intro heq
    rw [heq, hnone] at hget
    contradiction
  | requeued hget' hsemantic hkey =>
    apply (get?_set_ne _ _ _).trans hget
    intro heq
    unfold requeues at hkept
    rw [heq, hget'] at hkept
    simp [hkey] at hkept
  | claimed hget' hqueued hfresh => exact hnot hget' (.inl hqueued)
  | settled hlabel hget' hholds hsettled => exact hnot hget' (.inr (Task.of_holdsScanned hholds).1)
  | renewed hget' hholds => exact hnot hget' (.inr (Task.of_holds hholds).1)
  | recovered now limit locked =>
    cases get?_recoverExpired now limit locked s.table id with
    | inl hsame => exact hsame.trans hget
    | inr hrec =>
      obtain ⟨t', hget', hexp, -⟩ := hrec
      have hproc := Task.status_of_expired hexp
      rw [hget'] at hget
      cases hget
      rw [hproc] at hdone
      simp at hdone

theorem done_of_exec
    (hkept : Lts.Along (step q) (fun s label => s.requeues id label = false) s labels)
    (hexec : Lts.exec (step q) s labels = some s')
    : s'.table.get? id = some t := by
  apply Lts.exec_invariant _ (fun s => s.table.get? id = some t) _ hget hkept hexec
  intro s1 label s2 hget1 hkept1 hstep
  exact done_of_step hget1 hdone hstep hkept1

end

theorem leases_are_exclusive {labels : List (TaskLabel κ π)}
    (hexec : Lts.exec (step q) init labels = some s)
    : (s.claims.map Claim.receipt).Nodup
      ∧ (∀ label s' id receipt now, step q s label = some s' → label.presents? = some (id, receipt, now)
          → ∀ id', s'.table.get? id' ≠ s.table.get? id'
          → id' = id ∧ ∃ c, s.lastClaim? id = some c ∧ c.receipt = receipt ∧ now < c.leaseUntil)
      ∧ ∀ id t, s.table.get? id = some t → t.status = .succeeded ∨ t.status = .deadLettered
          → ∀ labels' s', Lts.Along (step q) (fun s label => s.requeues id label = false) s labels'
          → Lts.exec (step q) s labels' = some s'
          → s'.table.get? id = some t ∧ s'.claimsOf id = s.claimsOf id := by
  have hok : Ok s := Ok.init.exec hexec
  refine ⟨hok.receipts, ?_, ?_⟩
  . intro label s' id receipt now hstep hlabel id' hchanged
    exact changed_by_holder hok hstep hlabel hchanged
  . intro id t hget hdone labels' s' hkept hexec'
    have hget' := done_of_exec hget hdone hkept hexec'
    apply And.intro hget'
    rw [(hok.exec hexec').claimsOf_eq hget', hok.claimsOf_eq hget]

def semanticTask (maxAttempts : Int) : NewTask SemanticKey Str :=
  ⟨['t'], ⟨['e'], ['f'], 1⟩, [], maxAttempts, none, none, none⟩

-- Without an ID of its own the task gets that of the file.
def fileGCTask (maxAttempts : Int) : NewTask Str FileGCData :=
  ⟨[' '], ['t'], ⟨['s', '3'], ['b'], 1, []⟩, maxAttempts, none, none, none⟩

-- A worker that comes after its lease ran out finds the task with the worker that claimed it next.
def reclaimLabels (task : NewTask κ π) : List (TaskLabel κ π) :=
  [.enqueue 0 task, .claim 0 30 [] [] ['r'], .recoverExpired 31 0 [], .claim 31 30 [] [] ['q'],
    .ack 32 ['t'] ['r'], .ack 33 ['t'] ['q']]

theorem leases_are_exclusive_reclaimed
    : (∃ s, Lts.exec (step semanticTasks) init (reclaimLabels (semanticTask 5)) = some s
        ∧ (s.claims.map Claim.receipt).Nodup ∧ (s.table.get? ['t']).any (·.status = .succeeded))
      ∧ ∃ s, Lts.exec (step fileGCTasks) init (reclaimLabels (fileGCTask 5)) = some s
        ∧ (s.claims.map Claim.receipt).Nodup ∧ (s.table.get? ['t']).any (·.status = .succeeded) := by
  constructor
  all_goals
    apply Lts.exists_of_any (fun s => (s.table.get? ['t']).any (·.status = .succeeded))
      (by decide +kernel)
    intro s hexec hdone
    exact ⟨(leases_are_exclusive hexec).1, hdone⟩

end TaskSystem

end Tasks
