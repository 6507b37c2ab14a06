import Drive9.Server.Fork.Impl

/-!
This module shows when a fork that is being deleted never comes back.
-/

namespace Fork

open Meta

namespace ForkSystem

def provisioning (s : ForkSystem) : Bool :=
  s.calls.toList.any fun row =>
    match row.2 with
    | .provision .. => true
    | _ => false

/--
The step marks the fork as deleting or as deleted.
-/
def marks (s : ForkSystem) (label : ForkLabel) : Bool :=
  match label with
  | .next call .ok =>
    match s.calls.get? call with
    | some (.delete t) => s.tenant.status = t.status
    | some (.cleanup _ .markDeleted) => true
    | _ => false
  | _ => false

def apart (s : ForkSystem) (label : ForkLabel) : Bool := !(s.marks label && s.provisioning)

def Gone (status : TenantStatus) : Prop := status = .deleting ∨ status = .deleted

structure Follows (s : ForkSystem) (label : ForkLabel) (s' : ForkSystem) : Prop where
  provision : ∀ c t stage, s'.calls.get? c = some (.provision t stage)
    → s.marks label = false ∧ s.tenant.status = .provisioning
      ∨ ∃ stage', s.calls.get? c = some (.provision t stage')
  delete : ∀ c t, s'.calls.get? c = some (.delete t)
    → ¬Gone t.status ∨ s.calls.get? c = some (.delete t)

variable {s s' : ForkSystem} {label : ForkLabel} {call : Nat} {t : ForkTenant}

namespace Follows

theorem refl (s) (label) : Follows s label s :=
  ⟨fun _ _ stage h => .inr ⟨stage, h⟩, fun _ _ h => .inr h⟩

theorem of_finish (hcalls : s'.calls = s.calls.del call) : Follows s label s' := by
  constructor
  . intro c t stage hget
    rw [hcalls] at hget
    exact .inr ⟨stage, (FMap.of_get?_del hget).2⟩
  . intro c t hget
    rw [hcalls] at hget
    exact .inr (FMap.of_get?_del hget).2

theorem of_goto (hcalls : s'.calls = s.calls.set call c) (hprov : ∀ t stage, c = .provision t stage
      → s.marks label = false ∧ s.tenant.status = .provisioning
        ∨ ∃ stage', s.calls.get? call = some (.provision t stage'))
    (hdel : ∀ t, c = .delete t → ¬Gone t.status)
    : Follows s label s' := by
  constructor
  . intro c' t stage hget
    rw [hcalls] at hget
    cases FMap.of_get?_set hget with
    | inl heq =>
      rw [heq.1]
      exact hprov t stage heq.2.symm
    | inr hne => exact .inr ⟨stage, hne.2⟩
  . intro c' t hget
    rw [hcalls] at hget
    cases FMap.of_get?_set hget with
    | inl heq => exact .inl (hdel t heq.2.symm)
    | inr hne => exact .inr hne.2

theorem of_provision (hget : s.calls.get? call = some (.provision t stage))
    (hcalls : s'.calls = s.calls.set call (.provision t stage'))
    : Follows s label s' := by
  apply of_goto hcalls
  . intro t' stage1 heq
    cases heq
    exact .inr ⟨stage, hget⟩
  . intro t' heq
    contradiction

theorem of_cleanup (hcalls : s'.calls = s.calls.set call (.cleanup t stage))
    : Follows s label s' := by
  apply of_goto hcalls
  . intro t' stage1 heq
    contradiction
  . intro t' heq
    contradiction

theorem provisionNext (hget : s.calls.get? call = some (.provision t stage)) (outcome)
    : Follows s label (s.provisionNext call t stage outcome) := by
  unfold ForkSystem.provisionNext
  split
  . unfold ForkSystem.connectBranch
    split
    . exact of_finish rfl
    . exact of_finish rfl
    all_goals
      split
      . exact of_provision hget rfl
      . exact of_finish rfl
  . split
    . exact of_finish rfl
    . cases stage with
      | connectBranch => exact refl s _
      | activate => exact of_finish rfl
      | _ => exact of_provision hget rfl

theorem deleteNext (outcome) : Follows s label (s.deleteNext call t outcome) := by
  unfold ForkSystem.deleteNext
  split
  . exact of_finish rfl
  . split
    . apply of_goto rfl
      . intro t' stage1 heq
        contradiction
      . intro t' heq
        contradiction
    . exact of_finish rfl

theorem cleanupNext (stage) (outcome) : Follows s label (s.cleanupNext call t stage outcome) := by
  unfold ForkSystem.cleanupNext
  split
  . split
    . exact of_finish rfl
    . split
      all_goals exact of_cleanup rfl
  . split
    . exact of_finish rfl
    . cases stage with
      | abortReservations => exact refl s _
      | markDeleted => exact of_finish rfl
      | _ => exact of_cleanup rfl

theorem step (h : ForkSystem.step s label = some s') : Follows s label s' := by
  unfold ForkSystem.step at h
  cases label with
  | provisionForkTenantOnce c =>
    obtain ⟨_, rfl⟩ := Lts.of_guard h
    unfold ForkSystem.provisionForkTenantOnce
    split
    . next hstatus =>
      apply of_goto rfl
      . intro t stage _
        exact .inl ⟨rfl, hstatus⟩
      . intro t heq
        contradiction
    . exact refl s _
  | handleForkDelete c =>
    obtain ⟨_, rfl⟩ := Lts.of_guard h
    unfold ForkSystem.handleForkDelete
    split
    . exact refl s _
    . exact refl s _
    . exact refl s _
    . next hkind hdeleted hdeleting =>
      apply of_goto rfl
      . intro t stage heq
        contradiction
      . intro t heq
        cases heq
        intro hgone
        cases hgone with
        | inl hstatus => exact hdeleting hstatus
        | inr hstatus => exact hdeleted hstatus
  | cleanupForkTenant c =>
    obtain ⟨_, rfl⟩ := Lts.of_guard h
    unfold ForkSystem.cleanupForkTenant
    split
    . exact refl s _
    . exact of_cleanup rfl
  | next c outcome =>
    dsimp only at h
    split at h
    . contradiction
    . next hget =>
      cases h
      exact provisionNext hget outcome
    . cases h
      apply deleteNext
    . cases h
      exact of_finish rfl
    . cases h
      apply cleanupNext

end Follows

inductive StatusCase (s : ForkSystem) (label : ForkLabel) : TenantStatus → Prop where
  | same : StatusCase s label s.tenant.status
  | activated {call : Nat} {t : ForkTenant} {stage : ProvisionStage}
      (hget : s.calls.get? call = some (.provision t stage)) : StatusCase s label .active
  | deleting {call : Nat} {t : ForkTenant} (hget : s.calls.get? call = some (.delete t))
      (hstatus : s.tenant.status = t.status) (hmarks : s.marks label = true) : StatusCase s label .deleting
  | deleted (hmarks : s.marks label = true) : StatusCase s label .deleted

theorem status_provisionNext (hget : s.calls.get? call = some (.provision t stage)) (outcome)
    : StatusCase s label (s.provisionNext call t stage outcome).tenant.status := by
  unfold provisionNext
  split
  . unfold connectBranch
    split
    . exact .same
    . exact .same
    all_goals
      split
      . exact .same
      . exact .same
  . split
    . exact .same
    . cases stage with
      | activate => exact .activated hget
      | _ => exact .same

theorem status_deleteNext (hget : s.calls.get? call = some (.delete t)) (outcome)
    : StatusCase s (.next call outcome) (s.deleteNext call t outcome).tenant.status := by
  unfold deleteNext
  split
  . exact .same
  . next hok =>
    have hok : outcome = .ok := Decidable.not_not.mp hok
    subst hok
    split
    . next hstatus =>
      apply StatusCase.deleting hget hstatus
      unfold marks
      dsimp only
      rw [hget]
      exact decide_eq_true hstatus
    . exact .same

theorem status_cleanupNext (hget : s.calls.get? call = some (.cleanup t stage)) (outcome)
    : StatusCase s (.next call outcome) (s.cleanupNext call t stage outcome).tenant.status := by
  unfold cleanupNext
  split
  . split
    . exact .same
    . split
      . exact .same
      . exact .same
  . split
    . exact .same
    . next hok =>
      have hok : outcome = .ok := Decidable.not_not.mp hok
      subst hok
      cases stage with
      | markDeleted =>
        apply StatusCase.deleted
        unfold marks
        dsimp only
        rw [hget]
      | _ => exact .same

theorem status_of_step (h : step s label = some s') : StatusCase s label s'.tenant.status := by
  unfold step at h
  cases label with
  | provisionForkTenantOnce c =>
    obtain ⟨_, rfl⟩ := Lts.of_guard h
    unfold provisionForkTenantOnce
    split
    . exact .same
    . exact .same
  | handleForkDelete c =>
    obtain ⟨_, rfl⟩ := Lts.of_guard h
    unfold handleForkDelete
    split
    all_goals exact .same
  | cleanupForkTenant c =>
    obtain ⟨_, rfl⟩ := Lts.of_guard h
    unfold cleanupForkTenant
    split
    all_goals exact .same
  | next c outcome =>
    dsimp only at h
    split at h
    . contradiction
    . next hget =>
      cases h
      exact status_provisionNext hget outcome
    . next hget =>
      cases h
      exact status_deleteNext hget outcome
    . cases h
      exact .same
    . next hget =>
      cases h
      exact status_cleanupNext hget outcome

structure Ok (s : ForkSystem) : Prop where
  provision : ∀ c t stage, s.calls.get? c = some (.provision t stage) → ¬Gone s.tenant.status
  delete : ∀ c t, s.calls.get? c = some (.delete t) → ¬Gone t.status

theorem not_provisioning (h : s.apart label = true) (hmarks : s.marks label = true)
    : s.calls.get? c ≠ some (.provision t stage) := by
  intro hget
  have hprov : s.provisioning = true := by
    unfold provisioning
    rw [List.any_eq_true]
    exact ⟨(c, .provision t stage), FMap.mem_toList.mpr hget, rfl⟩
  unfold apart at h
  rw [hmarks, hprov] at h
  contradiction

theorem Ok.step (hok : Ok s) (hstep : ForkSystem.step s label = some s')
    (hapart : s.apart label = true)
    : Ok s' := by
  have hfollows := Follows.step hstep
  have hstatus := status_of_step hstep
  constructor
  . intro c t stage hget
    have hkept : s.marks label = false ∧ ¬Gone s.tenant.status := by
      cases hfollows.provision c t stage hget with
      | inl hnew =>
        refine ⟨hnew.1, ?_⟩
        rw [hnew.2]
        intro hgone
        cases hgone <;> contradiction
      | inr hold =>
        obtain ⟨stage', hget'⟩ := hold
        refine ⟨?_, hok.provision c t stage' hget'⟩
        apply Bool.eq_false_iff.mpr
        intro hmarks
        exact not_provisioning hapart hmarks hget'
    generalize s'.tenant.status = status at hstatus ⊢
    cases hstatus with
    | same => exact hkept.2
    | activated _ =>
      intro hgone
      cases hgone <;> contradiction
    | deleting _ _ hmarks | deleted hmarks =>
      rw [hkept.1] at hmarks
      contradiction
  . intro c t hget
    cases hfollows.delete c t hget with
    | inl hnot => exact hnot
    | inr hold => exact hok.delete c t hold

theorem gone_of_step (hok : Ok s) (hstep : step s label = some s')
    : (Gone s.tenant.status → Gone s'.tenant.status)
      ∧ (s.tenant.status = .deleted → s'.tenant.status = .deleted) := by
  have hstatus := status_of_step hstep
  generalize s'.tenant.status = status at hstatus ⊢
  cases hstatus with
  | same => exact ⟨id, id⟩
  | activated hget =>
    have hnot := hok.provision _ _ _ hget
    refine ⟨fun hgone => absurd hgone hnot, ?_⟩
    intro hdeleted
    exact absurd (.inr hdeleted) hnot
  | deleting hget hsame hmarks =>
    refine ⟨fun _ => .inl rfl, ?_⟩
    intro hdeleted
    rw [hsame] at hdeleted
    exact absurd (.inr hdeleted) (hok.delete _ _ hget)
  | deleted hmarks => exact ⟨fun _ => .inr rfl, fun _ => rfl⟩

theorem gone_of_exec (hok : Ok s) (hexec : Lts.exec step s labels = some s')
    (hapart : Lts.Along step (fun s label => s.apart label = true) s labels)
    : (Gone s.tenant.status → Gone s'.tenant.status)
      ∧ (s.tenant.status = .deleted → s'.tenant.status = .deleted) := by
  induction labels generalizing s with
  | nil =>
    cases hexec
    exact ⟨id, id⟩
  | cons label labels ih =>
    obtain ⟨s1, hstep, hrest⟩ := Lts.of_exec_cons hexec
    unfold Lts.Along at hapart
    rw [hstep] at hapart
    have hone := gone_of_step hok hstep
    have hmore := ih (hok.step hstep hapart.1) hrest hapart.2
    exact ⟨fun h => hmore.1 (hone.1 h), fun h => hmore.2 (hone.2 h)⟩

theorem deleting_fork_stays_deleting {t : ForkTenant} {labels labels' : List ForkLabel}
    (hexec : Lts.exec step (init t) labels = some s) (hexec' : Lts.exec step s labels' = some s')
    (hapart : Lts.Along step (fun s label => s.apart label = true) (init t) (labels ++ labels'))
    : (s.tenant.status = .deleting ∨ s.tenant.status = .deleted
        → s'.tenant.status = .deleting ∨ s'.tenant.status = .deleted)
      ∧ (s.tenant.status = .deleted → s'.tenant.status = .deleted) := by
  obtain ⟨hfirst, hsecond⟩ := Lts.along_append hapart hexec
  have hinit : Ok (init t) := by
    constructor
    . intro c t stage h
      contradiction
    . intro c t h
      contradiction
  have hok : Ok s := by
    apply Lts.exec_invariant _ Ok _ hinit hfirst hexec
    intro s1 label s2 h hok hstep
    exact h.step hstep hok
  exact gone_of_exec hok hexec' hsecond

section Request

def newFork : ForkTenant := ⟨.fork, .provisioning, ⟨['c'], ['b'], ['h'], 4000, ['u']⟩⟩

def provisionLabels (call : Nat) : List ForkLabel :=
  .provisionForkTenantOnce call :: List.replicate 9 (.next call .ok)

def deleteLabels : List ForkLabel := [.handleForkDelete 1, .next 1 .ok, .next 1 .ok]

def cleanupLabels : List ForkLabel := .cleanupForkTenant 2 :: List.replicate 7 (.next 2 .ok)

theorem deleting_fork_stays_deleting_provisioned
    : ∃ s s', Lts.exec step (init newFork) (provisionLabels 0 ++ deleteLabels) = some s
        ∧ Lts.exec step s cleanupLabels = some s' ∧ s.tenant.status = .deleting
        ∧ (s'.tenant.status = .deleting ∨ s'.tenant.status = .deleted) := by
  apply Lts.exists₂_of_any (fun s _ => s.tenant.status = .deleting) (by decide +kernel)
  intro s s' hexec hexec' hdeleting
  exact ⟨hdeleting, (deleting_fork_stays_deleting hexec hexec' (by decide +kernel)).1 (.inl hdeleting)⟩

-- Two runs provision the fork, the one of its creation and the one of a server that resumes it. The
-- deletion is requested when the second run has made the fork active.
theorem deleting_fork_reactivated
    : let labels := (provisionLabels 3).take 5 ++ provisionLabels 0
      (Lts.exec step (init newFork) labels).any (fun s => s.tenant.status = .active) = true
      ∧ ∃ s s', Lts.exec step (init newFork) (labels ++ deleteLabels) = some s
        ∧ Lts.exec step s ((provisionLabels 3).drop 5) = some s'
        ∧ s.tenant.status = .deleting ∧ s'.tenant.status = .active := by
  intro labels
  refine ⟨by decide +kernel, ?_⟩
  exact Lts.exists₂_of_any _ (by decide +kernel) fun _ _ _ _ h => h

end Request

end ForkSystem

end Fork
