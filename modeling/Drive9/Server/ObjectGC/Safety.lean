import Drive9.Server.ObjectGC.Impl

/-!
This module shows when no object that is in use is deleted.
-/

open List Option FMap

namespace ObjectGC

open Meta

theorem hasConfirmed_iff
    : hasConfirmedS3StorageRef files ref = true
      ↔ ∃ id f, files.get? id = some f ∧ f.isS3 = true ∧ f.confirmed = true
        ∧ f.storageRef = ref := by
  unfold hasConfirmedS3StorageRef
  rw [List.any_eq_true]
  apply Iff.intro
  . intro h
    obtain ⟨⟨id, f⟩, hmem, hf⟩ := h
    simp at hf
    exact ⟨id, f, mem_toList.mp hmem, hf.1.1, hf.1.2, hf.2⟩
  . intro h
    obtain ⟨id, f, hget, hf⟩ := h
    exact ⟨(id, f), mem_toList.mpr hget, by simp [hf]⟩

variable {id : FileID} {ref : StorageRef}

theorem of_hasConfirmed_writeFile (h : hasConfirmedS3StorageRef (writeFile files id new) ref = true)
    : new = some ref ∨ hasConfirmedS3StorageRef files ref = true := by
  rw [hasConfirmed_iff] at h ⊢
  obtain ⟨id', f, hget, hs3, hconf, href⟩ := h
  cases of_get?_set hget with
  | inl heq =>
    left
    rw [heq.2] at hs3 href
    dsimp only at hs3 href
    obtain ⟨r, hr⟩ := isSome_iff_exists.mp hs3
    rw [hr, getD_some] at href
    rw [hr, href]
  | inr hne => exact .inr ⟨id', f, hne.2, hs3, hconf, href⟩

theorem of_hasConfirmed_deleteFile (h : hasConfirmedS3StorageRef (deleteFile files id) ref = true)
    : hasConfirmedS3StorageRef files ref = true := by
  rw [hasConfirmed_iff] at h ⊢
  obtain ⟨id', f, hget, hs3, hconf, href⟩ := h
  unfold deleteFile at hget
  rw [get?_modify] at hget
  split at hget
  . obtain ⟨f', -, heq⟩ := map_eq_some_iff.mp hget
    rw [← heq] at hconf
    contradiction
  . exact ⟨id', f, hget, hs3, hconf, href⟩

def GCStage.passed : GCStage → Bool
  | .getNamespace | .getOwner | .acquire | .hasRef | .deleteObject => true
  | .hasNonDeletedFork | .markDeleted | .postpone => false

namespace ObjectSystem

/--
A snapshot of the owner's files is taken while no run that has found no fork works on one of their
references.
-/
def apart (s : ObjectSystem) (label : ObjectLabel) : Bool :=
  match label with
  | .snapshotFork _ =>
    s.runs.toList.all fun row => !row.2.stage.passed || !hasConfirmedS3StorageRef s.owner.files row.2.ref
  | _ => true

def ForkHas (s : ObjectSystem) (ref : StorageRef) : Prop :=
  ∃ id f, s.forks.get? id = some f ∧ f.status ≠ .deleted ∧ hasConfirmedS3StorageRef f.files ref = true

structure Ok (s : ObjectSystem) : Prop where
  used : ∀ ref ∈ s.used, blobs.isPrefixOf ref = true
  candidates : ∀ ref, (s.candidates.get? ref).isSome = true → ref ∈ s.used
  runs : ∀ i run, s.runs.get? i = some run → run.ref ∈ s.used
  passed : ∀ i run, s.runs.get? i = some run → run.stage.passed = true → ¬s.ForkHas run.ref
  ready : ∀ i run, s.runs.get? i = some run → run.stage = .deleteObject
    → hasConfirmedS3StorageRef s.owner.files run.ref = false

variable {s s' : ObjectSystem} {label : ObjectLabel} {ref : StorageRef}

namespace Ok

theorem init : Ok init := by
  constructor <;> simp [ObjectSystem.init]

variable {used deleted : List StorageRef}

theorem tenants (h : Ok s) {owner : TenantFiles} {forks : FMap TenantID TenantFiles}
    (hused : ∀ ref ∈ s.used, ref ∈ used) (hblobs : ∀ ref ∈ used, blobs.isPrefixOf ref = true)
    (howner : ∀ ref ∈ s.used, hasConfirmedS3StorageRef owner.files ref = true
      → hasConfirmedS3StorageRef s.owner.files ref = true)
    (hforks : ∀ i run, s.runs.get? i = some run → run.stage.passed = true
      → ({ s with forks } : ObjectSystem).ForkHas run.ref → s.ForkHas run.ref)
    : Ok { s with owner, forks, used } := by
  constructor
  . exact hblobs
  . intro ref hsome
    exact hused ref (h.candidates ref hsome)
  . intro i run hget
    exact hused _ (h.runs i run hget)
  . intro i run hget hpassed hfork
    exact h.passed i run hget hpassed (hforks i run hget hpassed hfork)
  . intro i run hget hstage
    apply Bool.eq_false_iff.mpr
    intro hhas
    have hold := howner run.ref (h.runs i run hget) hhas
    rw [h.ready i run hget hstage] at hold
    contradiction

theorem goto (h : Ok s) (href : ref ∈ s.used) (hpassed : stage.passed = true → ¬s.ForkHas ref)
    (hready : stage = .deleteObject → hasConfirmedS3StorageRef s.owner.files ref = false)
    : Ok ({ s with deleted }.goto i ref stage) := by
  constructor
  . exact h.used
  . exact h.candidates
  . exact forall_set h.runs href
  . exact forall_set h.passed hpassed
  . exact forall_set h.ready hready

theorem finish (h : Ok s) (i : Nat) {candidates : FMap StorageRef Candidate}
    (hcandidates : ∀ ref, (candidates.get? ref).isSome = true → (s.candidates.get? ref).isSome = true)
    : Ok ({ s with candidates, deleted }.finish i) := by
  constructor
  . exact h.used
  . intro ref hsome
    exact h.candidates ref (hcandidates ref hsome)
  . intro i' run hget
    exact h.runs i' run (of_get?_del hget).2
  . intro i' run hget
    exact h.passed i' run (of_get?_del hget).2
  . intro i' run hget
    exact h.ready i' run (of_get?_del hget).2

end Ok

theorem isSome_modify (candidates : FMap StorageRef Candidate) (ref) (f : Candidate → Candidate)
    (ref' : StorageRef)
    : ((candidates.modify ref f).get? ref').isSome = true
      → (candidates.get? ref').isSome = true := by
  rw [get?_modify]
  split
  . next heq =>
    rw [heq, isSome_map]
    exact id
  . exact id

theorem not_forkHas (h : s.namespaceHasNonDeletedFork = false) (ref) : ¬s.ForkHas ref := by
  intro hfork
  obtain ⟨id, f, hget, hstatus, -⟩ := hfork
  unfold namespaceHasNonDeletedFork at h
  rw [List.any_eq_false] at h
  apply h (id, f) (mem_toList.mpr hget)
  exact decide_eq_true hstatus

namespace Ok

theorem processCandidate (h : Ok s) (hget : s.runs.get? i = some run) (now : Int)
    : Ok (s.processCandidate i run.ref run.stage now) := by
  have href := h.runs i run hget
  have hpassed := h.passed i run hget
  unfold ObjectSystem.processCandidate
  split
  . apply h.goto href
    . intro hstage
      split at hstage
      . contradiction
      . next hnone => exact not_forkHas (Bool.not_eq_true _ ▸ hnone) run.ref
    . split
      all_goals
        intro heq
        contradiction
  . next hstage =>
    rw [hstage] at hpassed
    apply h.goto href (fun _ => hpassed rfl)
    intro heq
    contradiction
  . next hstage =>
    rw [hstage] at hpassed
    apply h.goto href (fun _ => hpassed rfl)
    split
    all_goals
      intro heq
      contradiction
  . next hstage =>
    rw [hstage] at hpassed
    apply h.goto href (fun _ => hpassed rfl)
    intro heq
    contradiction
  . next hstage =>
    rw [hstage] at hpassed
    apply h.goto href (fun _ => hpassed rfl)
    split
    . intro heq
      contradiction
    . next hnone =>
      intro _
      exact Bool.not_eq_true _ ▸ hnone
  . apply h.goto href
    all_goals
      intro heq
      contradiction
  all_goals exact h.finish i (isSome_modify _ _ _)

theorem retryCandidate (h : Ok s) {run : GCRun} (now : Int)
    : Ok (s.retryCandidate i run.ref run.stage now) := by
  unfold ObjectSystem.retryCandidate
  split
  all_goals exact h.finish i (isSome_modify _ _ _)

theorem listDue (h : Ok s) (hget : s.candidates.get? ref = some c) (i : Nat)
    : Ok (s.goto i ref (firstStage ref)) := by
  have href : ref ∈ s.used := h.candidates ref (by rw [hget, isSome_some])
  unfold firstStage
  rw [if_pos (h.used ref href)]
  apply h.goto href
  all_goals
    intro heq
    contradiction

theorem enqueue (h : Ok s) (href : ref ∈ s.used) (notBefore : Int)
    : Ok (s.enqueueObjectGCCandidate ref notBefore) := by
  constructor
  . exact h.used
  . intro ref' hsome
    unfold enqueueObjectGCCandidate at hsome
    rw [get?_set] at hsome
    split at hsome
    . next heq =>
      rw [heq]
      exact href
    . exact h.candidates ref' hsome
  . exact h.runs
  . exact h.passed
  . exact h.ready

end Ok

theorem not_used_of_fresh (hfresh : s.freshRef new = true) (href : ref ∈ s.used)
    : new ≠ some ref := by
  intro heq
  unfold freshRef at hfresh
  rw [heq, Option.all_some, Bool.and_eq_true, List.all_eq_true] at hfresh
  have hne := of_decide_eq_true (hfresh.2 ref href)
  exact hne rfl

theorem blobs_of_fresh (h : Ok s) (hfresh : s.freshRef new = true)
    : ∀ ref ∈ new.toList ++ s.used, blobs.isPrefixOf ref = true := by
  intro ref hmem
  cases mem_append.mp hmem with
  | inl hnew =>
    rw [mem_toList] at hnew
    unfold freshRef at hfresh
    rw [hnew, all_some, Bool.and_eq_true] at hfresh
    exact hfresh.1
  | inr hold => exact h.used ref hold

theorem forkHas_setFork {id : TenantID} {f f' : TenantFiles} (hget : s.forks.get? id = some f)
    (hf : f'.status ≠ .deleted → hasConfirmedS3StorageRef f'.files ref = true
      → f.status ≠ .deleted ∧ hasConfirmedS3StorageRef f.files ref = true)
    (h : (s.setFork id f').ForkHas ref)
    : s.ForkHas ref := by
  obtain ⟨id', g, hget', hstatus, hhas⟩ := h
  cases of_get?_set hget' with
  | inl heq =>
    rw [heq.2] at hstatus hhas
    obtain ⟨hstatus', hhas'⟩ := hf hstatus hhas
    exact ⟨id, f, hget, hstatus', hhas'⟩
  | inr hne => exact ⟨id', g, hne.2, hstatus, hhas⟩

theorem Ok.setFork (h : Ok s) {id : TenantID} {f f' : TenantFiles} (hget : s.forks.get? id = some f)
    (hf : ∀ i run, s.runs.get? i = some run → run.stage.passed = true → f'.status ≠ .deleted
      → hasConfirmedS3StorageRef f'.files run.ref = true
      → f.status ≠ .deleted ∧ hasConfirmedS3StorageRef f.files run.ref = true)
    : Ok (s.setFork id f') := by
  apply h.tenants (fun _ href => href) h.used (fun _ _ hhas => hhas)
  intro i run hrun hpassed
  exact forkHas_setFork hget (hf i run hrun hpassed)

theorem Ok.step (h : Ok s) (hstep : ObjectSystem.step s label = some s')
    (hapart : s.apart label = true)
    : Ok s' := by
  unfold ObjectSystem.step at hstep
  cases label with
  | ownerWrite fileID new =>
    obtain ⟨hfresh, rfl⟩ := Lts.of_guard hstep
    apply h.tenants
    . intro ref href
      exact List.mem_append_right _ href
    . exact blobs_of_fresh h hfresh
    . intro ref href hhas
      cases of_hasConfirmed_writeFile hhas with
      | inl heq => exact absurd heq (not_used_of_fresh hfresh href)
      | inr hold => exact hold
    . intro _ _ _ _ hfork
      exact hfork
  | ownerDelete fileID =>
    cases hstep
    apply h.tenants (fun _ href => href) h.used
    . intro ref _ hhas
      exact of_hasConfirmed_deleteFile hhas
    . intro _ _ _ _ hfork
      exact hfork
  | ownerStatus status =>
    cases hstep
    exact h.tenants (fun _ href => href) h.used (fun _ _ hhas => hhas) (fun _ _ _ _ hfork => hfork)
  | insertFork id =>
    obtain ⟨_, rfl⟩ := Lts.of_guard hstep
    apply h.tenants (fun _ href => href) h.used (fun _ _ hhas => hhas)
    intro _ run _ _ hfork
    obtain ⟨id', g, hget, hstatus, hhas⟩ := hfork
    cases of_get?_set hget with
    | inl heq =>
      rw [heq.2] at hhas
      contradiction
    | inr hne => exact ⟨id', g, hne.2, hstatus, hhas⟩
  | snapshotFork id =>
    dsimp only at hstep
    split at hstep
    . contradiction
    . next f hget =>
      obtain ⟨_, rfl⟩ := Lts.of_guard hstep
      apply h.setFork hget
      intro i run hrun hpassed _ hhas
      unfold apart at hapart
      rw [List.all_eq_true] at hapart
      have hnot := hapart (i, run) (mem_toList.mpr hrun)
      rw [hpassed, hhas] at hnot
      contradiction
  | forkWrite id fileID new =>
    dsimp only at hstep
    split at hstep
    . contradiction
    . next f hget =>
      obtain ⟨hfresh, rfl⟩ := Lts.of_guard hstep
      apply h.tenants
      . intro ref href
        exact List.mem_append_right _ href
      . exact blobs_of_fresh h hfresh
      . intro _ _ hhas
        exact hhas
      . intro i run hrun _ hfork
        apply forkHas_setFork hget _ hfork
        intro hstatus hhas
        refine ⟨hstatus, ?_⟩
        cases of_hasConfirmed_writeFile hhas with
        | inl heq => exact absurd heq (not_used_of_fresh hfresh (h.runs i run hrun))
        | inr hold => exact hold
  | forkDelete id fileID =>
    dsimp only at hstep
    split at hstep
    . contradiction
    . next f hget =>
      cases hstep
      apply h.setFork hget
      intro _ _ _ _ hstatus hhas
      exact ⟨hstatus, of_hasConfirmed_deleteFile hhas⟩
  | forkStatus id status =>
    dsimp only at hstep
    split at hstep
    . contradiction
    . next f hget =>
      obtain ⟨hstatus, rfl⟩ := Lts.of_guard hstep
      simp at hstatus
      apply h.setFork hget
      intro _ _ _ _ _ hhas
      exact ⟨hstatus.1, hhas⟩
  | enqueue ref notBefore =>
    obtain ⟨hused, rfl⟩ := Lts.of_guard hstep
    apply h.enqueue
    simpa using hused
  | markForkDeleted id =>
    dsimp only at hstep
    split at hstep
    . contradiction
    . next f hget =>
      obtain ⟨_, rfl⟩ := Lts.of_guard hstep
      apply h.setFork hget
      intro _ _ _ _ hstatus
      exact absurd rfl hstatus
  | listDue i ref now =>
    dsimp only at hstep
    split at hstep
    . next hget _ =>
      obtain ⟨_, rfl⟩ := Lts.of_guard hstep
      exact h.listDue hget i
    . contradiction
  | next i now ok =>
    dsimp only at hstep
    split at hstep
    . contradiction
    . next run hget =>
      cases hstep
      split
      . exact h.processCandidate hget now
      . exact h.retryCandidate now

theorem collected_objects_are_unreferenced {labels : List ObjectLabel}
    (hexec : Lts.exec step init labels = some s)
    (hapart : Lts.Along step (fun s label => s.apart label = true) init labels)
    {i : Nat} (hrun : s.runs.get? i = some ⟨ref, .deleteObject⟩)
    : s.referenced ref = false := by
  have hok : Ok s := by
    apply Lts.exec_invariant _ Ok _ Ok.init hapart hexec
    intro s1 label s2 h hok hstep
    exact h.step hstep hok
  unfold referenced
  rw [hok.ready i _ hrun rfl, Bool.false_or, List.any_eq_false]
  intro row hmem hhas
  rw [Bool.and_eq_true, decide_eq_true_iff] at hhas
  exact hok.passed i _ hrun rfl ⟨row.1, row.2, mem_toList.mp hmem, hhas.1, hhas.2⟩

section Overwrite

def someRef : StorageRef := blobs ++ ['x']

def candidateLabels : List ObjectLabel :=
  [.ownerWrite ['f'] (some someRef), .insertFork ['a'], .snapshotFork ['a'], .forkStatus ['a'] .deleting,
    .enqueue someRef 0, .markForkDeleted ['a'], .listDue 0 someRef 0, .next 0 0 true]

def overwriteLabels : List ObjectLabel :=
  [.ownerWrite ['f'] none, .next 0 0 true, .next 0 0 true, .next 0 0 true, .next 0 0 true]

theorem collected_objects_are_unreferenced_overwritten
    : ∃ s, Lts.exec step init (candidateLabels ++ overwriteLabels) = some s
        ∧ s.runs.get? 0 = some ⟨someRef, .deleteObject⟩ ∧ s.referenced someRef = false := by
  apply Lts.exists_of_any (·.runs.get? 0 = some ⟨someRef, .deleteObject⟩) (by decide +kernel)
  intro s hexec hrun
  exact ⟨hrun, collected_objects_are_unreferenced hexec (by decide +kernel) hrun⟩

-- A second fork is made after the look at the forks and keeps what the owner replaces.
theorem object_of_new_fork_deleted
    : let labels := candidateLabels ++ [.insertFork ['b'], .snapshotFork ['b']] ++ overwriteLabels
      ∃ s s', Lts.exec step init labels = some s ∧ s.referenced someRef = true
        ∧ step s (.next 0 0 true) = some s' ∧ s'.deleted = [someRef] := by
  intro labels
  have hsome : (Lts.exec step init labels).any fun s => s.referenced someRef
      && (step s (.next 0 0 true)).any (·.deleted = [someRef]) := by decide +kernel
  obtain ⟨s, hexec, hs⟩ := (Option.any_eq_true _ _).mp hsome
  rw [Bool.and_eq_true] at hs
  obtain ⟨s', hstep, hdeleted⟩ := (Option.any_eq_true _ _).mp hs.2
  exact ⟨s, s', hexec, hs.1, hstep, of_decide_eq_true hdeleted⟩

end Overwrite

end ObjectSystem

end ObjectGC
