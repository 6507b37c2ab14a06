import Drive9.Backend.Write.Lemmas

/-!
This module contains the compare-and-swap on revisions.
-/

open Datastore Backend Transaction List Option FMap Lts

namespace WriteSystem

variable (cfg : WriteConfig) (dirID : Str → ID)

def commitOf (s : WriteSystem) (label : WriteLabel) : Option Commit :=
  match label with
  | .run r _ nodeID =>
    match s.requests.get? r with
    | some ⟨args, .createTx fileID storageType storageRef⟩ =>
      match createAndWriteTx dirID fileID nodeID args.path storageType storageRef args.data.length
          s.store.db with
      | .ok _ => some ⟨some r, args.path, fileID, args.expectedRevision⟩
      | .error _ => none
    | some ⟨args, .updateTx file finalData storageType storageRef⟩ =>
      match overwriteFileTx file.fileID args.expectedRevision storageType storageRef finalData.length s.store.db with
      | .ok _ => some ⟨some r, args.path, file.fileID, args.expectedRevision⟩
      | .error _ => none
    | _ => none
  | .upload (.finalize uploadID upload nodeID) =>
    match finalizeTx dirID uploadID upload nodeID s.store.db with
    | .ok (fileID, _) => some ⟨none, upload.targetPath, fileID, uploadExpectedRevision upload⟩
    | .error _ => none
  | _ => none

def commits (s : WriteSystem) (labels : List WriteLabel) : List Commit :=
  match labels with
  | [] => []
  | label :: labels =>
    (s.commitOf dirID label).toList ++
      match s.step cfg dirID label with
      | none => []
      | some s' => commits s' labels

end WriteSystem

structure WriteRequest.Fits (req : WriteRequest) : Prop where
  creating : req.phase.creating = true → req.args.expectedRevision ≤ 0
  updating : req.phase.file?.isSome = true → req.args.expectedRevision ≠ 0

namespace WriteSystem

structure Ok (s : WriteSystem) : Prop where
  contents : s.store.db.ContentsOk
  requests : ∀ r req, s.requests.get? r = some req → req.Fits

variable {cfg : WriteConfig} {dirID : Str → ID}

def Outcome (c : Option Commit) (db db' : Db) : Prop :=
  match c with
  | none => RowsNext db db'
  | some c => Committed c db db' ∧ db'.ContentsOk

theorem fits_of_other (hcreating : phase.creating = false) (hfile : phase.file? = none)
    : WriteRequest.Fits ⟨args, phase⟩ := by
  constructor
  . intro hc
    rw [hcreating] at hc
    contradiction
  . intro hc
    rw [hfile] at hc
    contradiction

theorem fits_rolledBack (args) (storageType) (storageRef) (err)
    : WriteRequest.Fits ⟨args, WriteArgs.rolledBack storageType storageRef err⟩ := by
  unfold WriteArgs.rolledBack
  split
  all_goals exact fits_of_other rfl rfl

variable {s s1 : WriteSystem} {newID nodeID : ID} {st : FileStatus} {labels as bs : List WriteLabel}
  {r : Nat}

theorem commitOf_run (hreq : s.requests.get? r = some req) (hp : req.phase.stored? = none)
    : s.commitOf dirID (.run r newID nodeID) = none := by
  obtain ⟨args, phase⟩ := req
  unfold commitOf
  dsimp only
  rw [hreq]
  cases phase with
  | createTx | updateTx => contradiction
  | _ => rfl

variable {fileID : ID}

section Transactions

variable {s : WriteSystem} {r : Nat} {newID nodeID : ID} {req : WriteRequest}
  (hreq : s.requests.get? r = some req)

include hreq

theorem commitOf_createTx (hp : req.phase = .createTx fileID storageType storageRef)
    : s.commitOf dirID (.run r newID nodeID)
        =
      match createAndWriteTx dirID fileID nodeID req.args.path storageType storageRef
          req.args.data.length s.store.db with
      | .ok _ => some ⟨some r, req.args.path, fileID, req.args.expectedRevision⟩
      | .error _ => none := by
  obtain ⟨args, phase⟩ := req
  cases hp
  unfold commitOf
  dsimp only
  rw [hreq]

theorem commitOf_updateTx (hp : req.phase = .updateTx file finalData storageType storageRef)
    : s.commitOf dirID (.run r newID nodeID)
        =
      match overwriteFileTx file.fileID req.args.expectedRevision storageType storageRef finalData.length
          s.store.db with
      | .ok _ => some ⟨some r, req.args.path, file.fileID, req.args.expectedRevision⟩
      | .error _ => none := by
  obtain ⟨args, phase⟩ := req
  cases hp
  unfold commitOf
  dsimp only
  rw [hreq]

end Transactions

variable {s' : WriteSystem}

theorem outcome_ran (hs : s.Ok) (hreq : s.requests.get? r = some req)
    (h : Ran cfg dirID s r newID nodeID req s')
    : Outcome (s.commitOf dirID (.run r newID nodeID)) s.store.db s'.store.db := by
  have hquiet : req.phase.stored? = none → s'.store.db = s.store.db
      → Outcome (s.commitOf dirID (.run r newID nodeID)) s.store.db s'.store.db := by
    intro hp hdb
    rw [commitOf_run hreq hp, hdb]
    exact .refl _
  cases h with
  | statted hp h | readFailed hp | read hp hread | deletedBlob hp | enqueued hp =>
    exact hquiet (by rw [hp]; rfl) rfl
  | putNew hp hput | put hp hput =>
    apply hquiet (by rw [hp]; rfl)
    rw [store_setPhase, hput.store]
  | created hp htx =>
    have hfits := (hs.requests r req hreq).creating (by rw [hp]; rfl)
    rw [commitOf_createTx hreq hp, htx]
    exact ⟨committed_createAndWriteTx (some r) htx hfits,
      (rowsNext_createAndWriteTx htx).contentsOk hs.contents⟩
  | createFailed hp htx err' =>
    rw [commitOf_createTx hreq hp, htx]
    exact RowsNext.refl _
  | updated hp htx =>
    have hfits := (hs.requests r req hreq).updating (by rw [hp]; rfl)
    have hupdated := rowUpdated_overwriteFileTx htx
    obtain ⟨st, rev, hrow, hrow', hcond, _⟩ := hupdated.updated
    rw [commitOf_updateTx hreq hp, htx]
    refine ⟨.update hfits hrow hcond hrow' ?_, hupdated.toOnlyRow.contentsOk hs.contents⟩
    intro id hne
    exact (hupdated.toOnlyRow.row hne) ▸ .same _
  | updateFailed hp htx err' =>
    rw [commitOf_updateTx hreq hp, htx]
    exact RowsNext.refl _

variable {txn : UploadTxn}

theorem commitOf_upload (h : txn.isFinalize = false) : s.commitOf dirID (.upload txn) = none := by
  cases txn with
  | finalize => contradiction
  | _ => rfl

theorem commitOf_uploadFailed (h : txn.run dirID s.store.db = .error err)
    : s.commitOf dirID (.upload txn) = none := by
  cases txn with
  | finalize uploadID upload nodeID =>
    unfold commitOf
    dsimp only
    split
    . next hfinalize =>
      rw [UploadTxn.run, bind_of_ok hfinalize] at h
      contradiction
    . rfl
  | _ => rfl

variable {label : WriteLabel}

theorem outcome_step (hs : s.Ok) (h : s.step cfg dirID label = some s')
    : Outcome (s.commitOf dirID label) s.store.db s'.store.db := by
  cases stepped_of_step h with
  | started hnew | txFailed hreq hp err' => exact RowsNext.refl _
  | ran hreq h => exact outcome_ran hs hreq h
  | file hother htxn => exact FileTxn.rowsNext hother htxn
  | upload htxn =>
    obtain ⟨hother, hnext⟩ | ⟨uploadID, upload, nodeID, fileID, rfl, hfinalize⟩ :=
      UploadTxn.of_run htxn
    . rw [commitOf_upload hother]
      exact hnext
    . have hfinalized := of_finalizeTx hfinalize
      unfold commitOf
      dsimp only
      rw [hfinalize]
      exact ⟨hfinalized.committed hs.contents, hfinalized.contentsOk hs.contents⟩
  | uploadFailed htxn => exact commitOf_uploadFailed htxn ▸ RowsNext.refl _

theorem fits_ran (hfits : req.Fits) (h : Ran cfg dirID s r newID nodeID req s')
    : ∃ phase, s'.requests = s.requests.set r { req with phase := phase }
      ∧ WriteRequest.Fits { req with phase := phase } := by
  cases h with
  | statted hp h =>
    refine ⟨_, rfl, ?_⟩
    cases h with
    | create hfound hexp => exact ⟨fun _ => hexp, fun hc => by contradiction⟩
    | read hfound hexp hpart | replace hfound hexp hpart =>
      exact ⟨fun hc => by contradiction, fun _ => hexp⟩
    | failed err => exact fits_of_other rfl rfl
  | readFailed hp | created hp htx | deletedBlob hp | enqueued hp =>
    exact ⟨_, rfl, fits_of_other rfl rfl⟩
  | read hp hread =>
    refine ⟨_, rfl, ?_⟩
    obtain heq | heq := WritePhase.sized_cases cfg _ _
    . rw [heq]
      exact ⟨fun hc => by contradiction, fun _ => hfits.updating (by rw [hp]; rfl)⟩
    . rw [heq]
      exact fits_of_other rfl rfl
  | putNew hp hput =>
    exact ⟨.createTx _ _ _, by rw [requests_setPhase, hput.requests],
      fun _ => hfits.creating (by rw [hp]; rfl),
      fun hc => by contradiction⟩
  | createFailed hp htx err' | updateFailed hp htx err' => exact ⟨_, rfl, fits_rolledBack _ _ _ _⟩
  | put hp hput =>
    exact ⟨.updateTx _ _ _ _, by rw [requests_setPhase, hput.requests], fun hc => by contradiction,
      fun _ => hfits.updating (by rw [hp]; rfl)⟩
  | updated hp htx =>
    refine ⟨_, rfl, ?_⟩
    unfold WriteArgs.updated
    split
    all_goals exact fits_of_other rfl rfl

theorem ok_step (hs : s.Ok) (h : s.step cfg dirID label = some s') : s'.Ok := by
  constructor
  . have houtcome := outcome_step hs h
    unfold Outcome at houtcome
    split at houtcome
    . exact houtcome.contentsOk hs.contents
    . exact houtcome.2
  . cases stepped_of_step h with
    | started hnew => exact forall_set hs.requests (fits_of_other rfl rfl)
    | ran hreq h =>
      obtain ⟨phase, hrequests, hfits⟩ := fits_ran (hs.requests _ _ hreq) h
      rw [hrequests]
      exact forall_set hs.requests hfits
    | txFailed hreq hp err' => exact forall_set hs.requests (fits_rolledBack _ _ _ _)
    | file hother htxn | upload htxn | uploadFailed htxn => exact hs.requests

theorem ok_init (useLegacyFiles) : (init useLegacyFiles).Ok := by
  constructor
  . intro fileID hc
    unfold init FileStore.empty at hc
    rw [get?_empty] at hc
    contradiction
  . intro r req hc
    unfold init at hc
    rw [get?_empty] at hc
    contradiction

variable {rev : Int}

theorem settled_step (hs : s.Ok) (h : s.step cfg dirID label = some s')
    (hrow : s.store.db.row fileID = some (st, rev)) (hst : st ≠ .pending)
    : (∃ st', s'.store.db.row fileID
        = some (st', rev + ((s.commitOf dirID label).toList.countP (·.fileID = fileID)))
        ∧ st' ≠ .pending)
      ∧ ∀ c ∈ s.commitOf dirID label, c.fileID = fileID → c.expectedRevision > 0
        → c.expectedRevision = rev := by
  have houtcome := outcome_step hs h
  unfold Outcome at houtcome
  split at houtcome
  . next hnone =>
    have hnext := houtcome.row fileID
    rw [hrow] at hnext
    rw [hnone]
    refine ⟨?_, fun c hc => by contradiction⟩
    simpa using hnext.settled hst
  . next c hsome =>
    rw [hsome]
    by_cases hid : c.fileID = fileID
    . subst hid
      cases houtcome.1 with
      | create hfree hexp hnew hrow' hother => exact absurd (hnew st rev hrow) hst
      | update hexp hfound hcond hrow' hother =>
        cases hfound.symm.trans hrow
        refine ⟨⟨.confirmed, by simpa using hrow', by decide⟩, ?_⟩
        intro c' hc' _ hexp
        cases hc'
        exact (hcond hexp).2.symm
    . have hother : RowNext (s.store.db.row fileID) (s'.store.db.row fileID) := by
        cases houtcome.1 with
        | create hfree hexp hnew hrow' hother | update hexp hfound hcond hrow' hother =>
          exact hother fileID (Ne.symm hid)
      rw [hrow] at hother
      refine ⟨?_, ?_⟩
      . simpa [hid] using hother.settled hst
      . intro c' hc' heq
        cases hc'
        contradiction

theorem commits_cons (h : s.step cfg dirID label = some s1) (labels)
    : s.commits cfg dirID (label :: labels)
        =
      (s.commitOf dirID label).toList ++ s1.commits cfg dirID labels := by
  rw [commits, h]

theorem commits_append (h : Lts.exec (step cfg dirID) s as = some s1) (bs)
    : s.commits cfg dirID (as ++ bs)
        =
      s.commits cfg dirID as ++ s1.commits cfg dirID bs := by
  induction as generalizing s with
  | nil =>
    cases h
    rfl
  | cons a as ih =>
    obtain ⟨s2, hstep, h⟩ := of_exec_cons h
    rw [cons_append, commits_cons hstep, commits_cons hstep, ih h, append_assoc]

variable {labels : List WriteLabel}

section

variable (hs : s.Ok) (h : Lts.exec (step cfg dirID) s labels = some s')

include hs h

theorem ok_run : s'.Ok := by
  induction labels generalizing s with
  | nil =>
    cases h
    exact hs
  | cons a as ih =>
    obtain ⟨s1, hstep, h⟩ := of_exec_cons h
    exact ih (ok_step hs hstep) h

theorem settled_run
    (hrow : s.store.db.row fileID = some (st, rev)) (hst : st ≠ .pending)
    : (∃ st', s'.store.db.row fileID
        = some (st', rev + (s.commits cfg dirID labels).countP (·.fileID = fileID))
          ∧ st' ≠ .pending)
      ∧ ∀ c ∈ s.commits cfg dirID labels, c.fileID = fileID → c.expectedRevision > 0
        → c.expectedRevision ≥ rev := by
  induction labels generalizing s st rev with
  | nil =>
    cases h
    exact ⟨⟨st, by simpa [commits] using hrow, hst⟩, fun c hc => by contradiction⟩
  | cons a as ih =>
    obtain ⟨s1, hstep, h⟩ := of_exec_cons h
    obtain ⟨⟨st1, hrow1, hst1⟩, hfirst⟩ := settled_step hs hstep hrow hst
    obtain ⟨⟨st', hrow', hst'⟩, hrest⟩ := ih (ok_step hs hstep) h hrow1 hst1
    rw [commits_cons hstep]
    refine ⟨⟨st', ?_, hst'⟩, ?_⟩
    . rw [hrow', countP_append, Nat.cast_add, Int.add_assoc]
    . intro c hc hid hexp
      cases mem_append.mp hc with
      | inl hc => exact (hfirst c (mem_toList.mp hc) hid hexp).ge
      | inr hc =>
        have := hrest c hc hid hexp
        omega

end

theorem committed_conditional (hs : s.Ok) (h : s.step cfg dirID label = some s') {c : Commit}
    (hc : s.commitOf dirID label = some c)
    : (c.expectedRevision > 0 → s.store.db.row c.fileID = some (.confirmed, c.expectedRevision)
        ∧ s'.store.db.row c.fileID = some (.confirmed, c.expectedRevision + 1))
      ∧ (c.expectedRevision = 0 → s.store.db.node? c.path = none) := by
  have houtcome := outcome_step hs h
  rw [hc] at houtcome
  cases houtcome.1 with
  | create hfree hexp hnew hrow hother => exact ⟨fun hpos => by omega, fun _ => hfree⟩
  | update hexp hfound hcond hrow hother =>
    refine ⟨?_, fun hzero => absurd hzero hexp⟩
    intro hpos
    obtain ⟨rfl, heq⟩ := hcond hpos
    rw [heq] at hfound hrow
    exact ⟨hfound, hrow⟩

theorem one_winner (hs : s.Ok) (h : Lts.exec (step cfg dirID) s labels = some s') (fileID)
    (hrev : rev > 0)
    : (s.commits cfg dirID labels).countP (fun c => c.fileID = fileID ∧ c.expectedRevision = rev)
      ≤ 1 := by
  induction labels generalizing s with
  | nil => exact Nat.zero_le 1
  | cons a as ih =>
    obtain ⟨s1, hstep, h⟩ := of_exec_cons h
    rw [commits_cons hstep, countP_append]
    have hrest := ih (ok_step hs hstep) h
    cases hc : s.commitOf dirID a with
    | none => simpa using hrest
    | some c =>
      by_cases hmatch : c.fileID = fileID ∧ c.expectedRevision = rev
      . -- the revision is past the expected one from here on
        obtain ⟨rfl, rfl⟩ := hmatch
        obtain ⟨_, hrow⟩ := (committed_conditional hs hstep hc).1 hrev
        obtain ⟨_, hlater⟩ := settled_run (ok_step hs hstep) h hrow (by decide)
        have hnone : (s1.commits cfg dirID as).countP
            (fun c' => c'.fileID = c.fileID ∧ c'.expectedRevision = c.expectedRevision) = 0 := by
          rw [countP_eq_zero]
          intro c' hc' heq
          obtain ⟨hid, hexp⟩ := of_decide_eq_true heq
          have := hlater c' hc' hid (by omega)
          omega
        rw [hnone]
        simp
      . simpa [hmatch] using hrest

def succeeded? (s : WriteSystem) (r : Nat) : Option WriteArgs :=
  (s.requests.get? r).bind fun req => if req.phase.succeeded then some req.args else none

theorem succeeded?_of_requests (h : s'.requests.get? r = s.requests.get? r)
    : s'.succeeded? r = s.succeeded? r := by
  unfold succeeded?
  rw [h]

theorem succeeded?_of_not (hreq : s.requests.get? r = some req) (h : req.phase.succeeded = false)
    : s.succeeded? r = none := by
  unfold succeeded?
  rw [hreq, bind_some, h]
  rfl

theorem succeeded?_of (hreq : s.requests.get? r = some req) (h : req.phase.succeeded = true)
    : s.succeeded? r = some req.args := by
  unfold succeeded?
  rw [hreq, bind_some, h]
  rfl

inductive WriterNext (r : Nat) : Option Commit → Option WriteArgs → Option WriteArgs → Prop where
  | commit (args : WriteArgs) (fileID : ID)
      : WriterNext r (some ⟨some r, args.path, fileID, args.expectedRevision⟩) none (some args)
  | same {c : Option Commit} (hc : ∀ c' ∈ c, c'.writer ≠ some r) (a : Option WriteArgs) : WriterNext r c a a

theorem WriterNext.none (h : a' = a) : WriterNext r none a a' := by
  rw [h]
  exact .same (fun _ hc => by contradiction) a

theorem succeeded?_setPhase (s : WriteSystem) (r) (req : WriteRequest) (phase : WritePhase)
    : (s.setPhase r req phase).succeeded? r = if phase.succeeded then some req.args else none := by
  unfold succeeded?
  rw [requests_setPhase, get?_set_self]
  rfl

theorem writer_ran_self {s : WriteSystem} {r : Nat} {newID nodeID : ID}
    (hreq : s.requests.get? r = some req) (h : Ran cfg dirID s r newID nodeID req s')
    : WriterNext r (s.commitOf dirID (.run r newID nodeID)) (s.succeeded? r) (s'.succeeded? r) := by
  have hquiet : req.phase.stored? = none → req.phase.succeeded = false → s'.succeeded? r = none
      → WriterNext r (s.commitOf dirID (.run r newID nodeID)) (s.succeeded? r) (s'.succeeded? r) := by
    intro hp hold hnew
    rw [commitOf_run hreq hp, succeeded?_of_not hreq hold]
    exact .none hnew
  cases h with
  | statted hp h =>
    apply hquiet (by rw [hp]; rfl) (by rw [hp]; rfl)
    rw [succeeded?_setPhase]
    cases h
    all_goals rfl
  | readFailed hp | putNew hp hput | put hp hput | deletedBlob hp =>
    exact hquiet (by rw [hp]; rfl) (by rw [hp]; rfl) (succeeded?_setPhase _ _ _ _)
  | read hp hread =>
    apply hquiet (by rw [hp]; rfl) (by rw [hp]; rfl)
    rw [succeeded?_setPhase]
    obtain heq | heq := WritePhase.sized_cases cfg _ _
    all_goals
      rw [heq]
      rfl
  | created hp htx =>
    rw [commitOf_createTx hreq hp, htx, succeeded?_setPhase,
      succeeded?_of_not hreq (by rw [hp]; rfl)]
    exact .commit req.args _
  | createFailed hp htx err' =>
    rw [commitOf_createTx hreq hp, htx, succeeded?_setPhase,
      succeeded?_of_not hreq (by rw [hp]; rfl),
      WritePhase.not_succeeded_of_failing (WritePhase.failing_rolledBack _ _ _)]
    exact .none rfl
  | updated hp htx =>
    rw [commitOf_updateTx hreq hp, htx, succeeded?_setPhase,
      succeeded?_of_not hreq (by rw [hp]; rfl), WritePhase.succeeded_updated]
    exact .commit req.args _
  | updateFailed hp htx err' =>
    rw [commitOf_updateTx hreq hp, htx, succeeded?_setPhase,
      succeeded?_of_not hreq (by rw [hp]; rfl),
      WritePhase.not_succeeded_of_failing (WritePhase.failing_rolledBack _ _ _)]
    exact .none rfl
  | @enqueued storageRef revision hp =>
    rw [commitOf_run hreq (by rw [hp]; rfl), succeeded?_of hreq (by rw [hp]; rfl)]
    exact .none (succeeded?_setPhase s r req (.committed revision))

theorem writer_commitOf_upload : ∀ c ∈ s.commitOf dirID (.upload txn), c.writer ≠ some r := by
  intro c hc
  cases txn with
  | finalize uploadID upload nodeID =>
    unfold commitOf at hc
    dsimp only at hc
    split at hc
    . cases hc
      intro hwriter
      contradiction
    . contradiction
  | _ => contradiction

theorem writer_commitOf_run : ∀ c ∈ s.commitOf dirID (.run r newID nodeID), c.writer = some r := by
  intro c hc
  unfold commitOf at hc
  dsimp only at hc
  split at hc
  . split at hc
    . cases hc
      rfl
    . contradiction
  . split at hc
    . cases hc
      rfl
    . contradiction
  . contradiction

theorem writer_step {s : WriteSystem} (h : s.step cfg dirID label = some s') (r)
    : WriterNext r (s.commitOf dirID label) (s.succeeded? r) (s'.succeeded? r) := by
  cases stepped_of_step h with
  | @started r' args hnew =>
    by_cases heq : r = r'
    . have hold : s.succeeded? r = none := by
        unfold succeeded?
        rw [heq, hnew]
        rfl
      rw [hold, heq]
      exact .none (succeeded?_of_not (get?_set_self _ _ _) rfl)
    . exact .none (succeeded?_of_requests (get?_set_ne _ _ heq))
  | @ran r' newID nodeID req _ hreq h =>
    by_cases heq : r = r'
    . subst heq
      exact writer_ran_self hreq h
    . obtain ⟨phase, hrequests⟩ := h.requests
      rw [succeeded?_of_requests (by rw [hrequests, get?_set_ne _ _ heq])]
      apply WriterNext.same
      intro c hc hwriter
      rw [writer_commitOf_run c hc] at hwriter
      cases hwriter
      contradiction
  | @txFailed r' err req storageType storageRef hreq hp err' =>
    by_cases heq : r = r'
    . subst heq
      rw [succeeded?_setPhase,
        WritePhase.not_succeeded_of_failing (WritePhase.failing_rolledBack _ _ _),
        succeeded?_of_not hreq (WritePhase.not_succeeded_of_stored? hp)]
      exact .none rfl
    . exact .none (succeeded?_of_requests (get?_set_ne _ _ heq))
  | file hother htxn => exact .none rfl
  | upload htxn | uploadFailed htxn => exact .same writer_commitOf_upload _

theorem writer_run (hs : s.succeeded? r = none) (h : Lts.exec (step cfg dirID) s labels = some s')
    : (∃ args fileID, s'.succeeded? r = some args
        ∧ (s.commits cfg dirID labels).filter (·.writer = some r)
          = [⟨some r, args.path, fileID, args.expectedRevision⟩])
      ∨ s'.succeeded? r = none ∧ (s.commits cfg dirID labels).filter (·.writer = some r) = [] := by
  induction labels using List.reverseRecOn generalizing s' with
  | nil =>
    cases h
    exact .inr ⟨hs, rfl⟩
  | append_singleton as a ih =>
    obtain ⟨s1, hexec, hstep⟩ := exec_concat.mp h
    have hlast : s1.commits cfg dirID [a] = (s1.commitOf dirID a).toList := by
      rw [commits_cons hstep, commits, append_nil]
    rw [commits_append hexec, filter_append, hlast]
    have hnext := writer_step hstep r
    have ih := ih hexec
    generalize s1.commitOf dirID a = c at hnext ⊢
    generalize s1.succeeded? r = before at hnext ih
    generalize s'.succeeded? r = after at hnext ⊢
    cases hnext with
    | commit args fileID =>
      obtain ⟨_, _, hc, _⟩ | ⟨_, hnil⟩ := ih
      . contradiction
      . left
        refine ⟨args, fileID, rfl, ?_⟩
        rw [hnil]
        simp
    | same hc =>
      have hnil : c.toList.filter (·.writer = some r) = [] := by
        rw [filter_eq_nil_iff]
        intro c' hc'
        simpa using hc c' (mem_toList.mp hc')
      rw [hnil, append_nil]
      exact ih

-- What the changes of a run found and left, that one of those that expect the same revision of a
-- file is made, that the revision of a file counts its changes, and that a write succeeds by one
-- change.
theorem revision_has_one_winner (cfg : WriteConfig) (dirID : Str → ID) (useLegacyFiles : Bool)
    (labels : List WriteLabel) (s : WriteSystem)
    (hexec : Lts.exec (step cfg dirID) (init useLegacyFiles) labels = some s)
    : (∀ as label bs s1 s2 c, labels = as ++ label :: bs
        → Lts.exec (step cfg dirID) (init useLegacyFiles) as = some s1
        → step cfg dirID s1 label = some s2 → s1.commitOf dirID label = some c
        → (c.expectedRevision > 0 → s1.store.db.row c.fileID = some (.confirmed, c.expectedRevision)
            ∧ s2.store.db.row c.fileID = some (.confirmed, c.expectedRevision + 1))
          ∧ (c.expectedRevision = 0 → s1.store.db.node? c.path = none))
      ∧ (∀ fileID rev, rev > 0
        → ((init useLegacyFiles).commits cfg dirID labels).countP
            (fun c => c.fileID = fileID ∧ c.expectedRevision = rev) ≤ 1)
      ∧ (∀ as bs s1 fileID st rev, labels = as ++ bs
        → Lts.exec (step cfg dirID) (init useLegacyFiles) as = some s1
        → s1.store.db.row fileID = some (st, rev) → st ≠ .pending
        → ∃ st', s.store.db.row fileID
            = some (st', rev + (s1.commits cfg dirID bs).countP (·.fileID = fileID)))
      ∧ ∀ r req, s.requests.get? r = some req
        → if req.phase.succeeded then
            ∃ fileID, ((init useLegacyFiles).commits cfg dirID labels).filter (·.writer = some r)
              = [⟨some r, req.args.path, fileID, req.args.expectedRevision⟩]
          else
            ((init useLegacyFiles).commits cfg dirID labels).filter (·.writer = some r) = [] := by
  refine ⟨?_, ?_, ?_, ?_⟩
  . intro as label bs s1 s2 c _ has hstep hc
    exact committed_conditional (ok_run (ok_init useLegacyFiles) has) hstep hc
  . intro fileID rev hrev
    exact one_winner (ok_init useLegacyFiles) hexec fileID hrev
  . rintro as bs s1 fileID st rev rfl has hrow hst
    rw [Lts.exec_append, has] at hexec
    obtain ⟨st', hrow', _⟩ := (settled_run (ok_run (ok_init useLegacyFiles) has) hexec hrow hst).1
    exact ⟨st', hrow'⟩
  . intro r req hreq
    have hinit : (init useLegacyFiles).succeeded? r = none := by
      unfold succeeded? init
      rw [FMap.get?_empty]
      rfl
    obtain ⟨args, fileID, hsucceeded, hfilter⟩ | ⟨hnot, hfilter⟩ := writer_run hinit hexec
    . unfold succeeded? at hsucceeded
      rw [hreq, Option.bind_some] at hsucceeded
      obtain ⟨hphase, rfl⟩ := Lts.of_guard hsucceeded
      rw [if_pos hphase]
      exact ⟨fileID, hfilter⟩
    . split
      . next hphase =>
        rw [succeeded?_of hreq hphase] at hnot
        contradiction
      . exact hfilter

def twoWriters : List WriteLabel :=
  [.start 1 ⟨['/', 'f'], [1], 0, false, false, true, false, 0⟩, .run 1 [] [], .run 1 ['a'] [], .run 1 [] ['n'],
    .start 2 ⟨['/', 'f'], [2], 0, false, true, false, false, 1⟩, .run 2 [] [], .run 2 [] [],
    .start 3 ⟨['/', 'f'], [3], 0, false, true, false, false, 1⟩, .run 3 [] [], .run 3 [] [],
    .run 3 [] [], .run 2 [] []]

theorem revision_has_one_winner_two_writers
    : ∃ s, Lts.exec (step ⟨true, 100, 0⟩ id) (init false) twoWriters = some s
      ∧ s.store.db.row ['a'] = some (.confirmed, 2)
      ∧ (s.requests.get? 2).map (·.phase) = some (.failed (.store .revisionConflict))
      ∧ ((init false).commits ⟨true, 100, 0⟩ id twoWriters).countP
          (fun c => c.fileID = ['a'] ∧ c.expectedRevision = 1) ≤ 1 := by
  refine exists_of_any (fun s => _ ∧ _) (by decide +kernel) fun s hexec ⟨hrow, hfailed⟩ => ⟨hrow,
    hfailed, ?_⟩
  obtain ⟨_, hwinner, _⟩ := revision_has_one_winner ⟨true, 100, 0⟩ id false twoWriters s hexec
  exact hwinner ['a'] 1 (by decide)

end WriteSystem
