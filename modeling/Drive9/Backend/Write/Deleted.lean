import Drive9.Backend.Write.Lemmas

/-!
This module contains the life of a deleted file under concurrent writes.
-/

open Datastore Backend Transaction Option FMap

namespace WriteSystem

def revivesDeleted (s : WriteSystem) (label : WriteLabel) : Bool :=
  match label with
  | .run r _ _ =>
    match s.requests.get? r with
    | some ⟨args, .updateTx file _ _ _⟩ =>
      s.store.db.useLegacyFiles && args.expectedRevision ≤ 0
        && (s.store.db.fileRow file.fileID).map Prod.fst = some .deleted
    | _ => false
  | _ => false

def Doomed (s : WriteSystem) (fileID : ID) (r : Nat) : Prop :=
  ∃ req, s.requests.get? r = some req
    ∧ ((∃ file, req.phase.file? = some file ∧ file.fileID = fileID) ∨ req.phase.failing = true)

variable {cfg : WriteConfig} {dirID : Str → ID}

variable {s s' : WriteSystem} {r : Nat} {fileID newID nodeID : ID} {req : WriteRequest}

section

variable (hreq : s.requests.get? r = some req)

include hreq

section

variable (hok : s.revivesDeleted (.run r newID nodeID) = false)

include hok

theorem not_deleted_of_updated (hp : req.phase = .updateTx file finalData storageType storageRef)
    (htx : overwriteFileTx file.fileID req.args.expectedRevision storageType storageRef finalData.length
      s.store.db = .ok (rev, db))
    : ¬ s.store.db.Deleted file.fileID := by
  intro hdel
  obtain ⟨st, rev, hrow, _, hcond, hsplit⟩ := (rowUpdated_overwriteFileTx htx).updated
  have hst := hdel.row
  rw [hrow] at hst
  cases hst
  by_cases hexp : req.args.expectedRevision > 0
  . cases (hcond hexp).1
  . by_cases hl : s.store.db.useLegacyFiles = true
    . obtain ⟨args, phase⟩ := req
      cases hp
      unfold revivesDeleted at hok
      dsimp only at hok hexp
      rw [hreq] at hok
      dsimp only at hok
      rw [hl, hdel.2 hl] at hok
      simp [Int.not_lt.mp hexp] at hok
    . cases hsplit hl

section

variable (h : Ran cfg dirID s r newID nodeID req s') (hdel : s.store.db.Deleted fileID)

include h hdel

theorem deleted_ran : s'.store.db.Deleted fileID := by
  cases h with
  | putNew hp hput | put hp hput =>
    rw [store_setPhase, hput.store]
    exact hdel
  | created hp htx => exact (rowsNext_createAndWriteTx htx).deleted hdel
  | updated hp htx =>
    have hne := not_deleted_of_updated hreq hok hp htx
    apply (rowUpdated_overwriteFileTx htx).toOnlyRow.deleted _ hdel
    rintro rfl
    exact hne hdel
  | _ => exact hdel

theorem doomed_ran_self (hdoomed : s.Doomed fileID r) : s'.Doomed fileID r := by
  obtain ⟨req', hreq', hphase⟩ := hdoomed
  cases hreq.symm.trans hreq'
  have hfailing : ∀ {s1 : WriteSystem} {phase : WritePhase}, phase.failing = true
      → (s1.setPhase r req phase).Doomed fileID r := by
    intro s1 phase hfailing
    exact ⟨_, get?_set_self _ _ _, .inr hfailing⟩
  have hfile : ∀ {s1 : WriteSystem} {phase : WritePhase} {file : StatFile},
      req.phase.file? = some file
      → phase.file? = some file → (s1.setPhase r req phase).Doomed fileID r := by
    intro s1 phase file hold hnew
    refine ⟨_, get?_set_self _ _ _, .inl ⟨file, hnew, ?_⟩⟩
    obtain ⟨file', hfile', heq⟩ | hfailing' := hphase
    . cases hold.symm.trans hfile'
      exact heq
    . rw [WritePhase.file?_of_failing hfailing'] at hold
      contradiction
  cases h with
  | statted hp h | putNew hp hput | created hp htx | enqueued hp =>
    rw [hp] at hphase
    obtain ⟨_, hc, _⟩ | hc := hphase
    . contradiction
    . contradiction
  | readFailed hp => exact hfailing rfl
  | read hp hread =>
    obtain heq | heq := WritePhase.sized_cases cfg _ _
    . rw [heq]
      exact hfile (by rw [hp]; rfl) rfl
    . rw [heq]
      exact hfailing rfl
  | put hp hput => exact hfile (by rw [hp]; rfl) rfl
  | updated hp htx =>
    rw [hp] at hphase
    obtain ⟨_, hc, heq⟩ | hc := hphase
    . cases hc
      exact absurd (heq ▸ hdel) (not_deleted_of_updated hreq hok hp htx)
    . contradiction
  | createFailed hp htx err' | updateFailed hp htx err' =>
    exact hfailing (WritePhase.failing_rolledBack _ _ _)
  | deletedBlob hp => exact ⟨_, get?_set_self _ _ _, .inr rfl⟩

end

end

end

theorem doomed_of_requests (h : s'.requests.get? r = s.requests.get? r)
    (hdoomed : s.Doomed fileID r)
    : s'.Doomed fileID r := by
  unfold Doomed at *
  rw [h]
  exact hdoomed

theorem doomed_ran (hreq : s.requests.get? r' = some req)
    (h : Ran cfg dirID s r' newID nodeID req s')
    (hok : s.revivesDeleted (.run r' newID nodeID) = false) (hdel : s.store.db.Deleted fileID)
    (hdoomed : s.Doomed fileID r)
    : s'.Doomed fileID r := by
  by_cases heq : r = r'
  . subst heq
    exact doomed_ran_self hreq hok h hdel hdoomed
  . obtain ⟨phase, hrequests⟩ := h.requests
    apply doomed_of_requests _ hdoomed
    rw [hrequests, get?_set_ne _ _ heq]

theorem doomed_txFailed (err : WriteError) (hdoomed : s.Doomed fileID r)
    : (s.setPhase r' req (WriteArgs.rolledBack storageType storageRef err)).Doomed fileID r := by
  by_cases heq : r = r'
  . rw [heq]
    exact ⟨_, get?_set_self _ _ _, .inr (WritePhase.failing_rolledBack _ _ _)⟩
  . apply doomed_of_requests _ hdoomed
    rw [requests_setPhase, get?_set_ne _ _ heq]

theorem deleted_step (h : s.step cfg dirID label = some s') (hok : s.revivesDeleted label = false)
    (hdel : s.store.db.Deleted fileID)
    : s'.store.db.Deleted fileID ∧ ∀ r, s.Doomed fileID r → s'.Doomed fileID r := by
  cases stepped_of_step h with
  | started hnew =>
    refine ⟨hdel, ?_⟩
    intro r hdoomed
    apply doomed_of_requests _ hdoomed
    apply get?_set_ne
    rintro rfl
    obtain ⟨req, hreq, _⟩ := hdoomed
    rw [hnew] at hreq
    contradiction
  | ran hreq h =>
    exact ⟨deleted_ran hreq hok h hdel, fun r hdoomed => doomed_ran hreq h hok hdel hdoomed⟩
  | txFailed hreq hp err' => exact ⟨hdel, fun r hdoomed => doomed_txFailed err' hdoomed⟩
  | file hother htxn =>
    exact ⟨(FileTxn.rowsNext hother htxn).deleted hdel, fun r hdoomed => hdoomed⟩
  | upload htxn =>
    refine ⟨?_, fun r hdoomed => hdoomed⟩
    obtain ⟨_, hnext⟩ | ⟨_, _, _, _, _, hfinalize⟩ := UploadTxn.of_run htxn
    . exact hnext.deleted hdel
    . exact (of_finalizeTx hfinalize).deleted hdel
  | uploadFailed htxn => exact ⟨hdel, fun r hdoomed => hdoomed⟩

-- A file that is deleted in a state stays deleted in every run from there, and a write that has
-- found the file before does not succeed.
theorem deleted_file_stays_deleted (cfg : WriteConfig) (dirID : Str → ID) (s s' : WriteSystem)
    (labels : List WriteLabel) (fileID : ID)
    (hok : Lts.Along (step cfg dirID) (fun s label => s.revivesDeleted label = false) s labels)
    (hexec : Lts.exec (step cfg dirID) s labels = some s')
    (hdel : s.store.db.Deleted fileID)
    : s'.store.db.Deleted fileID
      ∧ ∀ r req file, s.requests.get? r = some req → req.phase.file? = some file
        → file.fileID = fileID
        → ∃ req', s'.requests.get? r = some req' ∧ req'.phase.succeeded = false := by
  have hinv := Lts.exec_invariant _
    (fun s1 => s1.store.db.Deleted fileID ∧ ∀ r, s.Doomed fileID r → s1.Doomed fileID r)
    (by
      intro s1 label s2 hs1 hok hstep
      obtain ⟨hdel, hdoomed⟩ := deleted_step hstep hok hs1.1
      exact ⟨hdel, fun r hr => hdoomed r (hs1.2 r hr)⟩)
    ⟨hdel, fun _ h => h⟩ hok hexec
  refine ⟨hinv.1, ?_⟩
  intro r req file hreq hfile heq
  obtain ⟨req', hreq', hphase⟩ := hinv.2 r ⟨req, hreq, .inl ⟨file, hfile, heq⟩⟩
  refine ⟨req', hreq', ?_⟩
  obtain ⟨file', hfile', _⟩ | hfailing := hphase
  . exact WritePhase.not_succeeded_of_file? hfile'
  . exact WritePhase.not_succeeded_of_failing hfailing

def smallFiles : WriteConfig := ⟨true, 100, 0⟩

def deletedWhileWriting : List WriteLabel :=
  [.start 1 ⟨['/', 'f'], [1], 0, false, false, true, false, -1⟩, .run 1 [] [], .run 1 ['a'] [], .run 1 [] ['n'],
    .start 2 ⟨['/', 'f'], [2], 0, false, true, false, false, -1⟩, .run 2 [] [], .run 2 [] [],
    .file (.deleteFile ['/', 'f'])]

theorem deleted_file_stays_deleted_split
    : ∃ s s', Lts.exec (step smallFiles id) (init false) deletedWhileWriting = some s
      ∧ Lts.exec (step smallFiles id) s [.run 2 [] []] = some s'
      ∧ s.store.db.Deleted ['a'] ∧ s'.store.db.Deleted ['a']
      ∧ ∃ req', s'.requests.get? 2 = some req' ∧ req'.phase.succeeded = false := by
  apply Lts.exists₂_of_any (fun s _ => s.store.db.Deleted ['a'] ∧ s.revivesDeleted (.run 2 [] []) = false
    ∧ (s.requests.get? 2).any (fun req => req.phase.file?.any (·.fileID = ['a']))) (by decide +kernel)
  intro s s' hexec hexec' ⟨hdel, hok, hreq⟩
  obtain ⟨req, hreq, hfile⟩ := (any_eq_true _ _).mp hreq
  obtain ⟨file, hfile, heq⟩ := (any_eq_true _ _).mp hfile
  have halong : Lts.Along (step smallFiles id) (fun s label => s.revivesDeleted label = false) s [.run 2 [] []] := by
    refine ⟨hok, ?_⟩
    split
    all_goals trivial
  obtain ⟨hdel', hfails⟩ :=
    deleted_file_stays_deleted smallFiles id s s' [.run 2 [] []] ['a'] halong hexec' hdel
  exact ⟨hdel, hdel', hfails 2 req file hreq hfile (of_decide_eq_true heq)⟩

-- In the legacy layout the second write confirms the file again and returns revision 2.
theorem unconditional_write_revives_deleted_file
    : ∃ s s', Lts.exec (step smallFiles id) (init true) deletedWhileWriting = some s
      ∧ s.store.db.Deleted ['a'] ∧ step smallFiles id s (.run 2 [] []) = some s'
      ∧ s'.store.db.fileRow ['a'] = some (.confirmed, 2)
      ∧ s'.store.db.inodeRow ['a'] = some (.confirmed, 2)
      ∧ (s'.requests.get? 2).map (·.phase) = some (.committed 2) := by
  have hrun : (Lts.exec (step smallFiles id) (init true) deletedWhileWriting).any (fun s =>
      s.store.db.Deleted ['a'] ∧ (step smallFiles id s (.run 2 [] [])).any fun s' =>
        s'.store.db.fileRow ['a'] = some (.confirmed, 2) ∧ s'.store.db.inodeRow ['a'] = some (.confirmed, 2)
          ∧ (s'.requests.get? 2).map (·.phase) = some (.committed 2)) = true := by
    decide +kernel
  obtain ⟨s, hexec, hs⟩ := (Option.any_eq_true _ _).mp hrun
  obtain ⟨hdel, hstep⟩ := of_decide_eq_true hs
  obtain ⟨s', hstep, hs'⟩ := (Option.any_eq_true _ _).mp hstep
  exact ⟨s, s', hexec, hdel, hstep, of_decide_eq_true hs'⟩

end WriteSystem
