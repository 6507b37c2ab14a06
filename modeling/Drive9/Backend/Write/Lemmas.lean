import Drive9.Backend.Write.Impl
import Drive9.Datastore.Rows

/-!
This module contains what a step of the write system can do.
-/

open Datastore Backend Transaction

namespace WritePhase

def file? (p : WritePhase) : Option StatFile :=
  match p with
  | .readExisting file => some file
  | .put file _ => some file
  | .updateTx file _ _ _ => some file
  | _ => none

def creating (p : WritePhase) : Bool :=
  match p with
  | .putNew => true
  | .createTx _ _ _ => true
  | _ => false

def stored? (p : WritePhase) : Option (StorageType × Str) :=
  match p with
  | .createTx _ storageType storageRef => some (storageType, storageRef)
  | .updateTx _ _ storageType storageRef => some (storageType, storageRef)
  | _ => none

def succeeded (p : WritePhase) : Bool :=
  match p with
  | .enqueue _ _ => true
  | .committed _ => true
  | _ => false

def failing (p : WritePhase) : Bool :=
  match p with
  | .deleteBlob _ _ => true
  | .failed _ => true
  | _ => false

theorem failing_rolledBack (storageType) (storageRef) (err)
    : (WriteArgs.rolledBack storageType storageRef err).failing = true := by
  unfold WriteArgs.rolledBack
  split
  all_goals rfl

theorem sized_cases (cfg) (file) (finalData)
    : WriteArgs.sized cfg file finalData = .put file finalData
      ∨ WriteArgs.sized cfg file finalData = .failed .tooLarge := by
  unfold WriteArgs.sized
  split
  . exact .inl rfl
  . exact .inr rfl

theorem succeeded_updated (file) (keepRef) (revision)
    : (WriteArgs.updated file keepRef revision).succeeded = true := by
  unfold WriteArgs.updated
  split
  all_goals rfl

variable {p : WritePhase}

theorem file?_of_failing (h : p.failing = true) : p.file? = none := by
  unfold failing at h
  split at h
  . rfl
  . rfl
  . contradiction

theorem not_succeeded_of_failing (h : p.failing = true) : p.succeeded = false := by
  unfold failing at h
  split at h
  . rfl
  . rfl
  . contradiction

theorem not_succeeded_of_file? (h : p.file? = some file) : p.succeeded = false := by
  unfold file? at h
  split at h
  . rfl
  . rfl
  . rfl
  . contradiction

theorem not_succeeded_of_stored? (h : p.stored? = some stored) : p.succeeded = false := by
  unfold stored? at h
  split at h
  . rfl
  . rfl
  . contradiction

end WritePhase

namespace WriteArgs

inductive Statted (cfg : WriteConfig) (args : WriteArgs) (db : Db)
    (blobs : FMap ID Bytes) : WritePhase → Prop where
  | create (hfound : stat db blobs args.path = .notFound) (hexp : args.expectedRevision ≤ 0)
      : Statted cfg args db blobs .putNew
  | read {node file} (hfound : stat db blobs args.path = .found node (some file))
      (hexp : args.expectedRevision ≠ 0) (hpart : args.partialWrite = true)
      : Statted cfg args db blobs (.readExisting file)
  | replace {node file} (hfound : stat db blobs args.path = .found node (some file))
      (hexp : args.expectedRevision ≠ 0) (hpart : args.partialWrite = false)
      : Statted cfg args db blobs (.put file args.data)
  | failed (err : WriteError) : Statted cfg args db blobs (.failed err)

theorem statted_cases (cfg) (args : WriteArgs) (db) (blobs)
    : Statted cfg args db blobs (args.statted cfg (stat db blobs args.path)) := by
  unfold statted
  split
  . next hfound =>
    split
    . exact .failed _
    . next hexp =>
      split
      . exact .failed _
      . split
        . exact .create hfound (by omega)
        . exact .failed _
  . exact .failed _
  . next node file hfound =>
    split
    . exact .failed _
    . next hexp =>
      split
      . exact .failed _
      . split
        . exact .failed _
        . split
          . exact .failed _
          . unfold overwrite
            split
            . exact .failed _
            . split
              . next hpart => exact .read hfound hexp hpart
              . next hpart =>
                obtain heq | heq := WritePhase.sized_cases cfg _ args.data
                . rw [heq]
                  exact .replace hfound hexp (by simpa using hpart)
                . rw [heq]
                  exact .failed _

end WriteArgs

variable {nodeID : ID}

namespace WriteSystem

theorem of_freshID {s : WriteSystem} {id : ID} (h : s.freshID id = true)
    : blobRef id ∉ s.puts ∧ s.objects.get? (blobRef id) = none := by
  unfold freshID at h
  simp only [Bool.and_eq_true, List.all_eq_true, decide_eq_true_eq, Option.isNone_iff_eq_none] at h
  exact ⟨fun hc => h.1.2 _ hc rfl, h.2⟩

theorem requests_setPhase (s : WriteSystem) (r) (req) (phase)
    : (s.setPhase r req phase).requests = s.requests.set r { req with phase := phase } := rfl

theorem store_setPhase (s : WriteSystem) (r) (req) (phase)
    : (s.setPhase r req phase).store = s.store := rfl

inductive Put (cfg : WriteConfig) (s : WriteSystem) (newID : ID) (data : Bytes)
    : WriteSystem → StorageType → Str → Prop where
  | inline : Put cfg s newID data s .db9 inlineRef
  | object (hfresh : s.freshID newID = true)
      : Put cfg s newID data (s.putObject (blobRef newID) data) .s3 (blobRef newID)

namespace Put

variable {cfg : WriteConfig} {s s1 : WriteSystem} {newID : ID} {data : Bytes}
  {storageType : StorageType}
  {storageRef : Str}

section

variable (h : Put cfg s newID data s1 storageType storageRef)

include h

theorem requests : s1.requests = s.requests := by
  cases h
  all_goals rfl

theorem store : s1.store = s.store := by
  cases h
  all_goals rfl

theorem blobs : s1.blobs = s.blobs := by
  cases h
  all_goals rfl

end

end Put

section

variable (cfg : WriteConfig) (dirID : Str → ID) (s : WriteSystem) (r : Nat) (newID nodeID : ID)
    (req : WriteRequest)

inductive Ran : WriteSystem → Prop where
  | statted {phase} (hp : req.phase = .stat)
      (h : WriteArgs.Statted cfg req.args s.store.db s.blobs phase)
      : Ran (s.setPhase r req phase)
  | readFailed {file} (hp : req.phase = .readExisting file)
      : Ran (s.setPhase r req (.failed .noSuchObject))
  | read {file existing} (hp : req.phase = .readExisting file)
      (hread : s.readFileData file = some existing)
      : Ran (s.setPhase r req (WriteArgs.sized cfg file (req.args.finalData existing)))
  | putNew {s1 storageType storageRef} (hp : req.phase = .putNew)
      (hput : Put cfg s newID req.args.data s1 storageType storageRef)
      : Ran (s1.setPhase r req (.createTx newID storageType storageRef))
  | created {fileID storageType storageRef db}
      (hp : req.phase = .createTx fileID storageType storageRef)
      (htx : createAndWriteTx dirID fileID nodeID req.args.path storageType storageRef
        req.args.data.length s.store.db = .ok ((), db))
      : Ran (((s.setDb db).setBlob fileID storageType req.args.data).setPhase r req (.committed 1))
  | put {file finalData s1 storageType storageRef}
      (hp : req.phase = .put file finalData) (hput : Put cfg s newID finalData s1 storageType storageRef)
      : Ran (s1.setPhase r req (.updateTx file finalData storageType storageRef))
  | updated {file finalData storageType storageRef rev db}
      (hp : req.phase = .updateTx file finalData storageType storageRef)
      (htx : overwriteFileTx file.fileID req.args.expectedRevision storageType storageRef finalData.length
        s.store.db = .ok (rev, db))
      : Ran (((s.setDb db).setBlob file.fileID storageType finalData).setPhase r req
          (WriteArgs.updated file storageRef rev))
  | createFailed {fileID storageType storageRef err}
      (hp : req.phase = .createTx fileID storageType storageRef)
      (htx : createAndWriteTx dirID fileID nodeID req.args.path storageType storageRef
        req.args.data.length s.store.db = .error err)
      (err' : WriteError)
      : Ran (s.setPhase r req (WriteArgs.rolledBack storageType storageRef err'))
  | updateFailed {file finalData storageType storageRef err}
      (hp : req.phase = .updateTx file finalData storageType storageRef)
      (htx : overwriteFileTx file.fileID req.args.expectedRevision storageType storageRef finalData.length
        s.store.db = .error err)
      (err' : WriteError)
      : Ran (s.setPhase r req (WriteArgs.rolledBack storageType storageRef err'))
  | deletedBlob {storageRef err} (hp : req.phase = .deleteBlob storageRef err)
      : Ran { s.setPhase r req (.failed err) with objects := s.objects.del storageRef }
  | enqueued {storageRef revision} (hp : req.phase = .enqueue storageRef revision)
      : Ran { s.setPhase r req (.committed revision) with candidates := storageRef :: s.candidates }

end

variable {cfg : WriteConfig} {dirID : Str → ID}

variable {s' : WriteSystem} {r : Nat} {req : WriteRequest}

theorem ran_of_run (h : s.run cfg dirID r newID nodeID req = some s')
    : Ran cfg dirID s r newID nodeID req s' := by
  unfold run at h
  split at h
  . next hp =>
    cases h
    exact .statted hp (WriteArgs.statted_cases cfg req.args s.store.db s.blobs)
  . next file hp =>
    split at h
    . cases h
      exact .readFailed hp
    . next existing hread =>
      cases h
      exact .read hp hread
  . next hp =>
    split at h
    . contradiction
    . next hfresh =>
      split at h
      . cases h
        exact .putNew hp .inline
      . cases h
        exact .putNew hp (.object (by simpa using hfresh))
  . next fileID storageType storageRef hp =>
    split at h
    . next htx =>
      cases h
      exact .created hp htx
    . next htx =>
      cases h
      exact .createFailed hp htx _
  . next file finalData hp =>
    split at h
    . cases h
      exact .put hp .inline
    . split at h
      . contradiction
      . next hfresh =>
        cases h
        exact .put hp (.object (by simpa using hfresh))
  . next file finalData storageType storageRef hp =>
    split at h
    . next htx =>
      cases h
      exact .updated hp htx
    . next htx =>
      cases h
      exact .updateFailed hp htx _
  . next storageRef err hp =>
    cases h
    exact .deletedBlob hp
  . next storageRef revision hp =>
    cases h
    exact .enqueued hp
  . contradiction
  . contradiction

theorem Ran.requests (h : Ran cfg dirID s r newID nodeID req s')
    : ∃ phase, s'.requests = s.requests.set r { req with phase := phase } := by
  cases h with
  | putNew hp hput | put hp hput => exact ⟨_, by rw [requests_setPhase, hput.requests]⟩
  | _ => exact ⟨_, rfl⟩

theorem of_txFail {s : WriteSystem} (h : s.txFail r err req = some s')
    : ∃ storageType storageRef err, req.phase.stored? = some (storageType, storageRef)
      ∧ s' = s.setPhase r req (WriteArgs.rolledBack storageType storageRef err) := by
  unfold txFail at h
  split at h
  . next hp =>
    cases h
    exact ⟨_, _, _, by rw [hp]; rfl, rfl⟩
  . next hp =>
    cases h
    exact ⟨_, _, _, by rw [hp]; rfl, rfl⟩
  . contradiction

section

variable (cfg : WriteConfig) (dirID : Str → ID) (s : WriteSystem)

inductive Stepped : WriteLabel → WriteSystem → Prop where
  | started {r args} (hnew : s.requests.get? r = none)
      : Stepped (.start r args) { s with requests := s.requests.set r ⟨args, .stat⟩ }
  | ran {r newID nodeID req s'} (hreq : s.requests.get? r = some req)
      (h : Ran cfg dirID s r newID nodeID req s')
      : Stepped (.run r newID nodeID) s'
  | txFailed {r err req storageType storageRef}
      (hreq : s.requests.get? r = some req) (hp : req.phase.stored? = some (storageType, storageRef))
      (err' : WriteError)
      : Stepped (.txFail r err)
          (s.setPhase r req (WriteArgs.rolledBack storageType storageRef err'))
  | file {txn store} (hother : txn.isWrite = false)
      (htxn : txn.step dirID s.store = some store)
      : Stepped (.file txn) { s with store := store }
  | upload {txn db} (htxn : txn.run dirID s.store.db = .ok ((), db))
      : Stepped (.upload txn) (s.setDb db)
  | uploadFailed {txn err} (htxn : txn.run dirID s.store.db = .error err)
      : Stepped (.upload txn) s

end

theorem stepped_of_step {s : WriteSystem} (h : s.step cfg dirID label = some s')
    : Stepped cfg dirID s label s' := by
  unfold step at h
  split at h
  . split at h
    . contradiction
    . next hnew =>
      cases h
      exact .started (by simpa using hnew)
  . obtain ⟨req, hreq, hrun⟩ := Option.bind_eq_some_iff.mp h
    exact .ran hreq (ran_of_run hrun)
  . obtain ⟨req, hreq, hfail⟩ := Option.bind_eq_some_iff.mp h
    obtain ⟨_, _, err', hp, rfl⟩ := of_txFail hfail
    exact .txFailed hreq hp err'
  . split at h
    . contradiction
    . next hother =>
      obtain ⟨store, htxn, rfl⟩ := Option.map_eq_some_iff.mp h
      exact .file (by simpa using hother) htxn
  . split at h
    . next htxn =>
      cases h
      exact .upload htxn
    . next htxn =>
      cases h
      exact .uploadFailed htxn

end WriteSystem

def UploadTxn.isFinalize (txn : UploadTxn) : Bool :=
  match txn with
  | .finalize _ _ _ => true
  | _ => false

theorem FileTxn.rowsNext {txn : FileTxn} (hother : txn.isWrite = false)
    (h : txn.step dirID s = some s')
    : RowsNext s.db s'.db := by
  unfold FileTxn.step at h
  split at h
  . split at h
    . next htxn =>
      cases h
      unfold run at htxn
      cases txn with
      | create | overwrite => contradiction
      | ensureParentDirs path =>
        obtain ⟨db, hdb, rfl⟩ := of_onDb htxn
        exact .of_dirsAdded (.of_ensureParentDirsTx hdb)
      | copy srcFileID nodeID dstPath =>
        obtain ⟨db, hdb, rfl⟩ := of_onDb htxn
        exact .of_nodeInserted (of_insertNodeTx hdb)
      | deleteFile path =>
        obtain ⟨_, _, hdelete, hpure⟩ := of_bind htxn
        cases hpure
        exact .of_deleteFileWithRefCheck hdelete
      | renameFile oldPath newPath newParentPath newName =>
        obtain ⟨_, _, hrename, hpure⟩ := of_bind htxn
        cases hpure
        exact .of_renameFileReplacingTarget hrename
      | deleteDir dirPath =>
        obtain ⟨_, _, hdelete, hpure⟩ := of_bind htxn
        cases hpure
        exact .of_deleteDirRecursive hdelete
    . cases h
      exact .refl _
  . contradiction

structure Commit where
  writer : Option Nat
  path : Str
  fileID : ID
  expectedRevision : Int

inductive Committed (c : Commit) (db db' : Db) : Prop where
  | create (hfree : db.node? c.path = none) (hexp : c.expectedRevision ≤ 0)
      (hnew : ∀ st rev, db.row c.fileID = some (st, rev) → st = .pending)
      (hrow : ∃ rev, db'.row c.fileID = some (.confirmed, rev))
      (hother : ∀ id, id ≠ c.fileID → RowNext (db.row id) (db'.row id))
  | update {st rev} (hexp : c.expectedRevision ≠ 0) (hfound : db.row c.fileID = some (st, rev))
      (hcond : c.expectedRevision > 0 → st = .confirmed ∧ rev = c.expectedRevision)
      (hrow : db'.row c.fileID = some (.confirmed, rev + 1))
      (hother : ∀ id, id ≠ c.fileID → RowNext (db.row id) (db'.row id))

variable {path storageRef : Str}

namespace Datastore

theorem DirsAdded.row_eq (h : DirsAdded db db') (hinode : (db.inodeRow fileID).isSome)
    : db'.row fileID = db.row fileID := by
  unfold Db.row Db.fileRow Db.inodeRow at *
  rw [h.useLegacyFiles, h.files]
  obtain heq | ⟨hnone, _⟩ := h.inodes fileID
  . rw [heq]
  . rw [hnone] at hinode
    contradiction

theorem DirsAdded.node?_eq_none (h : DirsAdded db db') (hfree : ∀ n ∈ db'.fileNodes, n.path ≠ path)
    : db.node? path = none := by
  unfold Db.node?
  rw [List.find?_eq_none]
  intro n hn
  obtain ⟨n', hn', heq⟩ := h.paths n hn
  simpa [heq] using hfree n' hn'

theorem RowNext.unsettled (h : RowNext a (some (.pending, rev)))
    : ∀ st rev', a = some (st, rev') → st = .pending := by
  intro st rev' ha
  cases h with
  | same | confirm => cases ha; rfl
  | insert => contradiction

end Datastore

variable {a : Unit}

namespace Backend

variable {dirID : Str → ID}

variable {expectedRevision size : Int}

theorem rowsNext_createAndWriteTx
    (h : createAndWriteTx dirID fileID nodeID path storageType storageRef size db = .ok (a, db'))
    : RowsNext db db' := by
  obtain ⟨_, db1, hinsert, hrest⟩ := of_bind h
  obtain ⟨_, db2, hdirs, hnode⟩ := of_bind hrest
  have hinsert := RowsNext.of_fileInserted (of_insertFileTx hinsert)
  have hdirs := RowsNext.of_dirsAdded (.of_ensureParentDirsTx hdirs)
  exact hinsert.trans (hdirs.trans (.of_nodeInserted (of_insertNodeTx hnode)))

theorem committed_createAndWriteTx (writer)
    (h : createAndWriteTx dirID fileID nodeID path storageType storageRef size db = .ok (a, db'))
    (hexp : expectedRevision ≤ 0)
    : Committed ⟨writer, path, fileID, expectedRevision⟩ db db' := by
  have hnext := rowsNext_createAndWriteTx h
  obtain ⟨_, db1, hinsert, hrest⟩ := of_bind h
  obtain ⟨_, db2, hdirs, hnode⟩ := of_bind hrest
  have hinsert := of_insertFileTx hinsert
  have hdirs := DirsAdded.of_ensureParentDirsTx hdirs
  have hnode := of_insertNodeTx hnode
  refine .create ?_ hexp ?_ ⟨1, ?_⟩ fun id _ => hnext.row id
  . have hfree := hdirs.node?_eq_none fun n hn => (hnode.fresh n hn).2
    rw [hinsert.eq] at hfree
    exact hfree
  . intro st rev hrow
    unfold Db.row Db.fileRow Db.inodeRow at hrow
    rw [hinsert.inode] at hrow
    split at hrow
    . next hl =>
      rw [hinsert.file hl] at hrow
      contradiction
    . contradiction
  . have hinode : db1.inodeRow fileID = some (.confirmed, 1) := by
      rw [hinsert.eq]
      unfold Db.inodeRow
      rw [FMap.get?_set_self]
      rfl
    rw [hnode.eq]
    refine (hdirs.row_eq (by rw [hinode]; rfl)).trans ?_
    unfold Db.row
    split
    . next hl =>
      rw [hinsert.eq] at hl ⊢
      unfold Db.fileRow Db.setLegacyFile
      rw [if_pos hl, FMap.get?_set_self]
      rfl
    . exact hinode

theorem rowUpdated_overwriteFileTx
    (h : overwriteFileTx fileID expectedRevision storageType storageRef size db = .ok (rev, db'))
    : RowUpdated fileID expectedRevision db db' := by
  obtain ⟨honly, st, rev, hrow, hrow', hcond, hsplit⟩ :=
    RowUpdated.of_contentUpdated (of_updateFileContentTx h)
  refine ⟨honly, st, rev, hrow, hrow', ?_, hsplit⟩
  intro hexp
  rw [if_pos hexp] at hcond
  exact hcond hexp

inductive Finalized (upload : Upload) (db : Db) : ID → Db → Prop where
  | overwritten {fileID db1 db2 db3 uploads} (hdirs : RowsNext db db1)
      (hfound : db.ContentsOk → db1.row fileID = db.row fileID)
      (hconfirmed : ∃ rev, db1.inodeRow fileID = some (.confirmed, rev)) (hexp : uploadExpectedRevision upload ≠ 0)
      (hupdate : RowUpdated fileID (uploadExpectedRevision upload) db1 db2)
      (hdelete : PendingDeleted upload.fileID db2 db3)
      : Finalized upload db fileID { db3 with uploads := uploads }
  | created {db1 db2 db' n} (hdirs : RowsNext db db1) (hexp : uploadExpectedRevision upload ≤ 0)
      (hconfirm : RowConfirmed upload.fileID db1 db2) (hnode : NodeInserted n db2 db')
      (hfree : db.node? upload.targetPath = none)
      : Finalized upload db upload.fileID db'

variable {db1 : Db}

theorem Finalized.of_overwriteTx (hdirs : RowsNext db db1)
    (hfound : (db1.contents.get? existingFileID).isSome → db.ContentsOk
      → db1.row existingFileID = db.row existingFileID)
    (h : overwriteTx uploadID upload existingFileID db1 = .ok (fileID, db'))
    : Finalized upload db fileID db' := by
  obtain ⟨hexp, h⟩ := of_require_bind h
  obtain ⟨storageMeta, _, hmeta, h⟩ := of_bind h
  obtain ⟨hconfirmed, rfl⟩ := of_getFileStorageMetaForUpdateTx (of_tryCatch_throw hmeta)
  obtain ⟨_, h⟩ := of_require_bind h
  obtain ⟨rev, db2, hupdate, h⟩ := of_bind h
  obtain ⟨_, db3, hdelete, h⟩ := of_bind h
  obtain ⟨_, db4, hset, h⟩ := of_bind h
  cases hset
  cases h
  exact .overwritten hdirs (hfound (of_updateFileContentTx hupdate).content) hconfirmed hexp
    (rowUpdated_overwriteFileTx hupdate) (of_deletePendingFileTx hdelete)

theorem Finalized.of_createTx (hdirs : RowsNext db db1)
    (hfree : (∀ n ∈ db1.fileNodes, n.path ≠ upload.targetPath) → db.node? upload.targetPath = none)
    (h : createTx upload nodeID db1 = .ok (fileID, db'))
    : Finalized upload db fileID db' := by
  obtain ⟨hexp, h⟩ := of_require_bind h
  obtain ⟨_, db2, hconfirm, h⟩ := of_bind h
  obtain ⟨_, db3, hnode, h⟩ := of_bind h
  cases h
  have hnode := of_insertNodeTx (of_tryCatch_throw hnode)
  have hconfirm := of_confirmPendingFileTx hconfirm
  refine .created hdirs hexp hconfirm hnode (hfree ?_)
  intro n hn
  rw [← hconfirm.nodes] at hn
  exact (hnode.fresh n hn).2

theorem of_finalizeTx (h : finalizeTx dirID uploadID upload nodeID db = .ok (fileID, db'))
    : Finalized upload db fileID db' := by
  obtain ⟨_, _, hcomplete, h⟩ := of_bind h
  cases hcomplete
  obtain ⟨_, db1, hdirs, h⟩ := of_bind h
  have hdirs := DirsAdded.of_ensureParentDirsTx hdirs
  have hnext : RowsNext db db1 := by
    apply RowsNext.trans _ (.of_dirsAdded hdirs)
    exact .of_eq rfl rfl rfl rfl
  have h := of_get h
  cases hexisting : (db1.node? upload.targetPath).bind (·.fileID) with
  | some existingFileID =>
    rw [hexisting] at h
    apply Finalized.of_overwriteTx hnext _ h
    intro hsome hok
    rw [hdirs.contents] at hsome
    exact hdirs.row_eq (hok existingFileID hsome)
  | none =>
    rw [hexisting] at h
    exact .of_createTx hnext hdirs.node?_eq_none h

namespace Finalized

variable {upload : Upload} {fileID : ID} {db db' : Db}

theorem ne_of_updated (hupdate : RowUpdated fileID expectedRevision db1 db2)
    (hdelete : PendingDeleted upload.fileID db2 db3)
    : fileID ≠ upload.fileID := by
  rintro rfl
  obtain ⟨st, rev, _, hrow, _⟩ := hupdate.updated
  obtain ⟨rev', hrow'⟩ := hdelete.pending
  rw [hrow] at hrow'
  cases hrow'

section

variable (h : Finalized upload db fileID db')

include h

theorem committed (hok : db.ContentsOk)
    : Committed ⟨none, upload.targetPath, fileID, uploadExpectedRevision upload⟩ db db' := by
  cases h with
  | overwritten hdirs hfound hconfirmed hexp hupdate hdelete =>
    have hne := ne_of_updated hupdate hdelete
    obtain ⟨st, rev, hrow, hrow', hcond, _⟩ := hupdate.updated
    refine .update hexp ((hfound hok).symm.trans hrow) hcond
      ((hdelete.toOnlyRow.row hne).trans hrow') ?_
    intro id hid
    have hnext := hdirs.row id
    rw [← hupdate.toOnlyRow.row hid] at hnext
    by_cases hu : id = upload.fileID
    . obtain ⟨rev, hpending⟩ := hdelete.pending
      obtain ⟨rev', hdeleted⟩ := hdelete.deleted
      rw [hu] at hnext ⊢
      rw [hpending] at hnext
      apply RowNext.trans hnext
      exact hdeleted ▸ .confirm rev _
    . exact (hdelete.toOnlyRow.row hu) ▸ hnext
  | created hdirs hexp hconfirm hnode hfree =>
    obtain ⟨rev, hpending⟩ := hconfirm.pending
    refine .create hfree hexp (hpending ▸ hdirs.row upload.fileID).unsettled ?_ ?_
    . exact hnode.eq ▸ hconfirm.confirmed
    . intro id hid
      rw [hnode.eq]
      exact (hconfirm.toOnlyRow.row hid) ▸ hdirs.row id

theorem contentsOk (hok : db.ContentsOk) : db'.ContentsOk := by
  cases h with
  | overwritten hdirs hfound hconfirmed hexp hupdate hdelete =>
    exact hdelete.toOnlyRow.contentsOk (hupdate.toOnlyRow.contentsOk (hdirs.contentsOk hok))
  | created hdirs hexp hconfirm hnode hfree =>
    exact (RowsNext.of_nodeInserted hnode).contentsOk
      (hconfirm.toOnlyRow.contentsOk (hdirs.contentsOk hok))

theorem deleted {id : ID} (hdel : db.Deleted id) : db'.Deleted id := by
  cases h with
  | overwritten hdirs hfound hconfirmed hexp hupdate hdelete =>
    have hdel := hdirs.deleted hdel
    have hne : id ≠ fileID := by
      rintro rfl
      obtain ⟨rev, hrow⟩ := hconfirmed
      have hinode := hdel.1
      rw [hrow] at hinode
      cases hinode
    have hdel := hupdate.toOnlyRow.deleted hne hdel
    have hne : id ≠ upload.fileID := by
      rintro rfl
      obtain ⟨rev, hrow⟩ := hdelete.inodePending
      have hinode := hdel.1
      rw [hrow] at hinode
      cases hinode
    exact hdelete.toOnlyRow.deleted hne hdel
  | created hdirs hexp hconfirm hnode hfree =>
    have hdel := hdirs.deleted hdel
    have hne : id ≠ upload.fileID := by
      rintro rfl
      obtain ⟨rev, hrow⟩ := hconfirm.pending
      have hst := hdel.row
      rw [hrow] at hst
      cases hst
    exact (RowsNext.of_nodeInserted hnode).deleted (hconfirm.toOnlyRow.deleted hne hdel)

end

end Finalized

end Backend

theorem UploadTxn.of_run {txn : UploadTxn} (h : txn.run dirID db = .ok (a, db'))
    : txn.isFinalize = false ∧ RowsNext db db'
      ∨ ∃ uploadID upload nodeID fileID, txn = .finalize uploadID upload nodeID
        ∧ finalizeTx dirID uploadID upload nodeID db = .ok (fileID, db') := by
  cases txn with
  | initiate uploadID upload =>
    left
    obtain ⟨_, db1, hinsert, h⟩ := of_bind h
    have h := of_get h
    obtain ⟨_, h⟩ := of_require_bind h
    cases h
    refine ⟨rfl, (RowsNext.of_fileInserted (of_insertFileTx hinsert)).trans ?_⟩
    exact .of_eq rfl rfl rfl rfl
  | finalize uploadID upload nodeID =>
    right
    obtain ⟨fileID, _, hfinalize, hpure⟩ := of_bind h
    cases hpure
    exact ⟨uploadID, upload, nodeID, fileID, rfl, hfinalize⟩
  | abortRow uploadID =>
    cases h
    exact .inl ⟨rfl, .of_eq rfl rfl rfl rfl⟩
  | markLegacyFileDeleted fileID =>
    cases h
    exact .inl ⟨rfl, .markLegacyFileDeleted db fileID⟩
  | markInodeDeleted fileID =>
    cases h
    exact .inl ⟨rfl, .markInodeDeleted db fileID⟩
