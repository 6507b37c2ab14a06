import Drive9.Datastore.Store

/-!
This module contains what the statements do to an upload row: an update of its status, and that the
functions on files leave the rows alone.
-/

namespace Datastore

open Transaction

namespace Db

theorem uploadStatus_transitionUpload (db : Db) (uploadID) (old) (new)
    : (db.transitionUpload uploadID old new).uploadStatus uploadID
        =
      (db.uploadStatus uploadID).map fun st => if st ∈ old then new else st := by
  unfold transitionUpload uploadStatus
  rw [FMap.get?_modify, if_pos rfl, Option.map_map, Option.map_map]
  congr 1
  funext u
  dsimp only [Function.comp]
  split
  all_goals rfl

theorem uploads_ensureDir (dirID : Str → ID) (db : Db) (dirPath)
    : (db.ensureDir dirID dirPath).uploads = db.uploads := by
  unfold ensureDir insertIgnoreInode insertNodeOrKeep
  dsimp only
  repeat' split
  all_goals rfl

end Db

theorem keeps_byLayout (hlegacy : Keeps f legacy) (hsplit : Keeps f split)
    : Keeps f (byLayout legacy split) := by
  intro db a db' h
  unfold byLayout at h
  split at h
  . exact hlegacy db a db' h
  . exact hsplit db a db' h

theorem keeps_setFileTx (fileID) (f) : Keeps Db.uploads (setFileTx fileID f) := by
  exact .modify fun _ => rfl

theorem keeps_ensureParentDirsTx (dirID : Str → ID) (path)
    : Keeps Db.uploads (ensureParentDirsTx dirID path) := by
  apply Keeps.modify
  intro db
  generalize (ancestors path.length path).reverse = dirs
  induction dirs generalizing db with
  | nil => rfl
  | cons d ds ih => rw [List.foldl_cons, ih, Db.uploads_ensureDir]

theorem keeps_insertNodeTx (n) : Keeps Db.uploads (insertNodeTx n) := by
  apply Keeps.bind
  . unfold lockForAttachTx
    split
    . split
      . exact .pure ()
      . exact .bind .get fun db => .bind (.require _ _) fun _ => .require _ _
    . exact .pure ()
  . intro _
    exact .bind .get fun db => .bind (.require _ _) fun _ => .modify fun _ => rfl

section

variable (fileID : ID)

theorem keeps_getFileStorageMetaForUpdateTx
    : Keeps Db.uploads (getFileStorageMetaForUpdateTx fileID) := by
  apply Keeps.bind .get
  intro db
  split
  . exact .pure _
  . exact .throw _

section

variable (expectedRevision : Int)

theorem keeps_updateLegacyFileTx (storageType) (storageRef) (size)
    : Keeps Db.uploads (updateLegacyFileTx fileID expectedRevision storageType storageRef size) := by
  apply Keeps.bind .get
  intro db
  split
  . exact .throw _
  . exact .bind (.require _ _) fun _ => .bind (keeps_setFileTx _ _) fun _ => .pure _

theorem keeps_nextInodeRevisionTx
    : Keeps Db.uploads (nextInodeRevisionTx fileID expectedRevision) := by
  apply Keeps.bind .get
  intro db
  split
  . exact .throw _
  . exact .bind (.require _ _) fun _ => .bind (.require _ _) fun _ => .pure _

theorem keeps_updateFileContentTx (storageType) (storageRef) (size)
    : Keeps Db.uploads (updateFileContentTx fileID expectedRevision storageType storageRef size) := by
  apply Keeps.bind (keeps_byLayout (keeps_updateLegacyFileTx _ _ _ _ _) (keeps_nextInodeRevisionTx _ _))
  intro rev
  apply Keeps.bind
  . exact .modify fun _ => rfl
  . intro _
    exact .bind .get fun _ => .bind (.require _ _) fun _ => .bind (.modify fun _ => rfl) fun _ => .pure _

end

theorem keeps_updatePendingFileTx (g : File → File)
    : Keeps Db.uploads (updatePendingFileTx fileID g) := by
  apply Keeps.bind .get
  intro db
  split
  . exact .throw _
  . exact .bind (.require _ _) fun _ => keeps_setFileTx _ _

theorem keeps_requirePendingInodeTx : Keeps Db.uploads (requirePendingInodeTx fileID) := by
  exact .bind .get fun _ => .require _ _

theorem keeps_confirmPendingFileTx (storageType) (storageRef) (size)
    : Keeps Db.uploads (confirmPendingFileTx fileID storageType storageRef size) := by
  apply Keeps.bind (keeps_byLayout (keeps_updatePendingFileTx _ _) (keeps_requirePendingInodeTx _))
  intro _
  exact .bind (.modify fun _ => rfl) fun _ => .modify fun _ => rfl

theorem keeps_deletePendingFileTx : Keeps Db.uploads (deletePendingFileTx fileID) := by
  apply Keeps.bind (keeps_byLayout (keeps_updatePendingFileTx _ _) (.pure ()))
  intro _
  apply Keeps.bind (keeps_requirePendingInodeTx _)
  intro _
  exact .bind (.modify fun _ => rfl) fun _ => .modify fun _ => rfl

end

theorem keeps_setUploadFileID (uploadID fileID)
    : Keeps (Db.uploadStatus · uploadID) (setUploadFileID uploadID fileID) := by
  apply Keeps.modify
  intro db
  unfold Db.uploadStatus
  rw [FMap.get?_modify, if_pos rfl, Option.map_map]
  rfl

theorem keeps_uploadStatus (h : Keeps Db.uploads x) (uploadID)
    : Keeps (Db.uploadStatus · uploadID) x := by
  intro db a db' hx
  have hdb := h db a db' hx
  unfold Db.uploadStatus
  dsimp only
  rw [hdb]

end Datastore
