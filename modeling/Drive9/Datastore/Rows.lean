import Drive9.Datastore.FilesLemmas
import Drive9.Datastore.Subtree

/-!
This module contains what the transactions do to the status and the revision of a file.
-/

open Option FMap

namespace Datastore

open Transaction

abbrev Row := Option (FileStatus × Int)

namespace Db

def fileRow (db : Db) (fileID : ID) : Row :=
  (db.files.get? fileID).map fun f => (f.status, f.revision)

def inodeRow (db : Db) (fileID : ID) : Row :=
  (db.inodes.get? fileID).map fun i => (i.status, i.revision)

def row (db : Db) (fileID : ID) : Row :=
  if db.useLegacyFiles then db.fileRow fileID else db.inodeRow fileID

def ContentsOk (db : Db) : Prop :=
  ∀ fileID, (db.contents.get? fileID).isSome → (db.inodeRow fileID).isSome

-- In every table that the layout has.
def Deleted (db : Db) (fileID : ID) : Prop :=
  (db.inodeRow fileID).map Prod.fst = some .deleted
    ∧ (db.useLegacyFiles → (db.fileRow fileID).map Prod.fst = some .deleted)

end Db

theorem Db.Deleted.row {db : Db} (h : db.Deleted fileID)
    : (db.row fileID).map Prod.fst = some .deleted := by
  unfold Db.row
  split
  . next hl => exact h.2 hl
  . exact h.1

instance decidableDeleted (db : Db) (fileID : ID) : Decidable (db.Deleted fileID) :=
  inferInstanceAs (Decidable (_ ∧ _))

inductive RowNext : Row → Row → Prop where
  | same (a : Row) : RowNext a a
  | delete (st : FileStatus) (rev : Int) : RowNext (some (st, rev)) (some (.deleted, rev))
  | insert (b : Row) : RowNext none b
  | confirm (rev : Int) (b : FileStatus × Int) : RowNext (some (.pending, rev)) (some b)

namespace RowNext

theorem trans (h1 : RowNext a b) (h2 : RowNext b c) : RowNext a c := by
  cases h1 with
  | same => exact h2
  | delete st rev =>
    cases h2 with
    | same | delete => exact .delete st rev
  | insert => exact .insert c
  | confirm rev =>
    cases h2 with
    | same | delete | confirm => exact .confirm rev _

theorem deleted (h : RowNext a b) (ha : a.map Prod.fst = some .deleted)
    : b.map Prod.fst = some .deleted := by
  cases h with
  | same => exact ha
  | delete => rfl
  | insert | confirm => cases ha

theorem isSome (h : RowNext a b) (ha : a.isSome) : b.isSome := by
  cases h with
  | same => exact ha
  | delete | confirm => rfl
  | insert => contradiction

theorem settled (h : RowNext (some (st, rev)) b) (hst : st ≠ .pending)
    : ∃ st', b = some (st', rev) ∧ st' ≠ .pending := by
  cases h with
  | same => exact ⟨st, rfl, hst⟩
  | delete => exact ⟨.deleted, rfl, by decide⟩
  | confirm => contradiction

end RowNext

structure RowsNext (db db' : Db) : Prop where
  layout : db'.useLegacyFiles = db.useLegacyFiles
  file : ∀ fileID, RowNext (db.fileRow fileID) (db'.fileRow fileID)
  inode : ∀ fileID, RowNext (db.inodeRow fileID) (db'.inodeRow fileID)
  contents : ∀ fileID, (db'.contents.get? fileID).isSome
    → (db.contents.get? fileID).isSome ∨ (db'.inodeRow fileID).isSome

namespace RowsNext

variable {db db1 db' : Db}

theorem refl (db)
    : RowsNext db db := ⟨rfl, fun _ => .same _, fun _ => .same _, fun _ => .inl⟩

theorem trans (h1 : RowsNext db db1) (h2 : RowsNext db1 db') : RowsNext db db' where
  layout := h2.layout.trans h1.layout
  file := fun fileID => (h1.file fileID).trans (h2.file fileID)
  inode := fun fileID => (h1.inode fileID).trans (h2.inode fileID)
  contents := by
    intro fileID hsome
    cases h2.contents fileID hsome with
    | inl h =>
      cases h1.contents fileID h with
      | inl h => exact .inl h
      | inr h => exact .inr ((h2.inode fileID).isSome h)
    | inr h => exact .inr h

theorem contentsOk (h : RowsNext db db') (hok : db.ContentsOk) : db'.ContentsOk := by
  intro fileID hsome
  cases h.contents fileID hsome with
  | inl h' => exact (h.inode fileID).isSome (hok fileID h')
  | inr h' => exact h'

theorem row (h : RowsNext db db') (fileID : ID) : RowNext (db.row fileID) (db'.row fileID) := by
  unfold Db.row
  rw [h.layout]
  split
  . exact h.file fileID
  . exact h.inode fileID

theorem deleted (h : RowsNext db db') (hdel : db.Deleted fileID) : db'.Deleted fileID := by
  refine ⟨(h.inode fileID).deleted hdel.1, ?_⟩
  intro hl
  rw [h.layout] at hl
  exact (h.file fileID).deleted (hdel.2 hl)

theorem of_eq (hlayout : db'.useLegacyFiles = db.useLegacyFiles) (hfiles : db'.files = db.files)
    (hinodes : db'.inodes = db.inodes) (hcontents : db'.contents = db.contents)
    : RowsNext db db' := by
  refine ⟨hlayout, ?_, ?_, ?_⟩
  . intro fileID
    unfold Db.fileRow
    rw [hfiles]
    exact .same _
  . intro fileID
    unfold Db.inodeRow
    rw [hinodes]
    exact .same _
  . intro fileID hsome
    rw [hcontents] at hsome
    exact .inl hsome

theorem of_dirsAdded (h : DirsAdded db db') : RowsNext db db' := by
  refine ⟨h.useLegacyFiles, ?_, ?_, ?_⟩
  . intro fileID
    unfold Db.fileRow
    rw [h.files]
    exact .same _
  . intro fileID
    unfold Db.inodeRow
    obtain heq | ⟨hnone, heq⟩ := h.inodes fileID
    . rw [heq]
      exact .same _
    . rw [hnone]
      exact .insert _
  . intro fileID hsome
    rw [h.contents] at hsome
    exact .inl hsome

theorem of_fileInserted (h : FileInserted fileID f db db') : RowsNext db db' := by
  obtain ⟨hfile, hinode, _, rfl⟩ := h
  refine ⟨rfl, ?_, ?_, ?_⟩
  . intro id
    unfold Db.fileRow Db.setLegacyFile
    split
    . next hl =>
      rw [get?_set]
      split
      . next heq =>
        rw [heq, hfile hl]
        exact .insert _
      . exact .same _
    . exact .same _
  . intro id
    unfold Db.inodeRow
    rw [get?_set]
    split
    . next heq =>
      rw [heq, hinode]
      exact .insert _
    . exact .same _
  . intro id hsome
    unfold Db.inodeRow
    rw [get?_set] at hsome ⊢
    split at hsome
    . next heq =>
      rw [if_pos heq]
      exact .inr rfl
    . exact .inl hsome

theorem of_nodeInserted (h : NodeInserted n db db') : RowsNext db db' := by
  rw [h.eq]
  exact of_eq rfl rfl rfl rfl

theorem markLegacyFileDeleted (db) (fileID : ID)
    : RowsNext db (db.markLegacyFileDeleted fileID) := by
  refine ⟨rfl, ?_, fun _ => .same _, fun _ => .inl⟩
  intro id
  unfold Db.fileRow Db.markLegacyFileDeleted
  rw [get?_modify]
  split
  . next heq =>
    rw [heq]
    cases db.files.get? fileID with
    | none => exact .same _
    | some f => exact .delete _ _
  . exact .same _

theorem markInodeDeleted (db) (fileID : ID) : RowsNext db (db.markInodeDeleted fileID) := by
  refine ⟨rfl, fun _ => .same _, ?_, fun _ => .inl⟩
  intro id
  unfold Db.inodeRow Db.markInodeDeleted
  rw [get?_modify]
  split
  . next heq =>
    rw [heq]
    cases db.inodes.get? fileID with
    | none => exact .same _
    | some i => exact .delete _ _
  . exact .same _

theorem markFileDeleted (db) (fileID : ID) : RowsNext db (db.markFileDeleted fileID) := by
  unfold Db.markFileDeleted
  split
  . exact (markLegacyFileDeleted db fileID).trans (markInodeDeleted _ fileID)
  . exact markInodeDeleted db fileID

theorem foldl_markFileDeleted (db) (ids : List ID)
    : RowsNext db (ids.foldl Db.markFileDeleted db) := by
  induction ids generalizing db with
  | nil => exact refl db
  | cons id ids ih => exact (markFileDeleted db id).trans (ih _)

theorem of_collectedAfter (h : CollectedAfter fileID candidate s s') : RowsNext s.db s'.db := by
  cases h with
  | kept => exact refl s.db
  | collected _ _ _ =>
    unfold FileStore.collect
    rw [FileStore.db_enqueueFileGCTask]
    exact markFileDeleted s.db _

theorem of_deleteFileWithRefCheck (h : deleteFileWithRefCheck path s = .ok (r, s'))
    : RowsNext s.db s'.db := by
  obtain ⟨node, _, _, hcollected⟩ := Datastore.of_deleteFileWithRefCheck h
  apply RowsNext.trans _ (of_collectedAfter hcollected)
  exact of_eq rfl rfl rfl rfl

theorem of_renameFileReplacingTarget
    (h : renameFileReplacingTarget oldPath newPath newParentPath newName s = .ok (r, s'))
    : RowsNext s.db s'.db := by
  obtain rfl | ⟨old, hrenamed⟩ := Datastore.of_renameFileReplacingTarget h
  . exact refl _
  . apply RowsNext.trans _ (of_collectedAfter hrenamed.collected)
    exact of_eq rfl rfl rfl rfl

theorem of_deleteDirRecursive (h : Files.deleteDirRecursive dirPath s = .ok (r, s'))
    : RowsNext s.db s'.db := by
  obtain ⟨orphanIDs, _, _, rfl⟩ := Datastore.of_deleteDirRecursive h
  rw [FileStore.db_foldl_enqueue]
  apply RowsNext.trans _ (foldl_markFileDeleted _ orphanIDs)
  exact of_eq rfl rfl rfl rfl

end RowsNext

structure OnlyRow (fileID : ID) (db db' : Db) : Prop where
  layout : db'.useLegacyFiles = db.useLegacyFiles
  nodes : db'.fileNodes = db.fileNodes
  file : ∀ id, id ≠ fileID → db'.fileRow id = db.fileRow id
  inode : ∀ id, id ≠ fileID → db'.inodeRow id = db.inodeRow id
  kept : (db.inodeRow fileID).isSome → (db'.inodeRow fileID).isSome
  contents : ∀ id, (db'.contents.get? id).isSome → (db.contents.get? id).isSome

namespace OnlyRow

variable {fileID : ID} {db db' : Db}

section

variable (h : OnlyRow fileID db db')

include h

theorem row {id : ID} (hne : id ≠ fileID) : db'.row id = db.row id := by
  unfold Db.row
  rw [h.layout, h.file id hne, h.inode id hne]

theorem deleted {id : ID} (hne : id ≠ fileID) (hdel : db.Deleted id) : db'.Deleted id := by
  unfold Db.Deleted
  rw [h.layout, h.file id hne, h.inode id hne]
  exact hdel

theorem contentsOk (hok : db.ContentsOk) : db'.ContentsOk := by
  intro id hsome
  have hinode := hok id (h.contents id hsome)
  by_cases heq : id = fileID
  . rw [heq] at hinode ⊢
    exact h.kept hinode
  . rw [h.inode id heq]
    exact hinode

end

theorem of_modify (hlayout : db'.useLegacyFiles = db.useLegacyFiles)
    (hnodes : db'.fileNodes = db.fileNodes)
    (hfiles : ∀ id, id ≠ fileID → db'.files.get? id = db.files.get? id)
    (hinodes : db'.inodes = db.inodes.modify fileID f)
    (hcontents : db'.contents = db.contents.modify fileID g)
    : OnlyRow fileID db db' := by
  refine ⟨hlayout, hnodes, ?_, ?_, ?_, ?_⟩
  . intro id hne
    unfold Db.fileRow
    rw [hfiles id hne]
  . intro id hne
    unfold Db.inodeRow
    rw [hinodes, get?_modify, if_neg hne]
  . intro hsome
    unfold Db.inodeRow at *
    rw [hinodes, get?_modify, if_pos rfl]
    simpa using hsome
  . intro id hsome
    rw [hcontents, get?_modify] at hsome
    split at hsome
    . next heq =>
      rw [heq]
      simpa using hsome
    . exact hsome

end OnlyRow

structure RowUpdated (fileID : ID) (expectedRevision : Int)
    (db db' : Db) : Prop extends OnlyRow fileID db db' where
  updated : ∃ st rev, db.row fileID = some (st, rev) ∧ db'.row fileID = some (.confirmed, rev + 1)
    ∧ (expectedRevision > 0 → st = .confirmed ∧ rev = expectedRevision)
    ∧ (¬ db.useLegacyFiles → st = .confirmed)

theorem RowUpdated.of_contentUpdated
    (h : ContentUpdated fileID expectedRevision storageType storageRef size rev db db')
    : RowUpdated fileID expectedRevision db db' := by
  obtain ⟨hlegacy, hsplit, _, rfl⟩ := h
  refine ⟨.of_modify rfl rfl ?_ rfl rfl, ?_⟩
  . exact fun id hne => db.setLegacyFile_of_ne _ hne
  . unfold Db.row Db.fileRow Db.inodeRow Db.setLegacyFile
    by_cases hl : db.useLegacyFiles = true
    . obtain ⟨f, hf, rfl, hexp⟩ := hlegacy hl
      rw [if_pos hl, if_pos hl, if_pos hl, hf, get?_set_self]
      exact ⟨f.status, f.revision, rfl, rfl, fun h => (hexp h).symm, fun hc => absurd hl hc⟩
    . obtain ⟨i, hi, rfl, hst, hexp⟩ := hsplit hl
      rw [if_neg hl, if_neg hl, get?_modify, if_pos rfl, hi]
      exact ⟨i.status, i.revision, rfl, rfl, fun h => ⟨hst, hexp h⟩, fun _ => hst⟩

theorem of_getFileStorageMetaForUpdateTx
    (h : getFileStorageMetaForUpdateTx fileID db = .ok (storageMeta, db'))
    : (∃ rev, db.inodeRow fileID = some (.confirmed, rev)) ∧ db = db' := by
  have h := of_get h
  cases hsome : db.confirmedMeta fileID with
  | none =>
    rw [hsome] at h
    cases h
  | some found =>
    rw [hsome] at h
    cases h
    unfold Db.confirmedMeta at hsome
    split at hsome
    . next inode _ hinode _ =>
      split at hsome
      . next hst =>
        refine ⟨⟨inode.revision, ?_⟩, rfl⟩
        unfold Db.inodeRow
        rw [hinode, map_some, hst]
      . contradiction
    . contradiction

theorem of_updatePendingFileTx (h : updatePendingFileTx fileID g db = .ok (a, db'))
    : ∃ f, db.files.get? fileID = some f ∧ f.status = .pending
      ∧ db' = { db with files := db.files.set fileID (g f) } := by
  have h := of_get h
  cases hf : db.files.get? fileID with
  | none =>
    rw [hf] at h
    cases h
  | some f =>
    rw [hf] at h
    obtain ⟨hpending, h⟩ := of_require_bind h
    cases h
    exact ⟨f, rfl, hpending, rfl⟩

theorem of_requirePendingInodeTx (h : requirePendingInodeTx fileID db = .ok (a, db'))
    : (∃ i, db.inodes.get? fileID = some i ∧ i.status = .pending) ∧ db = db' := by
  have h := of_get h
  obtain ⟨hpending, rfl⟩ := of_require h
  exact ⟨map_eq_some_iff.mp hpending, rfl⟩

structure RowConfirmed (fileID : ID) (db db' : Db) : Prop extends OnlyRow fileID db db' where
  pending : ∃ rev, db.row fileID = some (.pending, rev)
  confirmed : ∃ rev, db'.row fileID = some (.confirmed, rev)

theorem of_confirmPendingFileTx
    (h : confirmPendingFileTx fileID storageType storageRef size db = .ok (a, db'))
    : RowConfirmed fileID db db' := by
  obtain ⟨_, db1, hpending, h⟩ := of_bind h
  have hpending := of_byLayout hpending
  by_cases hl : db.useLegacyFiles = true
  . rw [if_pos hl] at hpending
    obtain ⟨f, hf, hst, rfl⟩ := of_updatePendingFileTx hpending
    cases h
    refine ⟨.of_modify rfl rfl ?_ rfl rfl, ⟨f.revision, ?_⟩, ⟨f.revision, ?_⟩⟩
    . exact fun id hne => get?_set_ne _ _ hne
    . unfold Db.row Db.fileRow
      rw [if_pos hl, hf, map_some, hst]
    . unfold Db.row Db.fileRow
      rw [if_pos hl, get?_set_self]
      rfl
  . rw [if_neg hl] at hpending
    obtain ⟨⟨i, hi, hst⟩, rfl⟩ := of_requirePendingInodeTx hpending
    cases h
    refine ⟨.of_modify rfl rfl ?_ rfl rfl, ⟨i.revision, ?_⟩, ⟨1, ?_⟩⟩
    . exact fun _ _ => rfl
    . unfold Db.row Db.inodeRow
      rw [if_neg hl, hi, map_some, hst]
    . unfold Db.row Db.inodeRow
      rw [if_neg hl, get?_modify, if_pos rfl, hi]
      rfl

structure PendingDeleted (fileID : ID) (db db' : Db) : Prop extends OnlyRow fileID db db' where
  pending : ∃ rev, db.row fileID = some (.pending, rev)
  inodePending : ∃ rev, db.inodeRow fileID = some (.pending, rev)
  deleted : ∃ rev, db'.row fileID = some (.deleted, rev)

theorem of_deletePendingFileTx (h : deletePendingFileTx fileID db = .ok (a, db'))
    : PendingDeleted fileID db db' := by
  obtain ⟨_, db1, hpending, h⟩ := of_bind h
  obtain ⟨_, _, hinode, h⟩ := of_bind h
  obtain ⟨⟨i, hi, hist⟩, rfl⟩ := of_requirePendingInodeTx hinode
  cases h
  have hpending := of_byLayout hpending
  by_cases hl : db.useLegacyFiles = true
  . rw [if_pos hl] at hpending
    obtain ⟨f, hf, hst, rfl⟩ := of_updatePendingFileTx hpending
    refine ⟨.of_modify rfl rfl ?_ rfl rfl, ⟨f.revision, ?_⟩, ⟨i.revision, ?_⟩, ⟨f.revision, ?_⟩⟩
    . exact fun id hne => get?_set_ne _ _ hne
    . unfold Db.row Db.fileRow
      rw [if_pos hl, hf, map_some, hst]
    . unfold Db.inodeRow
      rw [hi, map_some, hist]
    . unfold Db.row Db.fileRow Db.markInodeDeleted
      rw [if_pos hl, get?_set_self]
      rfl
  . rw [if_neg hl] at hpending
    cases hpending
    have hinode : db.inodeRow fileID = some (.pending, i.revision) := by
      unfold Db.inodeRow
      rw [hi, map_some, hist]
    refine ⟨.of_modify rfl rfl ?_ rfl rfl, ⟨i.revision, ?_⟩, ⟨i.revision, hinode⟩, ⟨i.revision, ?_⟩⟩
    . exact fun _ _ => rfl
    . unfold Db.row
      rw [if_neg hl, hinode]
    . unfold Db.row Db.inodeRow Db.markInodeDeleted
      rw [if_neg hl, get?_modify, if_pos rfl, hi]
      rfl

end Datastore
