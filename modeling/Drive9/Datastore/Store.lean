import Drive9.Lib.FMap
import Drive9.Lib.Transaction
import Drive9.Datastore.Path

/-!
This module contains the tenant database: the tables `file_nodes`, `inodes`, `contents`, `uploads`
and the legacy `files`, and the functions of `pkg/datastore` that create, confirm, overwrite and
delete files in them.
-/

namespace Datastore

open Transaction (require)

abbrev ID := Str

inductive FileStatus where
  | pending
  | confirmed
  | deleted
  deriving DecidableEq

inductive StorageType where
  | db9
  | s3
  deriving DecidableEq

inductive UploadStatus where
  | initiated
  | uploading
  | completed
  | aborted
  | expired
  deriving DecidableEq

def UploadStatus.terminal (st : UploadStatus) : Bool :=
  match st with
  | .initiated => false
  | .uploading => false
  | .completed => true
  | .aborted => true
  | .expired => true

inductive StoreError where
  | notFound
  | uploadNotActive
  | uploadExpired
  | pathConflict
  | revisionConflict
  -- `sql.ErrNoRows` where the source passes it on
  | noRows
  -- an error of the driver or of a statement that is not modelled
  | driver
  deriving DecidableEq

structure FileNode where
  nodeID : ID
  path : Str
  parentPath : Str
  name : Str
  isDirectory : Bool
  fileID : Option ID
  inodeID : Option ID
  deriving DecidableEq

structure Inode where
  sizeBytes : Int
  revision : Int
  status : FileStatus
  deriving DecidableEq

structure Content where
  storageType : StorageType
  storageRef : Str
  deriving DecidableEq

structure File where
  storageType : StorageType
  storageRef : Str
  sizeBytes : Int
  revision : Int
  status : FileStatus
  deriving DecidableEq

structure Upload where
  fileID : ID
  targetPath : Str
  s3Key : Str
  totalSize : Int
  partSize : Int
  partsTotal : Int
  expectedRevision : Option Int
  status : UploadStatus
  expiresAt : Int
  deriving DecidableEq

structure Db where
  useLegacyFiles : Bool
  fileNodes : List FileNode
  files : FMap ID File
  inodes : FMap ID Inode
  contents : FMap ID Content
  uploads : FMap ID Upload

abbrev Tx := StateT Db (Except StoreError)

namespace Db

def uploadStatus (db : Db) (uploadID : ID) : Option UploadStatus :=
  (db.uploads.get? uploadID).map (·.status)

def node? (db : Db) (path : Str) : Option FileNode := db.fileNodes.find? (·.path = path)

def transitionUpload (db : Db) (uploadID : ID) (old : List UploadStatus) (new : UploadStatus)
    : Db :=
  { db with
    uploads := db.uploads.modify uploadID fun u => if u.status ∈ old then { u with status := new } else u }

def abortUpload (db : Db) (uploadID : ID) : Db := db.transitionUpload uploadID [.uploading] .aborted

def abortUploadV2 (db : Db) (uploadID : ID) : Db :=
  db.transitionUpload uploadID [.initiated, .uploading] .aborted

def markLegacyFileDeleted (db : Db) (fileID : ID) : Db :=
  { db with files := db.files.modify fileID fun f => { f with status := .deleted } }

def markInodeDeleted (db : Db) (fileID : ID) : Db :=
  { db with inodes := db.inodes.modify fileID fun i => { i with status := .deleted } }

def getUpload (db : Db) (uploadID : ID) : Except StoreError Upload :=
  match db.uploads.get? uploadID with
  | none => .error .notFound
  | some u => .ok u

end Db

def completeUploadTx (uploadID : ID) : Tx Unit :=
  modify fun db => db.transitionUpload uploadID [.uploading] .completed

def transitionUploadStatus (uploadID : ID) (expectedStatus newStatus : UploadStatus) : Tx Unit := do
  let db ← get
  require (db.uploadStatus uploadID = some expectedStatus) .uploadNotActive
  modify fun db => db.transitionUpload uploadID [expectedStatus] newStatus

def setUploadFileID (uploadID fileID : ID) : Tx Unit :=
  modify fun db => { db with uploads := db.uploads.modify uploadID fun u => { u with fileID := fileID } }

def ancestors (fuel : Nat) (cur : Str) : List Str :=
  match fuel with
  | 0 => []
  | fuel + 1 =>
    let parent := parentPath cur
    if parent = cur ∨ parent = ['/'] then [] else parent :: ancestors fuel parent

def Db.insertIgnoreInode (db : Db) (id : ID) (inode : Inode) : Db :=
  if (db.inodes.get? id).isSome then db else { db with inodes := db.inodes.set id inode }

def Db.insertNodeOrKeep (db : Db) (n : FileNode) : Db :=
  if db.fileNodes.any (fun m => m.nodeID = n.nodeID ∨ m.path = n.path) then
    db
  else
    { db with fileNodes := db.fileNodes ++ [n] }

def Db.ensureDir (deterministicNodeID : Str → ID) (db : Db) (dirPath : Str) : Db :=
  let nodeID := deterministicNodeID dirPath
  match db.fileNodes.find? (fun n => n.path = dirPath ∧ n.isDirectory) with
  | some n =>
    if n.inodeID.isSome then
      db
    else
      -- a directory from before the split tables, its inode is filled in
      let db := db.insertIgnoreInode nodeID ⟨0, 1, .confirmed⟩
      { db with
        fileNodes := db.fileNodes.map fun m =>
          if m.path = dirPath ∧ m.isDirectory then { m with inodeID := some nodeID } else m }
  | none =>
    (db.insertIgnoreInode nodeID ⟨0, 1, .confirmed⟩).insertNodeOrKeep
      { nodeID := nodeID
        path := dirPath
        parentPath := parentPath dirPath
        name := baseName dirPath
        isDirectory := true
        fileID := none
        inodeID := some nodeID }

def ensureParentDirsTx (deterministicNodeID : Str → ID) (path : Str) : Tx Unit :=
  modify fun db => (ancestors path.length path).reverse.foldl (Db.ensureDir deterministicNodeID) db

def lockConfirmedFileForAttachTx (fileID : ID) : Tx Unit := do
  let db ← get
  require (db.useLegacyFiles → (db.files.get? fileID).map (·.status) = some .confirmed) .notFound
  require ((db.inodes.get? fileID).map (·.status) = some .confirmed) .notFound

def lockForAttachTx (n : FileNode) : Tx Unit :=
  match n.fileID with
  | some fileID => if n.isDirectory then pure () else lockConfirmedFileForAttachTx fileID
  | none => pure ()

def insertNodeTx (n : FileNode) : Tx Unit := do
  lockForAttachTx n
  let db ← get
  require (¬ db.fileNodes.any (fun m => m.nodeID = n.nodeID ∨ m.path = n.path)) .pathConflict
  modify fun db => { db with fileNodes := db.fileNodes ++ [n] }

structure FileStorageMeta where
  storageType : StorageType
  storageRef : Str
  revision : Int
  sizeBytes : Int

def Db.confirmedMeta (db : Db) (fileID : ID) : Option FileStorageMeta :=
  match db.inodes.get? fileID, db.contents.get? fileID with
  | some inode, some content =>
    if inode.status = .confirmed then
      some ⟨content.storageType, content.storageRef, inode.revision, inode.sizeBytes⟩
    else
      none
  | _, _ => none

def getFileStorageMetaForUpdateTx (fileID : ID) : Tx FileStorageMeta := do
  match (← get).confirmedMeta fileID with
  | some storageMeta => pure storageMeta
  | none => throw .notFound

def updateInodeContentTx (fileID : ID) (sizeBytes revision : Int) (status : FileStatus) : Tx Unit :=
  modify fun db => { db with inodes := db.inodes.modify fileID fun _ => ⟨sizeBytes, revision, status⟩ }

def updateContentTx (fileID : ID) (storageType : StorageType) (storageRef : Str) : Tx Unit :=
  modify fun db => { db with contents := db.contents.modify fileID fun _ => ⟨storageType, storageRef⟩ }

def byLayout (legacy split : Tx α) : Tx α :=
  fun db => if db.useLegacyFiles then legacy db else split db

def setFileTx (fileID : ID) (f : File) : Tx Unit :=
  modify fun db => { db with files := db.files.set fileID f }

def updateLegacyFileTx (fileID : ID) (expectedRevision : Int) (storageType : StorageType)
    (storageRef : Str)
    (size : Int) : Tx Int := do
  let missing := if expectedRevision > 0 then StoreError.revisionConflict else StoreError.notFound
  match (← get).files.get? fileID with
  | none => throw missing
  | some f => do
    require (expectedRevision > 0 → f.revision = expectedRevision ∧ f.status = .confirmed) missing
    setFileTx fileID ⟨storageType, storageRef, size, f.revision + 1, .confirmed⟩
    pure (f.revision + 1)

def nextInodeRevisionTx (fileID : ID) (expectedRevision : Int) : Tx Int := do
  let missing := if expectedRevision > 0 then StoreError.revisionConflict else StoreError.notFound
  match (← get).inodes.get? fileID with
  | none => throw missing
  | some inode => do
    require (inode.status = .confirmed) missing
    require (expectedRevision > 0 → inode.revision = expectedRevision) .revisionConflict
    pure (inode.revision + 1)

def updateFileContentTx (fileID : ID) (expectedRevision : Int) (storageType : StorageType)
    (storageRef : Str)
    (size : Int) : Tx Int := do
  let rev ← byLayout (updateLegacyFileTx fileID expectedRevision storageType storageRef size)
    (nextInodeRevisionTx fileID expectedRevision)
  updateInodeContentTx fileID size rev .confirmed
  let db ← get
  require ((db.contents.get? fileID).isSome) .noRows
  updateContentTx fileID storageType storageRef
  pure rev

def updatePendingFileTx (fileID : ID) (g : File → File) : Tx Unit := do
  match (← get).files.get? fileID with
  | none => throw .notFound
  | some f => do
    require (f.status = .pending) .notFound
    setFileTx fileID (g f)

def requirePendingInodeTx (fileID : ID) : Tx Unit := do
  let db ← get
  require ((db.inodes.get? fileID).map (·.status) = some .pending) .notFound

def confirmPendingFileTx (fileID : ID) (storageType : StorageType) (storageRef : Str) (size : Int)
    : Tx Unit := do
  let confirm := fun f : File =>
    { f with storageType := storageType, storageRef := storageRef, sizeBytes := size, status := .confirmed }
  byLayout (updatePendingFileTx fileID confirm) (requirePendingInodeTx fileID)
  updateInodeContentTx fileID size 1 .confirmed
  updateContentTx fileID storageType storageRef

def deletePendingFileTx (fileID : ID) : Tx Unit := do
  let delete := fun f : File => { f with status := .deleted, storageRef := [] }
  byLayout (updatePendingFileTx fileID delete) (pure ())
  requirePendingInodeTx fileID
  modify fun db => db.markInodeDeleted fileID
  modify fun db => { db with contents := db.contents.modify fileID fun c => { c with storageRef := [] } }

end Datastore
