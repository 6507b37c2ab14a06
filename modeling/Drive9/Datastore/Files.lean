import Drive9.Datastore.Namespace
import Drive9.Journal.Impl

/-!
This module contains the life of a file in the tenant database.
-/

namespace Datastore

open Transaction (require)
open Journal (trimSpace)

structure FileGCTask where
  taskID : ID
  fileID : ID
  storageType : StorageType
  storageRef : Str
  sizeBytes : Int
  deriving DecidableEq

structure FileStore where
  db : Db
  fileGCTasks : List FileGCTask

inductive FileError where
  | store (err : StoreError)
  | fileIDRequired
  | sourceIsDirectory (path : Str)
  | directoryNotEmpty (path : Str)
  deriving DecidableEq

abbrev FileTx := StateT FileStore (Except FileError)

def onDb (x : Tx α) : FileTx α := fun s =>
  match x s.db with
  | .error err => .error (.store err)
  | .ok (a, db) => .ok (a, { s with db := db })

def insertLegacyFileTx (fileID : ID) (f : File) : Tx Unit := do
  let db ← get
  require ((db.files.get? fileID).isNone) .driver
  setFileTx fileID f

def insertInodeTx (inodeID : ID) (inode : Inode) : Tx Unit := do
  let db ← get
  require ((db.inodes.get? inodeID).isNone) .driver
  modify fun db => { db with inodes := db.inodes.set inodeID inode }

def insertContentTx (inodeID : ID) (content : Content) : Tx Unit := do
  let db ← get
  require ((db.contents.get? inodeID).isNone) .driver
  modify fun db => { db with contents := db.contents.set inodeID content }

def insertSplitTablesTx (fileID : ID) (f : File) : Tx Unit := do
  insertInodeTx fileID ⟨f.sizeBytes, f.revision, f.status⟩
  insertContentTx fileID ⟨f.storageType, f.storageRef⟩

def insertFileTx (fileID : ID) (f : File) : Tx Unit := do
  byLayout (insertLegacyFileTx fileID f) (pure ())
  insertSplitTablesTx fileID f

structure GCFile where
  fileID : ID
  storageType : StorageType
  storageRef : Str
  sizeBytes : Int
  deriving DecidableEq

def Db.legacyGCFile (db : Db) (fileID : ID) : Option GCFile :=
  (db.files.get? fileID).map fun f => ⟨fileID, f.storageType, f.storageRef, f.sizeBytes⟩

def Db.scanFileForGC (db : Db) (fileID : ID) : Option GCFile :=
  if db.useLegacyFiles then
    db.legacyGCFile fileID
  else
    match db.inodes.get? fileID, db.contents.get? fileID with
    | some inode, some content =>
      some ⟨fileID, content.storageType, content.storageRef, inode.sizeBytes⟩
    | _, _ => none

def Db.deleteCandidateFile (db : Db) (fileID : ID) : Option GCFile :=
  if db.useLegacyFiles then
    db.legacyGCFile fileID
  else
    (db.contents.get? fileID).map fun content =>
      ⟨fileID, content.storageType, content.storageRef, ((db.inodes.get? fileID).map (·.sizeBytes)).getD 0⟩

def newFileGCTaskFromFile (f : GCFile) : FileTx FileGCTask := do
  require (trimSpace f.fileID ≠ []) .fileIDRequired
  pure ⟨f.fileID, f.fileID, f.storageType, f.storageRef, f.sizeBytes⟩

def FileStore.enqueueFileGCTask (s : FileStore) (task : FileGCTask) : FileStore :=
  if s.fileGCTasks.any (fun t => t.taskID = task.taskID ∨ t.fileID = task.fileID) then
    s
  else
    { s with fileGCTasks := s.fileGCTasks ++ [task] }

def enqueueFileTx (f : GCFile) : FileTx Unit := do
  let task ← newFileGCTaskFromFile f
  modify fun s => s.enqueueFileGCTask task

def enqueueFilesTx : List GCFile → FileTx Unit
  | [] => pure ()
  | f :: fs => do
    enqueueFileTx f
    enqueueFilesTx fs

def markDeletedAndEnqueueTx (f : GCFile) : FileTx Unit := do
  onDb (modify fun db => db.markFileDeleted f.fileID)
  enqueueFileTx f

def collectDeletedTx (fileID : ID) (candidate : Option GCFile) : FileTx (Option GCFile) := do
  if (← get).db.referenced fileID then
    pure none
  else
    match candidate with
    | none => throw (.store .notFound)
    | some f => do
      markDeletedAndEnqueueTx f
      pure (some f)

def deleteFileWithRefCheck (path : Str) : FileTx (Option GCFile) := do
  let db := (← get).db
  match db.node? path with
  | none => throw (.store .notFound)
  | some node => do
    require (¬ node.isDirectory) (.store .notFound)
    onDb (modify fun db => db.deleteNodes fun n => n.path = path)
    match node.fileID with
    | none => pure none
    | some fileID =>
      if fileID = [] then pure none else collectDeletedTx fileID (db.deleteCandidateFile fileID)

def replaceTargetTx (old : FileNode) (dst : Option FileNode) (newPath newParentPath newName : Str)
    : Tx Unit := do
  modify fun db => db.deleteNodes fun n => dst.any (·.nodeID = n.nodeID)
  let db ← get
  require (∀ m ∈ db.fileNodes, m.path = newPath → m.nodeID = old.nodeID) .pathConflict
  modify fun db => { db with
    fileNodes := db.fileNodes.map (NodeUpdate.mk old.nodeID newPath newParentPath newName).apply }

def collectTargetTx (dst : Option FileNode) : FileTx (Option GCFile) := do
  match dst.bind (·.fileID) with
  | none => pure none
  | some fileID =>
    if fileID = [] then
      pure none
    else
      -- the rows of the file do not change on the way, but a missing one is found only after the
      -- update
      collectDeletedTx fileID ((← get).db.scanFileForGC fileID)

def renameFileReplacingTarget (oldPath newPath newParentPath newName : Str)
    : FileTx (Option GCFile) := do
  let db := (← get).db
  match db.node? oldPath with
  | none => throw (.store .notFound)
  | some old => do
    require (¬ old.isDirectory) (.sourceIsDirectory oldPath)
    if oldPath = newPath then
      pure none
    else do
      let dst := db.node? newPath
      require (¬ dst.any (·.isDirectory)) (.store .pathConflict)
      if dst.any (·.nodeID = old.nodeID) then
        pure none
      else do
        onDb (replaceTargetTx old dst newPath newParentPath newName)
        collectTargetTx dst

namespace Files

def deleteDirRecursive (dirPath : Str) : FileTx (List GCFile) := do
  let db := (← get).db
  let orphanIDs ← onDb (Datastore.deleteDirRecursive dirPath)
  let orphaned := orphanIDs.filterMap db.scanFileForGC
  enqueueFilesTx orphaned
  pure orphaned

end Files

def dirHasChildren (db : Db) (path : Str) : Bool := db.fileNodes.any (·.parentPath = path)

def deleteEmptyDir (path : Str) : FileTx Unit := do
  let db := (← get).db
  require (¬ dirHasChildren db path) (.directoryNotEmpty path)
  require (db.fileNodes.any fun n => n.path = path ∧ n.isDirectory) (.store .notFound)
  onDb (modify fun db => db.deleteNodes fun n => n.path = path ∧ n.isDirectory)

end Datastore
