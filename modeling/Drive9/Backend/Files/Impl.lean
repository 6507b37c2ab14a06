import Drive9.Datastore.Files
import Drive9.Lib.Lts

/-!
This module contains the transactions of `pkg/backend/dat9.go` on files.
-/

open Datastore

namespace Backend

def fileNode (nodeID : ID) (path : Str) (fileID : Option ID) : FileNode where
  nodeID := nodeID
  path := path
  parentPath := Pathutil.parentPath path
  name := Pathutil.baseName path
  isDirectory := false
  -- `nullStr`
  fileID := fileID.filter (· ≠ [])
  inodeID := none

def createAndWriteTx (deterministicNodeID : Str → ID) (fileID nodeID : ID) (path : Str)
    (storageType : StorageType)
    (storageRef : Str) (size : Int) : Tx Unit := do
  insertFileTx fileID ⟨storageType, storageRef, size, 1, .confirmed⟩
  ensureParentDirsTx deterministicNodeID path
  insertNodeTx (fileNode nodeID path (some fileID))

def copyFileTx (srcFileID : Option ID) (nodeID : ID) (dstPath : Str) : Tx Unit :=
  insertNodeTx (fileNode nodeID dstPath srcFileID)

def overwriteFileTx (fileID : ID) (expectedRevision : Int) (storageType : StorageType)
    (storageRef : Str) (size : Int)
    : Tx Int :=
  updateFileContentTx fileID (if expectedRevision > 0 then expectedRevision else 0) storageType storageRef size

end Backend

inductive FileTxn where
  | create (fileID nodeID : ID) (path : Str) (storageType : StorageType) (storageRef : Str) (size : Int)
  | ensureParentDirs (path : Str)
  | copy (srcFileID : Option ID) (nodeID : ID) (dstPath : Str)
  | overwrite (fileID : ID) (expectedRevision : Int) (storageType : StorageType) (storageRef : Str) (size : Int)
  | deleteFile (path : Str)
  | renameFile (oldPath newPath newParentPath newName : Str)
  | deleteDir (dirPath : Str)

namespace FileTxn

def run (deterministicNodeID : Str → ID) (txn : FileTxn) : FileTx Unit := do
  match txn with
  | .create fileID nodeID path storageType storageRef size =>
    onDb (Backend.createAndWriteTx deterministicNodeID fileID nodeID path storageType storageRef size)
  | .ensureParentDirs path => onDb (ensureParentDirsTx deterministicNodeID path)
  | .copy srcFileID nodeID dstPath => onDb (Backend.copyFileTx srcFileID nodeID dstPath)
  | .overwrite fileID expectedRevision storageType storageRef size =>
    let _ ← onDb (Backend.overwriteFileTx fileID expectedRevision storageType storageRef size)
  | .deleteFile path => let _ ← deleteFileWithRefCheck path
  | .renameFile oldPath newPath newParentPath newName =>
    let _ ← renameFileReplacingTarget oldPath newPath newParentPath newName
  | .deleteDir dirPath => let _ ← Files.deleteDirRecursive dirPath

def generated (txn : FileTxn) : Bool :=
  match txn with
  | .create fileID _ _ _ _ _ => fileID ≠ []
  | _ => true

def step (deterministicNodeID : Str → ID) (s : FileStore) (txn : FileTxn) : Option FileStore :=
  if txn.generated then
    match txn.run deterministicNodeID s with
    | .ok (_, s') => some s'
    | .error _ => some s
  else
    none

end FileTxn

namespace Datastore.FileStore

def empty (useLegacyFiles : Bool) : FileStore :=
  ⟨⟨useLegacyFiles, [], .empty, .empty, .empty, .empty⟩, []⟩

def tasksOf (s : FileStore) (fileID : ID) : List FileGCTask :=
  s.fileGCTasks.filter (·.fileID = fileID)

end Datastore.FileStore
