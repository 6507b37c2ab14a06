import Drive9.Backend.Files.Impl

/-!
This module contains the operations of the backend on the namespace (`pkg/backend/dat9.go`), with
the raw paths of the caller.
-/

namespace Pathutil

def isDir (p : Str) : Bool := p = ['/'] || p.getLast? = some '/'

end Pathutil

namespace Backend

open Datastore Pathutil

inductive NamespaceError where
  | path (err : PathError)
  | notFound
  | isDirectory (path : Str)
  | noFileEntity
  | tx (err : FileError)
  deriving DecidableEq

abbrev Result := Except NamespaceError Unit × FileStore

def commit (s : FileStore) (tx : FileTx α) : Result :=
  match tx s with
  | .error err => (.error (.tx err), s)
  | .ok (_, s) => (.ok (), s)

section Paths

variable (nfc : Str → Str)

def normalizePath (path : Str) : Str :=
  if isDir path then
    match canonicalizeDir nfc path with
    | .error _ => path
    | .ok p => p
  else
    match canonicalize nfc path with
    | .error _ => path
    | .ok p => p

def canonicalizePathForKind (path : Str) (isDirectory : Bool) : Str :=
  if isDirectory then
    match canonicalizeDir nfc path with
    | .ok p => p
    | .error _ => path
  else
    normalizePath nfc path

def resolveNodePath (db : Db) (rawPath : Str) : Option (Str × FileNode) :=
  let resolvedPath := normalizePath nfc rawPath
  match db.node? resolvedPath with
  | some node => some (resolvedPath, node)
  | none =>
    if isDir rawPath then
      none
    else
      match canonicalizeDir nfc rawPath with
      | .error _ => none
      | .ok dirPath =>
        if dirPath = resolvedPath then none else (db.node? dirPath).map fun node => (dirPath, node)

end Paths

section Operations

variable (deterministicNodeID : Str → ID) (nfc : Str → Str) (s : FileStore)

def ensureParentDirs (path : Str) : FileStore :=
  (commit s (onDb (ensureParentDirsTx deterministicNodeID path))).2

def writeCtx (fileID nodeID : ID) (path : Str) (storageType : StorageType) (storageRef : Str)
    (size : Int)
    : Result :=
  match canonicalize nfc path with
  | .error err => (.error (.path err), s)
  | .ok path =>
    match s.db.node? path with
    | none => commit s (onDb (createAndWriteTx deterministicNodeID fileID nodeID path storageType storageRef size))
    | some node =>
      if node.isDirectory then
        (.error (.isDirectory path), s)
      else
        match node.fileID with
        | none => (.error .noFileEntity, s)
        | some existing => commit s (onDb (overwriteFileTx existing 0 storageType storageRef size))

def dirNode (nodeID inodeID : ID) (dirPath : Str) : FileNode where
  nodeID := nodeID
  path := dirPath
  parentPath := Pathutil.parentPath dirPath
  name := Pathutil.baseName dirPath
  isDirectory := true
  fileID := none
  inodeID := some inodeID

def mkdirTx (nodeID inodeID : ID) (dirPath : Str) : Tx Unit := do
  insertInodeTx inodeID ⟨0, 1, .confirmed⟩
  insertNodeTx (dirNode nodeID inodeID dirPath)

def mkdirCtx (nodeID inodeID : ID) (path : Str) : Result :=
  match canonicalizeDir nfc path with
  | .error err => (.error (.path err), s)
  | .ok dirPath =>
    commit (ensureParentDirs deterministicNodeID s dirPath) (onDb (mkdirTx nodeID inodeID dirPath))

def copyFileCtx (nodeID : ID) (srcPath dstPath : Str) : Result :=
  match canonicalize nfc srcPath with
  | .error err => (.error (.path err), s)
  | .ok srcPath =>
    match canonicalize nfc dstPath with
    | .error err => (.error (.path err), s)
    | .ok dstPath =>
      match s.db.node? srcPath with
      | none => (.error .notFound, s)
      | some srcNode =>
        if srcNode.isDirectory then
          (.error (.isDirectory srcPath), s)
        else
          commit (ensureParentDirs deterministicNodeID s dstPath) (onDb (copyFileTx srcNode.fileID nodeID dstPath))

def renameCtx (oldPath newPath : Str) : Result :=
  match resolveNodePath nfc s.db oldPath with
  | none => (.error .notFound, s)
  | some (oldPath, node) =>
    let newPath := canonicalizePathForKind nfc newPath node.isDirectory
    if oldPath = newPath then
      (.ok (), s)
    else
      let s := ensureParentDirs deterministicNodeID s newPath
      if node.isDirectory then
        commit s (onDb (renameDir oldPath newPath))
      else
        commit s (renameFileReplacingTarget oldPath newPath (Pathutil.parentPath newPath)
          (Pathutil.baseName newPath))

def removeCtx (path : Str) : Result :=
  match resolveNodePath nfc s.db path with
  | none => (.error .notFound, s)
  | some (path, node) =>
    if node.isDirectory then commit s (deleteEmptyDir path) else commit s (deleteFileWithRefCheck path)

def removeAllCtx (path : Str) : Result :=
  match resolveNodePath nfc s.db path with
  | none => (.error .notFound, s)
  | some (path, node) =>
    if node.isDirectory then commit s (Files.deleteDirRecursive path) else commit s (deleteFileWithRefCheck path)

end Operations

inductive NamespaceOp where
  | write (fileID nodeID : ID) (path : Str) (storageType : StorageType) (storageRef : Str) (size : Int)
  | mkdir (nodeID inodeID : ID) (path : Str)
  | copyFile (nodeID : ID) (srcPath dstPath : Str)
  | rename (oldPath newPath : Str)
  | remove (path : Str)
  | removeAll (path : Str)

namespace NamespaceOp

def run (deterministicNodeID : Str → ID) (nfc : Str → Str) (s : FileStore) (op : NamespaceOp)
    : Result :=
  match op with
  | .write fileID nodeID path storageType storageRef size =>
    writeCtx deterministicNodeID nfc s fileID nodeID path storageType storageRef size
  | .mkdir nodeID inodeID path => mkdirCtx deterministicNodeID nfc s nodeID inodeID path
  | .copyFile nodeID srcPath dstPath => copyFileCtx deterministicNodeID nfc s nodeID srcPath dstPath
  | .rename oldPath newPath => renameCtx deterministicNodeID nfc s oldPath newPath
  | .remove path => removeCtx nfc s path
  | .removeAll path => removeAllCtx nfc s path

def step (deterministicNodeID : Str → ID) (nfc : Str → Str) (s : FileStore) (op : NamespaceOp)
    : Option FileStore :=
  some (op.run deterministicNodeID nfc s).2

end NamespaceOp

end Backend
