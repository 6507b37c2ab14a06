import Drive9.Backend.Files.Impl
import Drive9.Lib.SnapshotTx

/-!
This module contains `DeleteDirRecursive` and the transactions that add a file node, those of
`createAndWriteCtx` and `CopyFileCtx`, statement by statement.
-/

open Datastore Backend
open Journal (trimSpace)

inductive RowKey where
  | node (nodeID : ID)
  | path (path : Str)
  | file (fileID : ID)
  | inode (inodeID : ID)
  | content (inodeID : ID)
  | task (taskID : ID)
  deriving DecidableEq

inductive RowWrite where
  | insertFile (fileID : ID) (f : File)
  | insertInode (inodeID : ID) (inode : Inode)
  | insertContent (inodeID : ID) (content : Content)
  | insertIgnoreInode (inodeID : ID)
  | insertNode (n : FileNode)
  | fillInode (dirPath : Str) (inodeID : ID)
  | deleteNodes (paths : List Str)
  | markFiles (fileIDs : List ID)
  | markInodes (fileIDs : List ID)
  | insertTask (task : FileGCTask)

namespace Datastore

def deleteFileIDBatchSize : Nat := 1000

def Db.dirFileIDs (db : Db) (dirPath : Str) : List ID :=
  ((db.fileNodes.filter (inDir dirPath)).filterMap (·.fileID)).dedup

def Db.scanOrphanedFiles (db : Db) (fileIDs : List ID) : List GCFile :=
  (fileIDs.filter fun fileID => !db.referenced fileID).filterMap db.scanFileForGC

def Db.fillInode (db : Db) (dirPath : Str) (inodeID : ID) : Db :=
  { db with
    fileNodes := db.fileNodes.map fun m =>
      if m.path = dirPath ∧ m.isDirectory then { m with inodeID := some inodeID } else m }

end Datastore

def RowWrite.apply (s : FileStore) (w : RowWrite) : FileStore :=
  match w with
  | .insertFile fileID f => { s with db := { s.db with files := s.db.files.set fileID f } }
  | .insertInode inodeID inode =>
    { s with db := { s.db with inodes := s.db.inodes.set inodeID inode } }
  | .insertContent inodeID content =>
    { s with db := { s.db with contents := s.db.contents.set inodeID content } }
  | .insertIgnoreInode inodeID => { s with db := s.db.insertIgnoreInode inodeID ⟨0, 1, .confirmed⟩ }
  | .insertNode n => { s with db := { s.db with fileNodes := s.db.fileNodes ++ [n] } }
  | .fillInode dirPath inodeID => { s with db := s.db.fillInode dirPath inodeID }
  | .deleteNodes paths => { s with db := s.db.deleteNodes fun n => paths.any (· = n.path) }
  | .markFiles fileIDs => { s with db := fileIDs.foldl Db.markLegacyFileDeleted s.db }
  | .markInodes fileIDs => { s with db := fileIDs.foldl Db.markInodeDeleted s.db }
  | .insertTask task => s.enqueueFileGCTask task

abbrev FileSnapshotTx := SnapshotTx FileStore RowWrite RowKey

namespace FileSnapshotTx

def current (tx : FileSnapshotTx) (committed : FileStore) : FileStore :=
  SnapshotTx.current RowWrite.apply tx committed

def read (tx : FileSnapshotTx) (committed : FileStore) : FileStore :=
  SnapshotTx.read RowWrite.apply tx committed

end FileSnapshotTx

inductive AttachPhase where
  | insertFile (fileID : ID) (f : File)
  | insertInode (fileID : ID) (f : File)
  | insertContent (fileID : ID) (f : File)
  | checkDir (dirs : List Str)
  | dirInode (dirPath : Str) (found : Bool) (dirs : List Str)
  | dirNode (dirPath : Str) (found : Bool) (dirs : List Str)
  | lockFile
  | lockInode
  | insertNode
  | commit
  | done
  | failed
  deriving DecidableEq

structure Attach where
  -- the file that a create inserts, a copy inserts none
  created : Option ID
  node : FileNode
  tx : FileSnapshotTx
  phase : AttachPhase

namespace Attach

variable (deterministicNodeID : Str → ID) (committed : FileStore) (a : Attach)

def goto (phase : AttachPhase) : Attach := { a with phase := phase }

def fail : Attach := { a with tx := .start, phase := .failed }

def write (a : Attach) (keys : List RowKey) (w : RowWrite) (phase : AttachPhase) : Attach :=
  { a with tx := a.tx.write keys w, phase := phase }

def lock (a : Attach) (keys : List RowKey) (phase : AttachPhase) : Attach :=
  { a with tx := a.tx.lock keys, phase := phase }

def insert (free : Bool) (key : RowKey) (w : RowWrite) (phase : AttachPhase)
    : List RowKey × Attach :=
  ([key], if free then a.write [key] w phase else a.fail)

def lockConfirmed (status : Option FileStatus) (key : RowKey) (phase : AttachPhase)
    : List RowKey × Attach :=
  ([key], if status = some .confirmed then a.lock [key] phase else a.fail)

def insertFileStmt (fileID : ID) (f : File) : List RowKey × Attach :=
  if committed.db.useLegacyFiles then
    a.insert ((a.tx.current committed).db.files.get? fileID).isNone (.file fileID) (.insertFile fileID f)
      (.insertInode fileID f)
  else
    ([], a.goto (.insertInode fileID f))

def insertInodeStmt (fileID : ID) (f : File) : List RowKey × Attach :=
  a.insert ((a.tx.current committed).db.inodes.get? fileID).isNone (.inode fileID)
    (.insertInode fileID ⟨f.sizeBytes, f.revision, f.status⟩) (.insertContent fileID f)

def insertContentStmt (fileID : ID) (f : File) : List RowKey × Attach :=
  a.insert ((a.tx.current committed).db.contents.get? fileID).isNone (.content fileID)
    (.insertContent fileID ⟨f.storageType, f.storageRef⟩)
    (.checkDir (ancestors a.node.path.length a.node.path).reverse)

def checkDirStmt (dirs : List Str) : List RowKey × Attach :=
  match dirs with
  | [] => ([], a.goto .lockFile)
  | dirPath :: dirs =>
    let opened := { a with tx := a.tx.opened committed }
    match (a.tx.read committed).db.fileNodes.find? (fun n => n.path = dirPath ∧ n.isDirectory) with
    | none => ([], opened.goto (.dirInode dirPath false dirs))
    | some n =>
      if n.inodeID.isSome then
        ([], opened.goto (.checkDir dirs))
      else
        ([], opened.goto (.dirInode dirPath true dirs))

def dirInodeStmt (dirPath : Str) (found : Bool) (dirs : List Str) : List RowKey × Attach :=
  let keys := [RowKey.inode (deterministicNodeID dirPath)]
  (keys, a.write keys (.insertIgnoreInode (deterministicNodeID dirPath)) (.dirNode dirPath found dirs))

def dirNodeStmt (dirPath : Str) (found : Bool)
    (dirs : List Str) : List RowKey × Attach :=
  let nodeID := deterministicNodeID dirPath
  let keys := [RowKey.node nodeID, RowKey.path dirPath]
  if found then
    (keys, a.write keys (.fillInode dirPath nodeID) (.checkDir dirs))
  else if (a.tx.current committed).db.fileNodes.any (fun m => m.nodeID = nodeID ∨ m.path = dirPath) then
    (keys, a.lock keys (.checkDir dirs))
  else
    (keys, a.write keys (.insertNode ⟨nodeID, dirPath, parentPath dirPath, baseName dirPath, true, none, some nodeID⟩)
      (.checkDir dirs))

def lockFileStmt : List RowKey × Attach :=
  match a.node.fileID with
  | none => ([], a.goto .insertNode)
  | some fileID =>
    if committed.db.useLegacyFiles then
      a.lockConfirmed (((a.tx.current committed).db.files.get? fileID).map (·.status)) (.file fileID) .lockInode
    else
      ([], a.goto .lockInode)

def lockInodeStmt : List RowKey × Attach :=
  match a.node.fileID with
  | none => ([], a.goto .insertNode)
  | some fileID =>
    a.lockConfirmed (((a.tx.current committed).db.inodes.get? fileID).map (·.status)) (.inode fileID) .insertNode

def insertNodeStmt : List RowKey × Attach :=
  let keys := [RowKey.node a.node.nodeID, RowKey.path a.node.path]
  if (a.tx.current committed).db.fileNodes.any (fun m => m.nodeID = a.node.nodeID ∨ m.path = a.node.path) then
    (keys, a.fail)
  else
    (keys, a.write keys (.insertNode a.node) .commit)

def statement : Option (List RowKey × Attach) :=
  match a.phase with
  | .insertFile fileID f => some (a.insertFileStmt committed fileID f)
  | .insertInode fileID f => some (a.insertInodeStmt committed fileID f)
  | .insertContent fileID f => some (a.insertContentStmt committed fileID f)
  | .checkDir dirs => some (a.checkDirStmt committed dirs)
  | .dirInode dirPath found dirs => some (a.dirInodeStmt deterministicNodeID dirPath found dirs)
  | .dirNode dirPath found dirs =>
    some (a.dirNodeStmt deterministicNodeID committed dirPath found dirs)
  | .lockFile => some (a.lockFileStmt committed)
  | .lockInode => some (a.lockInodeStmt committed)
  | .insertNode => some (a.insertNodeStmt committed)
  | .commit => none
  | .done => none
  | .failed => none

end Attach

inductive DeletePhase where
  | select
  | lockFiles (fileIDs rest : List ID)
  | lockInodes (fileIDs rest : List ID)
  | deleteNodes (fileIDs : List ID)
  | scan (rest : List ID) (orphaned : List GCFile)
  | markFiles (rest : List ID) (orphaned : List GCFile)
  | markInodes (rest : List ID) (orphaned : List GCFile)
  | enqueue (rest : List GCFile)
  | commit
  | done
  | failed
  deriving DecidableEq

structure DeleteDir where
  tx : FileSnapshotTx
  phase : DeletePhase

namespace DeleteDir

variable (dirPath : Str) (committed : FileStore) (d : DeleteDir)

def start : DeleteDir := ⟨.start, .select⟩

def goto (phase : DeletePhase) : DeleteDir := { d with phase := phase }

def rolledBack : DeleteDir := ⟨.start, .failed⟩

def write (d : DeleteDir) (keys : List RowKey) (w : RowWrite) (phase : DeletePhase)
    : List RowKey × DeleteDir :=
  (keys, ⟨d.tx.write keys w, phase⟩)

def lock (d : DeleteDir) (keys : List RowKey) (phase : DeletePhase) : List RowKey × DeleteDir :=
  (keys, ⟨d.tx.lock keys, phase⟩)

def selectStmt : List RowKey × DeleteDir :=
  let fileIDs := (d.tx.read committed).db.dirFileIDs dirPath
  ([], ⟨d.tx.opened committed, .lockFiles fileIDs fileIDs⟩)

def lockFilesStmt (fileIDs rest : List ID) : List RowKey × DeleteDir :=
  if rest = [] then
    ([], d.goto (.deleteNodes fileIDs))
  else if committed.db.useLegacyFiles then
    d.lock ((rest.take deleteFileIDBatchSize).map .file) (.lockInodes fileIDs rest)
  else
    ([], d.goto (.lockInodes fileIDs rest))

def lockInodesStmt (fileIDs rest : List ID) : List RowKey × DeleteDir :=
  d.lock ((rest.take deleteFileIDBatchSize).map .inode) (.lockFiles fileIDs (rest.drop deleteFileIDBatchSize))

def deleteNodesStmt (fileIDs : List ID) : List RowKey × DeleteDir :=
  let nodes := (d.tx.current committed).db.fileNodes.filter (inDir dirPath)
  d.write (nodes.map (fun n => .node n.nodeID) ++ nodes.map (fun n => .path n.path))
    (.deleteNodes (nodes.map (·.path))) (.scan fileIDs [])

def scanStmt (rest : List ID) (orphaned : List GCFile) : List RowKey × DeleteDir :=
  if rest = [] then
    ([], d.goto (.markFiles (orphaned.map (·.fileID)) orphaned))
  else
    let found := (d.tx.read committed).db.scanOrphanedFiles (rest.take deleteFileIDBatchSize)
    ([], ⟨d.tx.opened committed, .scan (rest.drop deleteFileIDBatchSize) (orphaned ++ found)⟩)

def markFilesStmt (rest : List ID) (orphaned : List GCFile) : List RowKey × DeleteDir :=
  let batch := rest.take deleteFileIDBatchSize
  if rest = [] then
    ([], d.goto (.enqueue orphaned))
  else if committed.db.useLegacyFiles then
    d.write (batch.map .file) (.markFiles batch) (.markInodes rest orphaned)
  else
    ([], d.goto (.markInodes rest orphaned))

def markInodesStmt (rest : List ID) (orphaned : List GCFile) : List RowKey × DeleteDir :=
  let batch := rest.take deleteFileIDBatchSize
  d.write (batch.map .inode) (.markInodes batch) (.markFiles (rest.drop deleteFileIDBatchSize) orphaned)

def enqueueStmt (rest : List GCFile) : List RowKey × DeleteDir :=
  match rest with
  | [] => ([], d.goto .commit)
  | f :: rest =>
    if trimSpace f.fileID = [] then
      ([], rolledBack)
    else
      d.write [.task f.fileID] (.insertTask ⟨f.fileID, f.fileID, f.storageType, f.storageRef, f.sizeBytes⟩)
        (.enqueue rest)

def statement : Option (List RowKey × DeleteDir) :=
  match d.phase with
  | .select => some (d.selectStmt dirPath committed)
  | .lockFiles fileIDs rest => some (d.lockFilesStmt committed fileIDs rest)
  | .lockInodes fileIDs rest => some (d.lockInodesStmt fileIDs rest)
  | .deleteNodes fileIDs => some (d.deleteNodesStmt dirPath committed fileIDs)
  | .scan rest orphaned => some (d.scanStmt committed rest orphaned)
  | .markFiles rest orphaned => some (d.markFilesStmt committed rest orphaned)
  | .markInodes rest orphaned => some (d.markInodesStmt rest orphaned)
  | .enqueue rest => some (d.enqueueStmt rest)
  | .commit => none
  | .done => none
  | .failed => none

def reading : Bool :=
  match d.phase with
  | .lockFiles _ _ => true
  | .lockInodes _ _ => true
  | .deleteNodes _ => true
  | _ => false

end DeleteDir

structure DeleteDirSystem where
  store : FileStore
  delete : DeleteDir
  attaches : FMap Nat Attach

inductive DeleteDirLabel where
  | delete
  | deleteFail
  | create (r : Nat) (fileID nodeID : ID) (path : Str) (storageType : StorageType) (storageRef : Str) (size : Int)
  | copy (r : Nat) (srcPath : Str) (nodeID : ID) (dstPath : Str)
  | attach (r : Nat)
  | attachFail (r : Nat)

namespace DeleteDirSystem

def init (store : FileStore) : DeleteDirSystem := ⟨store, .start, .empty⟩

variable (deterministicNodeID : Str → ID) (dirPath : Str) (s : DeleteDirSystem)

def setAttach (r : Nat) (a : Attach) : DeleteDirSystem :=
  { s with attaches := s.attaches.set r a }

def freeOfAttaches (r : Option Nat) (keys : List RowKey) : Bool :=
  s.attaches.keys.all fun r' =>
    some r' = r || (s.attaches.get? r').all fun a => keys.all fun key => a.tx.locks.all (· ≠ key)

def freeOfDelete (keys : List RowKey) : Bool :=
  keys.all fun key => s.delete.tx.locks.all (· ≠ key)

def stepDelete : Option DeleteDirSystem :=
  if s.delete.phase = .commit then
    some { s with store := s.delete.tx.current s.store, delete := ⟨.start, .done⟩ }
  else
    match s.delete.statement dirPath s.store with
    | none => none
    | some (keys, d) => if s.freeOfAttaches none keys then some { s with delete := d } else none

def stepAttach (r : Nat) (a : Attach) : Option DeleteDirSystem :=
  if a.phase = .commit then
    some { s.setAttach r { a with tx := .start, phase := .done } with store := a.tx.current s.store }
  else
    match a.statement deterministicNodeID s.store with
    | none => none
    | some (keys, a') =>
      if s.freeOfAttaches (some r) keys && s.freeOfDelete keys then some (s.setAttach r a') else none

def startCreate (r : Nat) (fileID nodeID : ID) (path : Str) (f : File) : Option DeleteDirSystem :=
  if fileID = [] then
    none
  else
    some (s.setAttach r ⟨some fileID, fileNode nodeID path (some fileID), .start, .insertFile fileID f⟩)

def startCopy (r : Nat) (srcPath : Str) (nodeID : ID) (dstPath : Str) : Option DeleteDirSystem :=
  match s.store.db.node? srcPath with
  | none => none
  | some srcNode =>
    if srcNode.isDirectory then
      none
    else
      some (s.setAttach r ⟨none, fileNode nodeID dstPath srcNode.fileID, .start, .lockFile⟩)

def step (l : DeleteDirLabel) : Option DeleteDirSystem :=
  match l with
  | .delete => s.stepDelete dirPath
  | .deleteFail => if s.delete.phase = .done then none else some { s with delete := .rolledBack }
  | .create r fileID nodeID path storageType storageRef size =>
    match s.attaches.get? r with
    | some _ => none
    | none => s.startCreate r fileID nodeID path ⟨storageType, storageRef, size, 1, .confirmed⟩
  | .copy r srcPath nodeID dstPath =>
    match s.attaches.get? r with
    | some _ => none
    | none => s.startCopy r srcPath nodeID dstPath
  | .attach r =>
    match s.attaches.get? r with
    | none => none
    | some a => s.stepAttach deterministicNodeID r a
  | .attachFail r =>
    match s.attaches.get? r with
    | none => none
    | some a => if a.phase = .done then none else some (s.setAttach r a.fail)

end DeleteDirSystem
