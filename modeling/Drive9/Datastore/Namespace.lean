import Drive9.Datastore.Store
import Drive9.Lib.Like
import Mathlib.Data.Char
import Mathlib.Data.List.Lex
import Mathlib.Data.List.Sort

/-!
This module contains the functions of `pkg/datastore` that delete and rename the rows of
`file_nodes`.
-/

namespace Datastore

open Transaction (require)

def inDir (dirPath : Str) (n : FileNode) : Bool :=
  n.path = dirPath || Like.accepts (dirPath ++ ['%']) n.path

namespace Db

def deleteNodes (db : Db) (p : FileNode → Bool) : Db :=
  { db with fileNodes := db.fileNodes.filter fun n => !p n }

def markFileDeleted (db : Db) (fileID : ID) : Db :=
  (if db.useLegacyFiles then db.markLegacyFileDeleted fileID else db).markInodeDeleted fileID

def hasFile (db : Db) (fileID : ID) : Bool :=
  if db.useLegacyFiles then
    (db.files.get? fileID).isSome
  else
    (db.inodes.get? fileID).isSome && (db.contents.get? fileID).isSome

def referenced (db : Db) (fileID : ID) : Bool := db.fileNodes.any (·.fileID = some fileID)

end Db

def deleteDirRecursive (dirPath : Str) : Tx (List ID) := do
  let fileIDs := (((← get).fileNodes.filter (inDir dirPath)).filterMap (·.fileID)).dedup
  modify fun db => db.deleteNodes (inDir dirPath)
  let db ← get
  let orphaned := fileIDs.filter fun fileID => db.hasFile fileID && !db.referenced fileID
  modify fun db => orphaned.foldl Db.markFileDeleted db
  pure orphaned

structure NodeUpdate where
  nodeID : ID
  newPath : Str
  newParent : Str
  newName : Str

def NodeUpdate.apply (u : NodeUpdate) (n : FileNode) : FileNode :=
  if n.nodeID = u.nodeID then { n with path := u.newPath, parentPath := u.newParent, name := u.newName } else n

def updateNodeTx (u : NodeUpdate) : Tx Unit := do
  let db ← get
  require (∀ m ∈ db.fileNodes, m.path = u.newPath → m.nodeID = u.nodeID) .driver
  modify fun db => { db with fileNodes := db.fileNodes.map u.apply }

def updateNodesTx : List NodeUpdate → Tx Unit
  | [] => pure ()
  | u :: us => do
    updateNodeTx u
    updateNodesTx us

def renameUpdate (oldPrefix newPrefix : Str) (n : FileNode) : NodeUpdate :=
  if n.path = oldPrefix then
    ⟨n.nodeID, newPrefix, parentPath newPrefix, baseName newPrefix⟩
  else
    ⟨n.nodeID, newPrefix ++ n.path.trimPrefix oldPrefix, newPrefix ++ n.parentPath.trimPrefix oldPrefix, n.name⟩

def renameDir (oldPrefix newPrefix : Str) : Tx Nat := do
  let rows := ((← get).fileNodes.filter (inDir oldPrefix)).insertionSort fun a b => a.path ≤ b.path
  let updates := rows.map (renameUpdate oldPrefix newPrefix)
  updateNodesTx updates
  pure updates.length

end Datastore
