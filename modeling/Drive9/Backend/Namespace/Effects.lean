import Drive9.Backend.Namespace.Lemmas
import Drive9.Datastore.Moves

/-!
This module contains what each operation can do to the rows of `file_nodes`.
-/

namespace Datastore

open Transaction NodeUpdate

theorem CollectedAfter.fileNodes (h : CollectedAfter fileID candidate s s')
    : s'.db.fileNodes = s.db.fileNodes := by
  cases h with
  | kept => rfl
  | collected =>
    unfold FileStore.collect
    rw [FileStore.db_enqueueFileGCTask]
    exact fileNodes_markFileDeleted _ _

theorem DirDeleted.fileNodes (h : DirDeleted dirPath s s')
    : s'.db.fileNodes = s.db.fileNodes.filter fun n => !inDir dirPath n := by
  obtain ⟨orphanIDs, _, _, rfl⟩ := h
  rw [FileStore.db_foldl_enqueue]
  exact fileNodes_foldl_markFileDeleted _ _

theorem fileNodes_of_deleteEmptyDir (h : deleteEmptyDir path s = .ok (a, s'))
    : (∀ n ∈ s.db.fileNodes, n.parentPath ≠ path)
      ∧ s'.db.fileNodes = s.db.fileNodes.filter fun n => !decide (n.path = path ∧ n.isDirectory) := by
  have h := of_get h
  obtain ⟨hchildren, h⟩ := of_require_bind h
  obtain ⟨_, h⟩ := of_require_bind h
  obtain ⟨db, hdelete, rfl⟩ := of_onDb h
  cases hdelete
  refine ⟨?_, rfl⟩
  intro n hn
  unfold dirHasChildren at hchildren
  simp only [List.any_eq_true, decide_eq_true_eq, not_exists, not_and] at hchildren
  exact hchildren n hn

def renameUpdates (oldPath newPath : Str) (db : Db) : List NodeUpdate :=
  (selected oldPath db).map (renameUpdate oldPath newPath)

theorem of_renameDir {oldPath newPath : Str} {db db' : Db}
    (h : renameDir oldPath newPath db = .ok (count, db'))
    : updateNodesTx (renameUpdates oldPath newPath db) db = .ok ((), db')
      ∧ db'.fileNodes = db.fileNodes.map (applyAll (renameUpdates oldPath newPath db)) := by
  have hrest := of_get h
  obtain ⟨_, _, hupdates, hpure⟩ := of_bind hrest
  cases hpure
  refine ⟨hupdates, ?_⟩
  rw [updateNodesTx_ok hupdates]
  rfl

end Datastore

namespace Backend

open Datastore Pathutil Transaction

-- No row has the id or the path of `n`.
def Fresh (n : FileNode) (nodes : List FileNode) : Prop :=
  ∀ m ∈ nodes, m.nodeID ≠ n.nodeID ∧ m.path ≠ n.path

section Effect

variable (dirID : Str → ID) (nfc : Str → Str) (s : FileStore)

inductive Effect : NamespaceOp → List FileNode → Prop where
  | same (op : NamespaceOp) : Effect op s.db.fileNodes
  | written {fileID nodeID path storageType storageRef size p}
      (hp : canonicalize nfc path = .ok p)
      (hfresh : Fresh (fileNode nodeID p (some fileID)) (withParents dirID p s.db.fileNodes))
      : Effect (.write fileID nodeID path storageType storageRef size)
        (withParents dirID p s.db.fileNodes ++ [fileNode nodeID p (some fileID)])
  | mkdirParents {nodeID inodeID path d} (hd : canonicalizeDir nfc path = .ok d)
      : Effect (.mkdir nodeID inodeID path) (withParents dirID d s.db.fileNodes)
  | dirMade {nodeID inodeID path d} (hd : canonicalizeDir nfc path = .ok d)
      (hfresh : Fresh (dirNode nodeID inodeID d) (withParents dirID d s.db.fileNodes))
      : Effect (.mkdir nodeID inodeID path)
        (withParents dirID d s.db.fileNodes ++ [dirNode nodeID inodeID d])
  | copyParents {nodeID srcPath dstPath p} (hp : canonicalize nfc dstPath = .ok p)
      : Effect (.copyFile nodeID srcPath dstPath) (withParents dirID p s.db.fileNodes)
  | copied {nodeID srcPath dstPath q p srcNode} (hq : canonicalize nfc srcPath = .ok q)
      (hp : canonicalize nfc dstPath = .ok p) (hsrc : s.db.node? q = some srcNode)
      (hfresh : Fresh (fileNode nodeID p srcNode.fileID) (withParents dirID p s.db.fileNodes))
      : Effect (.copyFile nodeID srcPath dstPath)
        (withParents dirID p s.db.fileNodes ++ [fileNode nodeID p srcNode.fileID])
  | renameParents {old new oldPath newPath node}
      (hresolve : resolveNodePath nfc s.db old = some (oldPath, node))
      (hnew : newPath = canonicalizePathForKind nfc new node.isDirectory) (hne : oldPath ≠ newPath)
      : Effect (.rename old new) (withParents dirID newPath s.db.fileNodes)
  | fileMoved {old new oldPath newPath node source s1 s2}
      (hresolve : resolveNodePath nfc s.db old = some (oldPath, node)) (hfile : node.isDirectory = false)
      (hnew : newPath = canonicalizePathForKind nfc new false) (hne : oldPath ≠ newPath)
      (hs1 : s1.db.fileNodes = withParents dirID newPath s.db.fileNodes)
      (hrenamed : FileRenamed oldPath newPath
        ⟨source.nodeID, newPath, Pathutil.parentPath newPath, Pathutil.baseName newPath⟩ source s1 s2)
      : Effect (.rename old new) s2.db.fileNodes
  | dirMoved {old new oldPath newPath node db1 db2}
      (hresolve : resolveNodePath nfc s.db old = some (oldPath, node)) (hdir : node.isDirectory = true)
      (hnew : newPath = canonicalizePathForKind nfc new true) (hne : oldPath ≠ newPath)
      (hdb1 : db1.fileNodes = withParents dirID newPath s.db.fileNodes)
      (hrename : updateNodesTx (renameUpdates oldPath newPath db1) db1 = .ok ((), db2))
      : Effect (.rename old new) (db1.fileNodes.map (NodeUpdate.applyAll (renameUpdates oldPath newPath db1)))
  | fileRemoved {op raw path node} (hop : op = .remove raw ∨ op = .removeAll raw)
      (hnode : s.db.node? path = some node) (hfile : node.isDirectory = false)
      : Effect op (s.db.fileNodes.filter fun n => !decide (n.path = path))
  | dirRemoved {raw path} (hempty : ∀ n ∈ s.db.fileNodes, n.parentPath ≠ path)
      : Effect (.remove raw) (s.db.fileNodes.filter fun n => !decide (n.path = path ∧ n.isDirectory))
  | treeRemoved {raw path node} (hresolve : resolveNodePath nfc s.db raw = some (path, node))
      (hdir : node.isDirectory = true)
      : Effect (.removeAll raw) (s.db.fileNodes.filter fun n => !inDir path n)

end Effect

section Run

variable {dirID : Str → ID} {nfc : Str → Str} {s : FileStore}

theorem commit_rows {P : List FileNode → Prop} {tx : FileTx α} (herror : P s.db.fileNodes)
    (hok : ∀ a s', tx s = .ok (a, s') → P s'.db.fileNodes)
    : P (commit s tx).2.db.fileNodes := by
  unfold commit
  split
  . exact herror
  . next a s' hs => exact hok a s' hs

theorem effect_writeCtx (fileID nodeID) (path) (storageType) (storageRef) (size)
    : Effect dirID nfc s (.write fileID nodeID path storageType storageRef size)
      (writeCtx dirID nfc s fileID nodeID path storageType storageRef size).2.db.fileNodes := by
  unfold writeCtx
  split
  . exact .same _
  . next p hp =>
    split
    . apply commit_rows (.same _)
      intro a s' h
      obtain ⟨db', hcreate, rfl⟩ := of_onDb h
      obtain ⟨_, db1, hfile, hcreate⟩ := of_bind hcreate
      obtain ⟨_, db2, hparents, hnode⟩ := of_bind hcreate
      obtain ⟨hfresh, _, rfl⟩ := of_insertNodeTx hnode
      have hrows : db2.fileNodes = withParents dirID p s.db.fileNodes := by
        cases hparents
        rw [(of_insertFileTx hfile).eq]
        exact fileNodes_foldl_ensureDir dirID _ _
      rw [hrows] at hfresh ⊢
      exact .written hp hfresh
    . split
      . exact .same _
      . split
        . exact .same _
        . apply commit_rows (.same _)
          intro a s' h
          obtain ⟨db', hupdate, rfl⟩ := of_onDb h
          have hdb' := (of_updateFileContentTx hupdate).eq
          rw [hdb']
          exact .same _

theorem effect_mkdirCtx (nodeID inodeID) (path)
    : Effect dirID nfc s (.mkdir nodeID inodeID path)
      (mkdirCtx dirID nfc s nodeID inodeID path).2.db.fileNodes := by
  unfold mkdirCtx
  split
  . exact .same _
  . next d hd =>
    apply commit_rows
    . rw [fileNodes_ensureParentDirs]
      exact .mkdirParents hd
    . intro a s' h
      obtain ⟨db', hmkdir, rfl⟩ := of_onDb h
      obtain ⟨_, db1, hinode, hnode⟩ := of_bind hmkdir
      obtain ⟨_, rfl⟩ := of_insertInodeTx hinode
      obtain ⟨hfresh, _, rfl⟩ := of_insertNodeTx hnode
      rw [fileNodes_ensureParentDirs] at hfresh ⊢
      exact .dirMade hd hfresh

theorem effect_copyFileCtx (nodeID) (srcPath dstPath)
    : Effect dirID nfc s (.copyFile nodeID srcPath dstPath)
      (copyFileCtx dirID nfc s nodeID srcPath dstPath).2.db.fileNodes := by
  unfold copyFileCtx
  split
  . exact .same _
  . next q hq =>
    split
    . exact .same _
    . next p hp =>
      split
      . exact .same _
      . next srcNode hsrc =>
        split
        . exact .same _
        . apply commit_rows
          . rw [fileNodes_ensureParentDirs]
            exact .copyParents hp
          . intro a s' h
            obtain ⟨db', hcopy, rfl⟩ := of_onDb h
            obtain ⟨hfresh, _, rfl⟩ := of_insertNodeTx hcopy
            rw [fileNodes_ensureParentDirs] at hfresh ⊢
            exact .copied hq hp hsrc hfresh

theorem effect_renameCtx (old new)
    : Effect dirID nfc s (.rename old new)
      (renameCtx dirID nfc s old new).2.db.fileNodes := by
  unfold renameCtx
  split
  . exact .same _
  . next oldPath node hresolve =>
    dsimp only
    split
    . exact .same _
    . next hne =>
      split
      . next hdir =>
        apply commit_rows
        . rw [fileNodes_ensureParentDirs]
          exact .renameParents hresolve rfl hne
        . intro a s' h
          obtain ⟨db', hrename, rfl⟩ := of_onDb h
          obtain ⟨hupdates, hrows⟩ := of_renameDir hrename
          rw [hrows]
          rw [hdir] at hne hupdates ⊢
          exact .dirMoved hresolve hdir rfl hne (fileNodes_ensureParentDirs _ _ _) hupdates
      . next hfile =>
        have hfile : node.isDirectory = false := Bool.not_eq_true _ ▸ hfile
        apply commit_rows
        . rw [fileNodes_ensureParentDirs]
          exact .renameParents hresolve rfl hne
        . intro a s' h
          obtain rfl | ⟨source, hrenamed⟩ := of_renameFileReplacingTarget h
          . rw [fileNodes_ensureParentDirs]
            exact .renameParents hresolve rfl hne
          . rw [hfile] at hne hrenamed
            exact .fileMoved hresolve hfile rfl hne (fileNodes_ensureParentDirs _ _ _) hrenamed

theorem effect_deleteFile {raw : Str} (hop : op = .remove raw ∨ op = .removeAll raw) (path)
    : Effect dirID nfc s op (commit s (deleteFileWithRefCheck path)).2.db.fileNodes := by
  apply commit_rows (.same _)
  intro a s' h
  obtain ⟨node, hnode, hfile, hcollected⟩ := of_deleteFileWithRefCheck h
  rw [hcollected.fileNodes]
  exact .fileRemoved hop hnode hfile

theorem effect_run (op : NamespaceOp)
    : Effect dirID nfc s op (op.run dirID nfc s).2.db.fileNodes := by
  cases op with
  | write fileID nodeID path storageType storageRef size => exact effect_writeCtx _ _ _ _ _ _
  | mkdir nodeID inodeID path => exact effect_mkdirCtx _ _ _
  | copyFile nodeID srcPath dstPath => exact effect_copyFileCtx _ _ _
  | rename oldPath newPath => exact effect_renameCtx _ _
  | remove path =>
    unfold NamespaceOp.run removeCtx
    dsimp only
    split
    . exact .same _
    . split
      . apply commit_rows (.same _)
        intro a s' h
        obtain ⟨hempty, hrows⟩ := fileNodes_of_deleteEmptyDir h
        rw [hrows]
        exact .dirRemoved hempty
      . exact effect_deleteFile (.inl rfl) _
  | removeAll path =>
    unfold NamespaceOp.run removeAllCtx
    dsimp only
    split
    . exact .same _
    . next path node hresolve =>
      split
      . next hdir =>
        apply commit_rows (.same _)
        intro a s' h
        rw [(of_deleteDirRecursive h).fileNodes]
        exact .treeRemoved hresolve hdir
      . exact effect_deleteFile (.inr rfl) _

end Run

end Backend
