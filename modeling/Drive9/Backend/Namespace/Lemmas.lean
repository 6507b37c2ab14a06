import Drive9.Backend.Namespace.Impl
import Drive9.Datastore.FilesLemmas
import Drive9.Datastore.PathLemmas

/-!
This module contains what the operations on the namespace have in common.
-/

open List

namespace Datastore

def madeDir (dirID : Str → ID) (dirPath : Str) : FileNode where
  nodeID := dirID dirPath
  path := dirPath
  parentPath := parentPath dirPath
  name := baseName dirPath
  isDirectory := true
  fileID := none
  inodeID := some (dirID dirPath)

-- A directory may get the inode id of its path.
def Refilled (dirID : Str → ID) (n n' : FileNode) : Prop :=
  n' = n ∨ n.isDirectory ∧ n' = { n with inodeID := some (dirID n.path) }

namespace Refilled

variable {dirID : Str → ID} {n n' : FileNode}

theorem refl (n) : Refilled dirID n n := .inl rfl

theorem trans (h1 : Refilled dirID n n1) (h2 : Refilled dirID n1 n') : Refilled dirID n n' := by
  obtain rfl | ⟨hdir, rfl⟩ := h1
  . exact h2
  . obtain rfl | ⟨_, rfl⟩ := h2
    . exact .inr ⟨hdir, rfl⟩
    . exact .inr ⟨hdir, rfl⟩

section

variable (h : Refilled dirID n n')

include h

theorem nodeID : n'.nodeID = n.nodeID := by obtain rfl | ⟨_, rfl⟩ := h <;> rfl

theorem path : n'.path = n.path := by obtain rfl | ⟨_, rfl⟩ := h <;> rfl

theorem parentPath : n'.parentPath = n.parentPath := by obtain rfl | ⟨_, rfl⟩ := h <;> rfl

theorem name : n'.name = n.name := by obtain rfl | ⟨_, rfl⟩ := h <;> rfl

theorem isDirectory : n'.isDirectory = n.isDirectory := by obtain rfl | ⟨_, rfl⟩ := h <;> rfl

end

theorem ite (n) (d : Str)
    : Refilled dirID n (if n.path = d ∧ n.isDirectory then { n with inodeID := some (dirID d) } else n) := by
  split
  . next h => exact .inr ⟨h.2, by rw [h.1]⟩
  . exact refl n

end Refilled

structure DirsMade (dirID : Str → ID) (dirs : List Str) (nodes nodes' : List FileNode) : Prop where
  old : ∀ n ∈ nodes, ∃ n' ∈ nodes', Refilled dirID n n'
  new : ∀ n' ∈ nodes', (∃ n ∈ nodes, Refilled dirID n n')
    ∨ ∃ d ∈ dirs, Refilled dirID (madeDir dirID d) n'
      ∧ ∀ m ∈ nodes, m.path ≠ d ∧ m.nodeID ≠ dirID d

def ensureDirRow (dirID : Str → ID) (nodes : List FileNode) (d : Str) : List FileNode :=
  match nodes.find? (fun n => n.path = d ∧ n.isDirectory) with
  | some n =>
    if n.inodeID.isSome then
      nodes
    else
      nodes.map fun m => if m.path = d ∧ m.isDirectory then { m with inodeID := some (dirID d) } else m
  | none =>
    if nodes.any (fun m => m.nodeID = dirID d ∨ m.path = d) then
      nodes
    else
      nodes ++ [madeDir dirID d]

def withParents (dirID : Str → ID) (path : Str) (nodes : List FileNode) : List FileNode :=
  (ancestors path.length path).reverse.foldl (ensureDirRow dirID) nodes

theorem fileNodes_ensureDir (dirID : Str → ID) (db : Db) (d : Str)
    : (db.ensureDir dirID d).fileNodes = ensureDirRow dirID db.fileNodes d := by
  have hinodes : ∀ id inode, (db.insertIgnoreInode id inode).fileNodes = db.fileNodes := by
    intro id inode
    unfold Db.insertIgnoreInode
    split
    all_goals rfl
  unfold Db.ensureDir ensureDirRow
  cases db.fileNodes.find? (fun n => n.path = d ∧ n.isDirectory) with
  | some n =>
    dsimp only
    split
    . rfl
    . rw [hinodes]
  | none =>
    unfold Db.insertNodeOrKeep
    dsimp only
    rw [hinodes]
    split
    . exact hinodes _ _
    . rfl

theorem fileNodes_foldl_ensureDir (dirID : Str → ID) (db : Db) (dirs : List Str)
    : (dirs.foldl (Db.ensureDir dirID) db).fileNodes
      = dirs.foldl (ensureDirRow dirID) db.fileNodes := by
  induction dirs generalizing db with
  | nil => rfl
  | cons d dirs ih => rw [foldl_cons, foldl_cons, ih, fileNodes_ensureDir]

namespace DirsMade

variable {dirID : Str → ID} {nodes nodes1 nodes' : List FileNode}

theorem refl (dirs : List Str) (nodes) : DirsMade dirID dirs nodes nodes where
  old n hn := ⟨n, hn, .refl n⟩
  new n hn := .inl ⟨n, hn, .refl n⟩

theorem trans (h1 : DirsMade dirID [d] nodes nodes1)
    (h2 : DirsMade dirID dirs nodes1 nodes')
    : DirsMade dirID (d :: dirs) nodes nodes' where
  old := by
    intro n hn
    obtain ⟨n1, hn1, hfill1⟩ := h1.old n hn
    obtain ⟨n', hn', hfill⟩ := h2.old n1 hn1
    exact ⟨n', hn', hfill1.trans hfill⟩
  new := by
    intro n' hn'
    cases h2.new n' hn' with
    | inl hold =>
      obtain ⟨n1, hn1, hfill⟩ := hold
      cases h1.new n1 hn1 with
      | inl hold =>
        obtain ⟨n, hn, hfill1⟩ := hold
        exact .inl ⟨n, hn, hfill1.trans hfill⟩
      | inr hnew =>
        obtain ⟨d', hd', hmade, hfree⟩ := hnew
        rw [mem_singleton] at hd'
        subst hd'
        exact .inr ⟨d', mem_cons_self, hmade.trans hfill, hfree⟩
    | inr hnew =>
      obtain ⟨d', hd', hmade, hfree⟩ := hnew
      right
      refine ⟨d', mem_cons_of_mem d hd', hmade, ?_⟩
      intro m hm
      obtain ⟨m1, hm1, hfill⟩ := h1.old m hm
      rw [← hfill.path, ← hfill.nodeID]
      exact hfree m1 hm1

theorem ensureDirRow (nodes) (d : Str)
    : DirsMade dirID [d] nodes (ensureDirRow dirID nodes d) := by
  unfold Datastore.ensureDirRow
  split
  . split
    . exact refl [d] nodes
    . constructor
      . intro n hn
        exact ⟨_, mem_map_of_mem hn, .ite n _⟩
      . intro n' hn'
        obtain ⟨n, hn, rfl⟩ := mem_map.mp hn'
        exact .inl ⟨n, hn, .ite n _⟩
  . split
    . exact refl [d] nodes
    . next hfree =>
      constructor
      . intro n hn
        exact ⟨n, mem_append_left _ hn, .refl n⟩
      . intro n' hn'
        cases mem_append.mp hn' with
        | inl hn' => exact .inl ⟨n', hn', .refl n'⟩
        | inr hn' =>
          rw [mem_singleton] at hn'
          right
          refine ⟨d, mem_cons_self, hn' ▸ .refl _, ?_⟩
          simp only [any_eq_true, decide_eq_true_eq, not_exists, not_and, not_or] at hfree
          intro m hm
          exact (hfree m hm).symm

theorem foldl (nodes) (dirs : List Str)
    : DirsMade dirID dirs nodes (dirs.foldl (Datastore.ensureDirRow dirID) nodes) := by
  induction dirs generalizing nodes with
  | nil => exact refl [] nodes
  | cons d dirs ih => exact (ensureDirRow nodes d).trans (ih _)

end DirsMade

theorem dirsMade_withParents (dirID) (path : Str) (nodes)
    : DirsMade dirID (ancestors path.length path).reverse nodes
      (withParents dirID path nodes) :=
  DirsMade.foldl nodes _

theorem KeysOk.withParents (h : KeysOk nodes) (dirID) (path : Str)
    : KeysOk (withParents dirID path nodes) := by
  have hdirs : ∀ dirs : List Str, KeysOk (dirs.foldl (ensureDirRow dirID) nodes) := by
    intro dirs
    -- through a database with these rows
    have hadded := DirsAdded.ensureDirs dirID
      { useLegacyFiles := false, fileNodes := nodes, files := .empty, inodes := .empty, contents := .empty,
        uploads := .empty } dirs
    have hkeys := hadded.keys h
    rwa [fileNodes_foldl_ensureDir] at hkeys
  exact hdirs _

end Datastore

namespace Backend

open Datastore Pathutil

theorem fileNodes_ensureParentDirs (dirID) (s : FileStore) (path : Str)
    : (ensureParentDirs dirID s path).db.fileNodes = withParents dirID path s.db.fileNodes :=
  fileNodes_foldl_ensureDir dirID s.db _

section Paths

variable {nfc : Str → Str} {db : Db} {raw path : Str} {n : FileNode}

theorem of_resolveNodePath (h : resolveNodePath nfc db raw = some (path, n))
    : db.node? path = some n
      ∧ (path = normalizePath nfc raw ∨ isDir raw = false ∧ canonicalizeDir nfc raw = .ok path) := by
  unfold resolveNodePath at h
  dsimp only at h
  split at h
  . next node hnode =>
    cases h
    exact ⟨hnode, .inl rfl⟩
  . split at h
    . contradiction
    . next hdir =>
      split at h
      . contradiction
      . next dirPath hcanon =>
        split at h
        . contradiction
        . obtain ⟨node, hnode, heq⟩ := Option.map_eq_some_iff.mp h
          cases heq
          exact ⟨hnode, .inr ⟨by simpa using hdir, hcanon⟩⟩

theorem path_of_resolveNodePath (laws : NfcLaws nfc) (hp : canonicalize nfc raw = .ok p)
    (h : resolveNodePath nfc db raw = some (path, n))
    : path = dirForm true p ∨ isDir raw = false ∧ path = p := by
  have hdir := canonicalizeDir_of_canonicalize laws hp
  obtain ⟨_, h | ⟨_, h⟩⟩ := of_resolveNodePath h
  . unfold normalizePath at h
    rw [hdir, hp] at h
    split at h
    . exact .inl h
    . next hfile => exact .inr ⟨by simpa using hfile, h⟩
  . rw [hdir] at h
    cases h
    exact .inl rfl

end Paths

end Backend
