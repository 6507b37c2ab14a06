import Drive9.Datastore.Files
import Drive9.Datastore.Lemmas

/-!
This module contains what a transaction on files that goes through does to the tables: the rows it
inserts and updates, and what it leaves alone.
-/

open List

namespace Datastore

open Transaction

variable {s s' : FileStore}

theorem of_onDb (h : onDb x s = .ok (a, s'))
    : ∃ db, x s.db = .ok (a, db) ∧ s' = { s with db := db } := by
  unfold onDb at h
  split at h
  . cases h
  . next r db hx =>
    cases h
    exact ⟨db, hx, rfl⟩

variable {db db' : Db}

theorem of_byLayout (h : byLayout legacy split db = .ok (a, db'))
    : if db.useLegacyFiles then legacy db = .ok (a, db') else split db = .ok (a, db') := by
  unfold byLayout at h
  split at h
  . next hl => rw [if_pos hl, h]
  . next hl => rw [if_neg hl, h]

structure KeysOk (nodes : List FileNode) : Prop where
  nodeIDs : (nodes.map (·.nodeID)).Nodup
  paths : (nodes.map (·.path)).Nodup

variable {n : FileNode}

namespace KeysOk

variable {nodes : List FileNode}

theorem nil : KeysOk [] := ⟨.nil, .nil⟩

section

variable (h : KeysOk nodes)

include h

theorem filter (p : FileNode → Bool) : KeysOk (nodes.filter p) := by
  constructor
  . exact h.nodeIDs.sublist (filter_sublist.map _)
  . exact h.paths.sublist (filter_sublist.map _)

theorem append (hn : ∀ m ∈ nodes, m.nodeID ≠ n.nodeID ∧ m.path ≠ n.path)
    : KeysOk (nodes ++ [n]) := by
  constructor
  . rw [map_append, map_singleton, ← concat_eq_append]
    apply List.Nodup.concat _ h.nodeIDs
    intro hc
    obtain ⟨m, hm, heq⟩ := mem_map.mp hc
    exact (hn m hm).1 heq
  . rw [map_append, map_singleton, ← concat_eq_append]
    apply List.Nodup.concat _ h.paths
    intro hc
    obtain ⟨m, hm, heq⟩ := mem_map.mp hc
    exact (hn m hm).2 heq

theorem map (hid : ∀ n, (g n).nodeID = n.nodeID) (hpath : ∀ n, (g n).path = n.path)
    : KeysOk (nodes.map g) := by
  constructor
  . rw [map_map]
    simpa only [Function.comp_def, hid] using h.nodeIDs
  . rw [map_map]
    simpa only [Function.comp_def, hpath] using h.paths

theorem eq_of_path (hm : m ∈ nodes) (hn : n ∈ nodes) (hpath : m.path = n.path) : m = n :=
  inj_on_of_nodup_map h.paths hm hn hpath

theorem eq_of_nodeID (hm : m ∈ nodes) (hn : n ∈ nodes) (hid : m.nodeID = n.nodeID) : m = n :=
  inj_on_of_nodup_map h.nodeIDs hm hn hid

end

end KeysOk

variable {path : Str}

namespace Db

theorem referenced_iff (db : Db) (fileID)
    : db.referenced fileID = true ↔ ∃ n ∈ db.fileNodes, n.fileID = some fileID := by
  unfold referenced
  simp

theorem mem_of_node? (h : db.node? path = some n) : n ∈ db.fileNodes ∧ n.path = path := by
  exact ⟨mem_of_find?_eq_some h, by simpa using find?_some h⟩

end Db

structure DirsAdded (db db' : Db) : Prop where
  useLegacyFiles : db'.useLegacyFiles = db.useLegacyFiles
  files : db'.files = db.files
  contents : db'.contents = db.contents
  referenced : ∀ fileID, db'.referenced fileID = db.referenced fileID
  inodes : ∀ fileID, db'.inodes.get? fileID = db.inodes.get? fileID
    ∨ db.inodes.get? fileID = none ∧ db'.inodes.get? fileID = some ⟨0, 1, .confirmed⟩
  keys : KeysOk db.fileNodes → KeysOk db'.fileNodes
  paths : ∀ n ∈ db.fileNodes, ∃ n' ∈ db'.fileNodes, n'.path = n.path

variable {a : Unit}

namespace DirsAdded

theorem refl (db) : DirsAdded db db where
  useLegacyFiles := rfl
  files := rfl
  contents := rfl
  referenced := fun _ => rfl
  inodes := fun _ => .inl rfl
  keys := id
  paths := fun n hn => ⟨n, hn, rfl⟩

theorem trans (h1 : DirsAdded db db1) (h2 : DirsAdded db1 db') : DirsAdded db db' where
  useLegacyFiles := h2.useLegacyFiles.trans h1.useLegacyFiles
  files := h2.files.trans h1.files
  contents := h2.contents.trans h1.contents
  referenced := fun fileID => (h2.referenced fileID).trans (h1.referenced fileID)
  inodes := by
    intro fileID
    have h1 := h1.inodes fileID
    have h2 := h2.inodes fileID
    grind
  keys := fun h => h2.keys (h1.keys h)
  paths := by
    intro n hn
    obtain ⟨n1, hn1, heq1⟩ := h1.paths n hn
    obtain ⟨n', hn', heq⟩ := h2.paths n1 hn1
    exact ⟨n', hn', heq.trans heq1⟩

theorem insertIgnoreInode (db) (id)
    : DirsAdded db (db.insertIgnoreInode id ⟨0, 1, .confirmed⟩) := by
  unfold Db.insertIgnoreInode
  split
  . exact refl db
  . next hnone =>
    refine ⟨rfl, rfl, rfl, fun _ => rfl, ?_, fun h => h, fun n hn => ⟨n, hn, rfl⟩⟩
    intro fileID
    rw [FMap.get?_set]
    split
    . next heq =>
      right
      rw [heq]
      exact ⟨by simpa using hnone, rfl⟩
    . exact .inl rfl

theorem insertNodeOrKeep (db) (hn : n.fileID = none) : DirsAdded db (db.insertNodeOrKeep n) := by
  unfold Db.insertNodeOrKeep
  split
  . exact refl db
  . next hfree =>
    refine ⟨rfl, rfl, rfl, ?_, fun _ => .inl rfl, ?_, ?_⟩
    . intro fileID
      unfold Db.referenced
      simp [hn]
    . intro hkeys
      apply hkeys.append
      intro m hm
      simp only [any_eq_true, decide_eq_true_eq, not_exists, not_and, not_or] at hfree
      exact hfree m hm
    . intro m hm
      exact ⟨m, mem_append_left _ hm, rfl⟩

theorem fillInode (db) (dirPath) (id)
    : DirsAdded db { db with
        fileNodes := db.fileNodes.map fun m =>
          if m.path = dirPath ∧ m.isDirectory then { m with inodeID := some id } else m } := by
  refine ⟨rfl, rfl, rfl, ?_, fun _ => .inl rfl, ?_, ?_⟩
  . intro fileID
    unfold Db.referenced
    rw [any_map]
    congr 1
    funext m
    dsimp only [Function.comp]
    split
    all_goals rfl
  . intro hkeys
    apply hkeys.map
    all_goals
      intro m
      split
      all_goals rfl
  . intro m hm
    refine ⟨_, mem_map_of_mem hm, ?_⟩
    split
    all_goals rfl

theorem ensureDir (dirID : Str → ID) (db) (dirPath)
    : DirsAdded db (db.ensureDir dirID dirPath) := by
  unfold Db.ensureDir
  split
  . split
    . exact refl db
    . exact (insertIgnoreInode db _).trans (fillInode _ _ _)
  . exact (insertIgnoreInode db _).trans (insertNodeOrKeep _ rfl)

theorem ensureDirs (dirID : Str → ID) (db) (dirs : List Str)
    : DirsAdded db (dirs.foldl (Db.ensureDir dirID) db) := by
  induction dirs generalizing db with
  | nil => exact refl db
  | cons d ds ih => exact (ensureDir dirID db d).trans (ih _)

theorem of_ensureParentDirsTx (h : ensureParentDirsTx dirID path db = .ok (a, db'))
    : DirsAdded db db' := by
  cases h
  exact ensureDirs dirID db _

end DirsAdded

def Db.setLegacyFile (db : Db) (fileID : ID) (f : File) : FMap ID File :=
  if db.useLegacyFiles then db.files.set fileID f else db.files

variable {fileID : ID}

theorem Db.setLegacyFile_of_ne (db : Db) {id : ID} (f) (hne : id ≠ fileID)
    : (db.setLegacyFile fileID f).get? id = db.files.get? id := by
  unfold setLegacyFile
  split
  . exact FMap.get?_set_ne _ _ hne
  . rfl

structure FileInserted (fileID : ID) (f : File) (db db' : Db) : Prop where
  file : db.useLegacyFiles → db.files.get? fileID = none
  inode : db.inodes.get? fileID = none
  content : db.contents.get? fileID = none
  eq : db' = { db with
    files := db.setLegacyFile fileID f
    inodes := db.inodes.set fileID ⟨f.sizeBytes, f.revision, f.status⟩
    contents := db.contents.set fileID ⟨f.storageType, f.storageRef⟩ }

theorem of_insertInodeTx (h : insertInodeTx inodeID inode db = .ok (a, db'))
    : db.inodes.get? inodeID = none ∧ db' = { db with inodes := db.inodes.set inodeID inode } := by
  have h := of_get h
  obtain ⟨hnone, h⟩ := of_require_bind h
  cases h
  exact ⟨by simpa using hnone, rfl⟩

theorem of_insertContentTx (h : insertContentTx inodeID content db = .ok (a, db'))
    : db.contents.get? inodeID = none
      ∧ db' = { db with contents := db.contents.set inodeID content } := by
  have h := of_get h
  obtain ⟨hnone, h⟩ := of_require_bind h
  cases h
  exact ⟨by simpa using hnone, rfl⟩

theorem of_insertLegacyFileTx (h : insertLegacyFileTx fileID f db = .ok (a, db'))
    : db.files.get? fileID = none ∧ db' = { db with files := db.files.set fileID f } := by
  have h := of_get h
  obtain ⟨hnone, h⟩ := of_require_bind h
  cases h
  exact ⟨by simpa using hnone, rfl⟩

theorem of_insertFileTx (h : insertFileTx fileID f db = .ok (a, db'))
    : FileInserted fileID f db db' := by
  obtain ⟨_, db1, hlegacy, h⟩ := of_bind h
  have hfile : (db.useLegacyFiles → db.files.get? fileID = none)
      ∧ db1 = { db with files := db.setLegacyFile fileID f } := by
    unfold Db.setLegacyFile
    have hlegacy := of_byLayout hlegacy
    split at hlegacy
    . next hl =>
      rw [if_pos hl]
      obtain ⟨hnone, hdb1⟩ := of_insertLegacyFileTx hlegacy
      exact ⟨fun _ => hnone, hdb1⟩
    . next hl =>
      rw [if_neg hl]
      cases hlegacy
      exact ⟨fun hc => absurd hc hl, rfl⟩
  obtain ⟨_, db2, hinode, hcontent⟩ := of_bind h
  obtain ⟨hinone, hdb2⟩ := of_insertInodeTx hinode
  obtain ⟨hcnone, hdb'⟩ := of_insertContentTx hcontent
  obtain ⟨hfnone, rfl⟩ := hfile
  subst hdb2
  exact ⟨hfnone, hinone, hcnone, hdb'⟩

structure NodeInserted (n : FileNode) (db db' : Db) : Prop where
  fresh : ∀ m ∈ db.fileNodes, m.nodeID ≠ n.nodeID ∧ m.path ≠ n.path
  confirmed : ∀ fileID, n.fileID = some fileID → ¬ n.isDirectory
    → (db.inodes.get? fileID).map (·.status) = some .confirmed
      ∧ (db.useLegacyFiles → (db.files.get? fileID).map (·.status) = some .confirmed)
  eq : db' = { db with fileNodes := db.fileNodes ++ [n] }

theorem of_lockForAttachTx (h : lockForAttachTx n db = .ok (a, db'))
    : db = db' ∧ ∀ fileID, n.fileID = some fileID → ¬ n.isDirectory
      → (db.inodes.get? fileID).map (·.status) = some .confirmed
        ∧ (db.useLegacyFiles → (db.files.get? fileID).map (·.status) = some .confirmed) := by
  unfold lockForAttachTx at h
  cases hid : n.fileID with
  | some fileID =>
    rw [hid] at h
    dsimp only at h
    split at h
    . next hdir =>
      cases h
      exact ⟨rfl, fun _ _ hc => absurd hdir hc⟩
    . have h := of_get h
      obtain ⟨hlegacy, h⟩ := of_require_bind h
      obtain ⟨hinode, rfl⟩ := of_require h
      refine ⟨rfl, ?_⟩
      intro fileID' hid'
      cases hid'
      intro _
      exact ⟨hinode, hlegacy⟩
  | none =>
    rw [hid] at h
    cases h
    refine ⟨rfl, ?_⟩
    intro fileID hc
    contradiction

theorem of_insertNodeTx (h : insertNodeTx n db = .ok (a, db')) : NodeInserted n db db' := by
  obtain ⟨_, _, hlock, h⟩ := of_bind h
  obtain ⟨rfl, hconfirmed⟩ := of_lockForAttachTx hlock
  have h := of_get h
  obtain ⟨hfree, h⟩ := of_require_bind h
  cases h
  refine ⟨?_, hconfirmed, rfl⟩
  intro m hm
  simp only [any_eq_true, decide_eq_true_eq, not_exists, not_and, not_or] at hfree
  exact hfree m hm

structure ContentUpdated (fileID : ID) (expectedRevision : Int) (storageType : StorageType)
    (storageRef : Str)
    (size rev : Int) (db db' : Db) : Prop where
  legacy : db.useLegacyFiles → ∃ f, db.files.get? fileID = some f ∧ rev = f.revision + 1
    ∧ (expectedRevision > 0 → f.revision = expectedRevision ∧ f.status = .confirmed)
  split : ¬ db.useLegacyFiles → ∃ i, db.inodes.get? fileID = some i ∧ rev = i.revision + 1
    ∧ i.status = .confirmed
    ∧ (expectedRevision > 0 → i.revision = expectedRevision)
  content : (db.contents.get? fileID).isSome
  eq : db' = { db with
    files := db.setLegacyFile fileID ⟨storageType, storageRef, size, rev, .confirmed⟩
    inodes := db.inodes.modify fileID fun _ => ⟨size, rev, .confirmed⟩
    contents := db.contents.modify fileID fun _ => ⟨storageType, storageRef⟩ }

variable {expectedRevision rev : Int}

theorem of_updateLegacyFileTx
    (h : updateLegacyFileTx fileID expectedRevision storageType storageRef size db = .ok (rev, db'))
    : ∃ f, db.files.get? fileID = some f ∧ rev = f.revision + 1
      ∧ (expectedRevision > 0 → f.revision = expectedRevision ∧ f.status = .confirmed)
      ∧ db' = { db with files := db.files.set fileID ⟨storageType, storageRef, size, rev, .confirmed⟩ } := by
  have h := of_get h
  cases hf : db.files.get? fileID with
  | none =>
    rw [hf] at h
    cases h
  | some f =>
    rw [hf] at h
    obtain ⟨hexp, h⟩ := of_require_bind h
    obtain ⟨_, _, hset, h⟩ := of_bind h
    cases hset
    cases h
    exact ⟨f, rfl, rfl, hexp, rfl⟩

theorem of_nextInodeRevisionTx (h : nextInodeRevisionTx fileID expectedRevision db = .ok (rev, db'))
    : ∃ i, db.inodes.get? fileID = some i ∧ rev = i.revision + 1 ∧ i.status = .confirmed
      ∧ (expectedRevision > 0 → i.revision = expectedRevision) ∧ db = db' := by
  have h := of_get h
  cases hi : db.inodes.get? fileID with
  | none =>
    rw [hi] at h
    cases h
  | some i =>
    rw [hi] at h
    obtain ⟨hconfirmed, h⟩ := of_require_bind h
    obtain ⟨hexp, h⟩ := of_require_bind h
    cases h
    exact ⟨i, rfl, rfl, hconfirmed, hexp, rfl⟩

theorem of_updateFileContentTx
    (h : updateFileContentTx fileID expectedRevision storageType storageRef size db = .ok (rev, db'))
    : ContentUpdated fileID expectedRevision storageType storageRef size rev db db' := by
  obtain ⟨rev, db1, hrev, h⟩ := of_bind h
  obtain ⟨_, db2, hinode, h⟩ := of_bind h
  cases hinode
  have h := of_get h
  obtain ⟨hcontent, h⟩ := of_require_bind h
  obtain ⟨_, db3, hupdate, h⟩ := of_bind h
  cases hupdate
  cases h
  have hrev := of_byLayout hrev
  split at hrev
  . next hl =>
    obtain ⟨f, hf, hnext, hexp, rfl⟩ := of_updateLegacyFileTx hrev
    refine ⟨fun _ => ⟨f, hf, hnext, hexp⟩, fun hc => absurd hl hc, hcontent, ?_⟩
    unfold Db.setLegacyFile
    rw [if_pos hl]
  . next hl =>
    obtain ⟨i, hi, hnext, hconfirmed, hexp, rfl⟩ := of_nextInodeRevisionTx hrev
    refine ⟨fun hc => absurd hc hl, fun _ => ⟨i, hi, hnext, hconfirmed, hexp⟩, hcontent, ?_⟩
    unfold Db.setLegacyFile
    rw [if_neg hl]

theorem fileID_of_scanFileForGC (h : db.scanFileForGC fileID = some f) : f.fileID = fileID := by
  unfold Db.scanFileForGC Db.legacyGCFile at h
  split at h
  . obtain ⟨_, _, rfl⟩ := Option.map_eq_some_iff.mp h
    rfl
  . split at h
    . cases h
      rfl
    . contradiction

def GCFile.task (f : GCFile) : FileGCTask :=
  ⟨f.fileID, f.fileID, f.storageType, f.storageRef, f.sizeBytes⟩

theorem of_enqueueFileTx (h : enqueueFileTx f s = .ok (a, s'))
    : s' = s.enqueueFileGCTask f.task := by
  obtain ⟨task, _, htask, h⟩ := of_bind h
  obtain ⟨_, htask⟩ := of_require_bind htask
  cases htask
  cases h
  rfl

theorem of_enqueueFilesTx (h : enqueueFilesTx fs s = .ok (a, s'))
    : s' = fs.foldl (fun s f => s.enqueueFileGCTask f.task) s := by
  induction fs generalizing s with
  | nil =>
    cases h
    rfl
  | cons f fs ih =>
    obtain ⟨_, s1, h1, h2⟩ := of_bind h
    rw [foldl_cons, ← of_enqueueFileTx h1]
    exact ih h2

theorem FileStore.db_enqueueFileGCTask (s : FileStore) (task)
    : (s.enqueueFileGCTask task).db = s.db := by
  unfold enqueueFileGCTask
  split
  all_goals rfl

theorem FileStore.db_foldl_enqueue (s : FileStore) (files : List GCFile)
    : (files.foldl (fun s f => s.enqueueFileGCTask f.task) s).db = s.db := by
  induction files generalizing s with
  | nil => rfl
  | cons f files ih => rw [foldl_cons, ih, db_enqueueFileGCTask]

def FileStore.collect (s : FileStore) (f : GCFile) : FileStore :=
  { s with db := s.db.markFileDeleted f.fileID }.enqueueFileGCTask f.task

variable {r : Option GCFile}

theorem of_collectDeletedTx (h : collectDeletedTx fileID candidate s = .ok (r, s'))
    : s.db.referenced fileID ∧ s' = s
      ∨ ¬ s.db.referenced fileID ∧ ∃ f, candidate = some f ∧ s' = s.collect f := by
  have h := of_get h
  split at h
  . next href =>
    cases h
    exact .inl ⟨href, rfl⟩
  . next href =>
    right
    refine ⟨href, ?_⟩
    cases candidate with
    | none => cases h
    | some f =>
      obtain ⟨_, s1, hmark, h⟩ := of_bind h
      cases h
      obtain ⟨_, s2, hdb, henqueue⟩ := of_bind hmark
      obtain ⟨db, hmodify, rfl⟩ := of_onDb hdb
      cases hmodify
      exact ⟨f, rfl, of_enqueueFileTx henqueue⟩

inductive CollectedAfter (fileID : Option ID) (candidate : Db → ID → Option GCFile) (s : FileStore)
    : FileStore → Prop where
  | kept (h : ∀ id, fileID = some id → id ≠ [] → s.db.referenced id) : CollectedAfter fileID candidate s s
  | collected {id : ID} {f : GCFile} (hid : fileID = some id) (href : ¬ s.db.referenced id)
      (hf : candidate s.db id = some f)
      : CollectedAfter fileID candidate s (s.collect f)

theorem CollectedAfter.of_collect
    (h : collectDeletedTx fileID (candidate s.db fileID) s = .ok (r, s'))
    : CollectedAfter (some fileID) candidate s s' := by
  obtain ⟨href, rfl⟩ | ⟨href, f, hf, rfl⟩ := of_collectDeletedTx h
  . apply CollectedAfter.kept
    intro id hid _
    cases hid
    exact href
  . exact .collected rfl href hf

theorem of_deleteFileWithRefCheck (h : deleteFileWithRefCheck path s = .ok (r, s'))
    : ∃ node, s.db.node? path = some node ∧ node.isDirectory = false
      ∧ CollectedAfter node.fileID Db.deleteCandidateFile
        { s with db := s.db.deleteNodes fun n => n.path = path } s' := by
  have h := of_get h
  cases hnode : s.db.node? path with
  | none =>
    rw [hnode] at h
    cases h
  | some node =>
    rw [hnode] at h
    obtain ⟨hdir, h⟩ := of_require_bind h
    obtain ⟨_, _, hdelete, h⟩ := of_bind h
    obtain ⟨db, hmodify, rfl⟩ := of_onDb hdelete
    cases hmodify
    refine ⟨node, rfl, by simpa using hdir, ?_⟩
    cases hid : node.fileID with
    | none =>
      rw [hid] at h
      cases h
      exact .kept fun _ hc => by contradiction
    | some fileID =>
      rw [hid] at h
      dsimp only at h
      split at h
      . next hempty =>
        cases h
        apply CollectedAfter.kept
        intro id hc hne
        cases hc
        contradiction
      . exact .of_collect h

def replacedNodes (nodes : List FileNode) (dst : Option FileNode) (u : NodeUpdate)
    : List FileNode :=
  (nodes.filter fun n => !dst.any (·.nodeID = n.nodeID)).map u.apply

structure FileRenamed (oldPath newPath : Str) (u : NodeUpdate) (old : FileNode)
    (s s' : FileStore) : Prop where
  source : s.db.node? oldPath = some old
  file : old.isDirectory = false
  nodeID : u.nodeID = old.nodeID
  path : u.newPath = newPath
  target : ∀ dst, s.db.node? newPath = some dst → dst.isDirectory = false ∧ dst.nodeID ≠ old.nodeID
  free : ∀ m ∈ s.db.fileNodes.filter fun n => !(s.db.node? newPath).any (·.nodeID = n.nodeID),
    m.path = newPath → m.nodeID = old.nodeID
  collected : CollectedAfter ((s.db.node? newPath).bind (·.fileID)) Db.scanFileForGC
    { s with db := { s.db with fileNodes := replacedNodes s.db.fileNodes (s.db.node? newPath) u } } s'

theorem of_replaceTargetTx
    (h : replaceTargetTx old dst newPath newParentPath newName db = .ok (a, db'))
    : (∀ m ∈ db.fileNodes.filter fun n => !dst.any (·.nodeID = n.nodeID), m.path = newPath → m.nodeID = old.nodeID)
      ∧ db' = { db with
          fileNodes := replacedNodes db.fileNodes dst ⟨old.nodeID, newPath, newParentPath, newName⟩ } := by
  obtain ⟨_, _, hdelete, h⟩ := of_bind h
  cases hdelete
  have h := of_get h
  obtain ⟨hfree, h⟩ := of_require_bind h
  cases h
  exact ⟨hfree, rfl⟩

theorem of_collectTargetTx (h : collectTargetTx dst s = .ok (r, s'))
    : CollectedAfter (dst.bind (·.fileID)) Db.scanFileForGC s s' := by
  unfold collectTargetTx at h
  cases hid : dst.bind (·.fileID) with
  | none =>
    rw [hid] at h
    cases h
    exact .kept fun _ hc => by contradiction
  | some fileID =>
    rw [hid] at h
    dsimp only at h
    split at h
    . next hempty =>
      cases h
      apply CollectedAfter.kept
      intro id hc hne
      cases hc
      contradiction
    . have h := of_get h
      exact .of_collect h

theorem of_renameFileReplacingTarget
    (h : renameFileReplacingTarget oldPath newPath newParentPath newName s = .ok (r, s'))
    : s' = s
      ∨ ∃ old, FileRenamed oldPath newPath ⟨old.nodeID, newPath, newParentPath, newName⟩ old s s' := by
  have h := of_get h
  cases hold : s.db.node? oldPath with
  | none =>
    rw [hold] at h
    cases h
  | some old =>
    rw [hold] at h
    obtain ⟨hfile, h⟩ := of_require_bind h
    split at h
    . cases h
      exact .inl rfl
    . obtain ⟨hdst, h⟩ := of_require_bind h
      split at h
      . cases h
        exact .inl rfl
      . next hsame =>
        obtain ⟨_, _, hdb, h⟩ := of_bind h
        obtain ⟨db, hreplace, rfl⟩ := of_onDb hdb
        obtain ⟨hfree, rfl⟩ := of_replaceTargetTx hreplace
        right
        refine ⟨old, hold, by simpa using hfile, rfl, rfl, ?_, hfree, of_collectTargetTx h⟩
        intro dst hc
        rw [hc] at hdst hsame
        simpa using And.intro hdst hsame

def DirDeleted (dirPath : Str) (s s' : FileStore) : Prop :=
  ∃ orphanIDs : List ID, orphanIDs.Nodup
    ∧ (∀ fileID, fileID ∈ orphanIDs
      ↔ (∃ n ∈ s.db.fileNodes, inDir dirPath n ∧ n.fileID = some fileID) ∧ s.db.hasFile fileID
        ∧ ¬ (s.db.deleteNodes (inDir dirPath)).referenced fileID)
    ∧ s' = (orphanIDs.filterMap s.db.scanFileForGC).foldl (fun s f => s.enqueueFileGCTask f.task)
      { s with db := orphanIDs.foldl Db.markFileDeleted (s.db.deleteNodes (inDir dirPath)) }

theorem of_deleteDirRecursive {r : List GCFile}
    (h : Files.deleteDirRecursive dirPath s = .ok (r, s'))
    : DirDeleted dirPath s s' := by
  have h := of_get h
  obtain ⟨orphanIDs, _, hdb, h⟩ := of_bind h
  obtain ⟨db, hdelete, rfl⟩ := of_onDb hdb
  cases hdelete
  obtain ⟨_, s1, henqueue, h⟩ := of_bind h
  cases h
  refine ⟨_, ?_, ?_, of_enqueueFilesTx henqueue⟩
  . exact (nodup_dedup _).filter _
  . intro fileID
    simp only [mem_filter, mem_dedup, mem_filterMap, Bool.and_eq_true, Bool.not_eq_true']
    constructor
    . rintro ⟨⟨n, ⟨hn, hin⟩, hid⟩, hfile, href⟩
      exact ⟨⟨n, hn, hin, hid⟩, hfile, by rw [href]; exact Bool.false_ne_true⟩
    . rintro ⟨⟨n, hn, hin, hid⟩, hfile, href⟩
      exact ⟨⟨n, ⟨hn, hin⟩, hid⟩, hfile, by simpa using href⟩

end Datastore
