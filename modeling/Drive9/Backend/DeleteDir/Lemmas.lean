import Drive9.Backend.DeleteDir.Impl
import Drive9.Datastore.FilesLemmas

/-!
This module contains what the writes of a transaction do to the tables.
-/

open Datastore Backend List

namespace Datastore

def Db.links (db : Db) : List (Str × Option ID) := db.fileNodes.map fun n => (n.path, n.fileID)

theorem Db.referenced_iff_links (db : Db) (fileID)
    : db.referenced fileID = true ↔ ∃ path, (path, some fileID) ∈ db.links := by
  rw [Db.referenced_iff]
  constructor
  . rintro ⟨n, hn, hfile⟩
    refine ⟨n.path, ?_⟩
    rw [← hfile]
    exact mem_map_of_mem hn
  . rintro ⟨path, h⟩
    obtain ⟨n, hn, heq⟩ := mem_map.mp h
    exact ⟨n, hn, congrArg Prod.snd heq⟩

theorem Db.referenced_mono {db db' : Db} (h : db.links ⊆ db'.links)
    (hfile : db.referenced fileID = true)
    : db'.referenced fileID = true := by
  rw [referenced_iff_links] at hfile ⊢
  obtain ⟨path, hpath⟩ := hfile
  exact ⟨path, h hpath⟩

def FileStore.has (s : FileStore) (key : RowKey) : Bool :=
  match key with
  | .file fileID => (s.db.files.get? fileID).isSome
  | .inode inodeID => (s.db.inodes.get? inodeID).isSome
  | .content inodeID => (s.db.contents.get? inodeID).isSome
  | _ => false

theorem FileStore.hasFile_iff (s : FileStore) (fileID)
    : s.db.hasFile fileID = true
      ↔
      if s.db.useLegacyFiles then s.has (.file fileID) = true
      else s.has (.inode fileID) = true ∧ s.has (.content fileID) = true := by
  unfold Db.hasFile FileStore.has
  split
  . rfl
  . rw [Bool.and_eq_true]

theorem Db.isSome_scanFileForGC (db : Db) (fileID)
    : (db.scanFileForGC fileID).isSome = db.hasFile fileID := by
  unfold Db.scanFileForGC Db.legacyGCFile Db.hasFile
  split
  . rw [Option.isSome_map]
  . cases db.inodes.get? fileID with
    | none => rfl
    | some inode =>
      cases db.contents.get? fileID with
      | none | some content => rfl

theorem Db.get?_foldl_markInodeDeleted (db : Db) (fileIDs : List ID) (fileID)
    : (fileIDs.foldl Db.markInodeDeleted db).inodes.get? fileID
      =
      if fileID ∈ fileIDs then (db.inodes.get? fileID).map fun i => { i with status := .deleted }
      else db.inodes.get? fileID := by
  induction fileIDs generalizing db with
  | nil => rfl
  | cons id ids ih =>
    rw [foldl_cons, ih]
    unfold Db.markInodeDeleted
    rw [FMap.get?_modify]
    by_cases hid : fileID = id
    . subst hid
      rw [if_pos rfl, if_pos mem_cons_self, Option.map_map]
      split
      all_goals rfl
    . rw [if_neg hid]
      simp only [mem_cons, hid, false_or]

theorem Db.foldl_markInodeDeleted (db) (fileIDs : List ID)
    : ∃ inodes, fileIDs.foldl Db.markInodeDeleted db = { db with inodes := inodes } := by
  induction fileIDs generalizing db with
  | nil => exact ⟨db.inodes, rfl⟩
  | cons id ids ih =>
    obtain ⟨inodes, h⟩ := ih (db.markInodeDeleted id)
    exact ⟨inodes, h⟩

theorem Db.foldl_markLegacyFileDeleted (db : Db) (fileIDs : List ID)
    : ∃ files : FMap ID File, fileIDs.foldl Db.markLegacyFileDeleted db = { db with files := files }
      ∧ ∀ id, (files.get? id).isSome = (db.files.get? id).isSome := by
  induction fileIDs generalizing db with
  | nil => exact ⟨db.files, rfl, fun _ => rfl⟩
  | cons id ids ih =>
    obtain ⟨files, h, hfiles⟩ := ih (db.markLegacyFileDeleted id)
    refine ⟨files, h, ?_⟩
    intro fileID
    rw [hfiles]
    unfold Db.markLegacyFileDeleted
    rw [FMap.get?_modify]
    split
    . next heq => rw [Option.isSome_map, heq]
    . rfl

theorem FileStore.enqueueFileGCTask_mono (s : FileStore) (task)
    : s.fileGCTasks ⊆ (s.enqueueFileGCTask task).fileGCTasks := by
  unfold FileStore.enqueueFileGCTask
  split
  . exact fun _ h => h
  . exact subset_append_left _ _

end Datastore

namespace RowWrite

def makes (w : RowWrite) (key : RowKey) : Prop :=
  match w with
  | .insertFile fileID _ => key = .file fileID
  | .insertInode inodeID _ => key = .inode inodeID
  | .insertContent inodeID _ => key = .content inodeID
  | .insertIgnoreInode inodeID => key = .inode inodeID
  | _ => False

theorem useLegacyFiles_apply (s : FileStore) (w)
    : (apply s w).db.useLegacyFiles = s.db.useLegacyFiles := by
  cases w with
  | insertIgnoreInode id =>
    unfold apply Db.insertIgnoreInode
    dsimp only
    split
    all_goals rfl
  | markFiles ids =>
    obtain ⟨files, h, _⟩ := s.db.foldl_markLegacyFileDeleted ids
    unfold apply
    dsimp only
    rw [h]
  | markInodes ids =>
    obtain ⟨inodes, h⟩ := s.db.foldl_markInodeDeleted ids
    unfold apply
    dsimp only
    rw [h]
  | insertTask task =>
    unfold apply
    rw [FileStore.db_enqueueFileGCTask]
  | _ => rfl

theorem isSome_get?_set [DecidableEq κ] (m : FMap κ ν) (k k') (v)
    : ((m.set k v).get? k').isSome = true ↔ (m.get? k').isSome = true ∨ k' = k := by
  rw [FMap.get?_set]
  split
  . next h => simp [h]
  . next h => simp [h]

theorem has_apply (s : FileStore) (w : RowWrite) (key)
    : (apply s w).has key = true ↔ s.has key = true ∨ w.makes key := by
  cases w with
  | insertFile id f =>
    cases key with
    | file id' =>
      have := isSome_get?_set s.db.files id id' f
      simpa [FileStore.has, apply, makes] using this
    | _ => simp [FileStore.has, apply, makes]
  | insertInode id inode =>
    cases key with
    | inode id' =>
      have := isSome_get?_set s.db.inodes id id' inode
      simpa [FileStore.has, apply, makes] using this
    | _ => simp [FileStore.has, apply, makes]
  | insertContent id content =>
    cases key with
    | content id' =>
      have := isSome_get?_set s.db.contents id id' content
      simpa [FileStore.has, apply, makes] using this
    | _ => simp [FileStore.has, apply, makes]
  | insertIgnoreInode id =>
    unfold apply Db.insertIgnoreInode
    dsimp only
    split
    . next hsome =>
      have : makes (.insertIgnoreInode id) key → s.has key = true := by
        intro h
        rw [makes] at h
        rw [h]
        exact hsome
      exact ⟨.inl, fun h => h.elim (fun h => h) this⟩
    . cases key with
      | inode id' =>
        have := isSome_get?_set s.db.inodes id id' ⟨0, 1, .confirmed⟩
        simpa [FileStore.has, makes] using this
      | _ => simp [FileStore.has, makes]
  | markFiles ids =>
    obtain ⟨files, h, hfiles⟩ := s.db.foldl_markLegacyFileDeleted ids
    unfold apply
    dsimp only
    rw [h]
    cases key with
    | file id => simp [FileStore.has, makes, hfiles]
    | _ => simp [FileStore.has, makes]
  | markInodes ids =>
    have hinode := s.db.get?_foldl_markInodeDeleted ids
    obtain ⟨inodes, h⟩ := s.db.foldl_markInodeDeleted ids
    rw [h] at hinode
    unfold apply
    dsimp only at hinode ⊢
    rw [h]
    cases key with
    | inode id =>
      simp only [FileStore.has, makes, or_false, hinode]
      split
      . rw [Option.isSome_map]
      . rfl
    | _ => simp [FileStore.has, makes]
  | insertTask task =>
    have hdb := s.db_enqueueFileGCTask task
    have : (s.enqueueFileGCTask task).has key = s.has key := by
      unfold FileStore.has
      rw [hdb]
    unfold apply makes
    rw [this, or_false]
  | _ => simp [FileStore.has, apply, makes, Db.fillInode, Db.deleteNodes]

theorem links_apply (s : FileStore) (w)
    : (apply s w).db.links =
      match w with
      | .insertNode n => s.db.links ++ [(n.path, n.fileID)]
      | .deleteNodes paths => s.db.links.filter fun l => !paths.any (· = l.1)
      | _ => s.db.links := by
  cases w with
  | insertNode n =>
    unfold apply Db.links
    rw [map_append]
    rfl
  | deleteNodes paths =>
    unfold apply Db.links Db.deleteNodes
    dsimp only
    rw [filter_map]
    rfl
  | insertIgnoreInode id =>
    unfold apply Db.insertIgnoreInode
    dsimp only
    split
    all_goals rfl
  | fillInode dirPath id =>
    unfold apply Db.links Db.fillInode
    rw [map_map]
    apply map_congr_left
    intro n hn
    dsimp only [Function.comp]
    split
    all_goals rfl
  | markFiles ids =>
    obtain ⟨files, h, _⟩ := s.db.foldl_markLegacyFileDeleted ids
    unfold apply
    dsimp only
    rw [h]
    rfl
  | markInodes ids =>
    obtain ⟨inodes, h⟩ := s.db.foldl_markInodeDeleted ids
    unfold apply
    dsimp only
    rw [h]
    rfl
  | insertTask task =>
    unfold apply
    rw [FileStore.db_enqueueFileGCTask]
  | _ => rfl

end RowWrite

namespace FileSnapshotTx

theorem useLegacyFiles_foldl (s : FileStore) (ws : List RowWrite)
    : (ws.foldl RowWrite.apply s).db.useLegacyFiles = s.db.useLegacyFiles := by
  induction ws generalizing s with
  | nil => rfl
  | cons w ws ih => rw [foldl_cons, ih, RowWrite.useLegacyFiles_apply]

theorem has_foldl (s : FileStore) (ws : List RowWrite) (key)
    : (ws.foldl RowWrite.apply s).has key = true ↔ s.has key = true ∨ ∃ w ∈ ws, w.makes key := by
  induction ws generalizing s with
  | nil => simp
  | cons w ws ih =>
    rw [foldl_cons, ih, RowWrite.has_apply, or_assoc, exists_mem_cons_iff]

end FileSnapshotTx

section

variable (created : Option ID) (node : FileNode)

inductive AttachWrite : RowWrite → Prop where
  | file {fileID : ID} (f : File) (h : created = some fileID) : AttachWrite (.insertFile fileID f)
  | inode {fileID : ID} (i : Inode) (h : created = some fileID) : AttachWrite (.insertInode fileID i)
  | content {fileID : ID} (c : Content) (h : created = some fileID) : AttachWrite (.insertContent fileID c)
  | dirInode (inodeID : ID) : AttachWrite (.insertIgnoreInode inodeID)
  | fill (dirPath : Str) (inodeID : ID) : AttachWrite (.fillInode dirPath inodeID)
  | dirNode {n : FileNode} (h : n.fileID = none) : AttachWrite (.insertNode n)
  | node : AttachWrite (.insertNode node)

end

structure Attached (created : Option ID) (node : FileNode) (s s' : FileStore) : Prop where
  tasks : s'.fileGCTasks = s.fileGCTasks
  links : s.db.links ⊆ s'.db.links
  added : ∀ l ∈ s'.db.links, l ∈ s.db.links ∨ l.2 = none ∨ l = (node.path, node.fileID)
  inode : ∀ fileID, created ≠ some fileID → (s.db.inodes.get? fileID).isSome →
    s'.db.inodes.get? fileID = s.db.inodes.get? fileID
  content : ∀ fileID, created ≠ some fileID → s'.db.contents.get? fileID = s.db.contents.get? fileID

variable {w : RowWrite} {ws : List RowWrite}

namespace Attached

variable {created : Option ID} {node : FileNode} {s s' : FileStore}

theorem refl (created) (node) (s) : Attached created node s s where
  tasks := rfl
  links := fun _ h => h
  added := fun _ h => .inl h
  inode := fun _ _ _ => rfl
  content := fun _ _ => rfl

theorem trans (h1 : Attached created node s s1) (h2 : Attached created node s1 s')
    : Attached created node s s' where
  tasks := h2.tasks.trans h1.tasks
  links := fun _ h => h2.links (h1.links h)
  added := by
    intro l hl
    rcases h2.added l hl with h | h
    . exact h1.added l h
    . exact .inr h
  inode := by
    intro fileID hne hsome
    have heq := h1.inode fileID hne hsome
    rw [← heq] at hsome
    exact (h2.inode fileID hne hsome).trans heq
  content := fun fileID hne => (h2.content fileID hne).trans (h1.content fileID hne)

theorem apply (h : AttachWrite created node w) (s)
    : Attached created node s (RowWrite.apply s w) := by
  cases h with
  | file f h => exact ⟨rfl, fun _ h => h, fun _ h => .inl h, fun _ _ _ => rfl, fun _ _ => rfl⟩
  | inode i h =>
    refine ⟨rfl, fun _ h => h, fun _ h => .inl h, ?_, fun _ _ => rfl⟩
    intro id hne _
    apply FMap.get?_set_ne
    rintro rfl
    exact hne h
  | content c h =>
    refine ⟨rfl, fun _ h => h, fun _ h => .inl h, fun _ _ _ => rfl, ?_⟩
    intro id hne
    apply FMap.get?_set_ne
    rintro rfl
    exact hne h
  | dirInode inodeID =>
    unfold RowWrite.apply Db.insertIgnoreInode
    dsimp only
    split
    . exact refl created node s
    . next hnone =>
      refine ⟨rfl, fun _ h => h, fun _ h => .inl h, ?_, fun _ _ => rfl⟩
      intro id _ hsome
      apply FMap.get?_set_ne
      rintro rfl
      exact hnone hsome
  | fill dirPath inodeID =>
    have hlinks := RowWrite.links_apply s (.fillInode dirPath inodeID)
    refine ⟨rfl, ?_, ?_, fun _ _ _ => rfl, fun _ _ => rfl⟩
    . rw [hlinks]
      exact fun _ h => h
    . rw [hlinks]
      exact fun _ h => .inl h
  | @dirNode n h =>
    have hlinks := RowWrite.links_apply s (.insertNode n)
    refine ⟨rfl, ?_, ?_, fun _ _ _ => rfl, fun _ _ => rfl⟩
    . rw [hlinks]
      exact subset_append_left _ _
    . rw [hlinks]
      intro l hl
      rcases mem_append.mp hl with hold | hnew
      . exact .inl hold
      . rw [mem_singleton.mp hnew]
        exact .inr (.inl h)
  | node =>
    have hlinks := RowWrite.links_apply s (.insertNode node)
    refine ⟨rfl, ?_, ?_, fun _ _ _ => rfl, fun _ _ => rfl⟩
    . rw [hlinks]
      exact subset_append_left _ _
    . rw [hlinks]
      intro l hl
      rcases mem_append.mp hl with hold | hnew
      . exact .inl hold
      . exact .inr (.inr (mem_singleton.mp hnew))

theorem foldl (h : ∀ w ∈ ws, AttachWrite created node w) (s)
    : Attached created node s (ws.foldl RowWrite.apply s) := by
  induction ws generalizing s with
  | nil => exact refl created node s
  | cons w ws ih =>
    have hw := apply (h w mem_cons_self) s
    exact hw.trans (ih (fun w' hw' => h w' (mem_cons_of_mem _ hw')) _)

theorem mem_links_foldl (h : ∀ w ∈ ws, AttachWrite created node w) (hnode : .insertNode node ∈ ws) (s)
    : (node.path, node.fileID) ∈ (ws.foldl RowWrite.apply s).db.links := by
  obtain ⟨before, after, rfl⟩ := append_of_mem hnode
  rw [foldl_append, foldl_cons]
  refine (foldl (fun w hw => h w ?_) _).links ?_
  . exact mem_append_right _ (mem_cons_of_mem _ hw)
  . rw [RowWrite.links_apply]
    exact mem_append_right _ mem_cons_self

end Attached

inductive DeleteWrite (paths : List Str) : RowWrite → Prop where
  | nodes : DeleteWrite paths (.deleteNodes paths)
  | files (fileIDs : List ID) : DeleteWrite paths (.markFiles fileIDs)
  | inodes (fileIDs : List ID) : DeleteWrite paths (.markInodes fileIDs)
  | task {task : FileGCTask} (h : task.taskID = task.fileID) : DeleteWrite paths (.insertTask task)

structure Shrunk (paths : List Str) (s s' : FileStore) : Prop where
  links : s'.db.links ⊆ s.db.links
  kept : ∀ l ∈ s.db.links, l.1 ∉ paths → l ∈ s'.db.links
  inode : ∀ fileID inode', s'.db.inodes.get? fileID = some inode' →
    ∃ inode, s.db.inodes.get? fileID = some inode ∧ (inode' = inode ∨ inode'.status = .deleted)
  content : s'.db.contents = s.db.contents
  tasks : s.fileGCTasks ⊆ s'.fileGCTasks
  taskIDs : (∀ t ∈ s.fileGCTasks, t.taskID = t.fileID) → ∀ t ∈ s'.fileGCTasks, t.taskID = t.fileID

namespace Shrunk

variable {paths : List Str} {s s' : FileStore}

theorem refl (paths) (s) : Shrunk paths s s where
  links := fun _ h => h
  kept := fun _ h _ => h
  inode := fun _ inode h => ⟨inode, h, .inl rfl⟩
  content := rfl
  tasks := fun _ h => h
  taskIDs := fun h => h

theorem trans (h1 : Shrunk paths s s1) (h2 : Shrunk paths s1 s') : Shrunk paths s s' where
  links := fun _ h => h1.links (h2.links h)
  kept := fun l hl hne => h2.kept l (h1.kept l hl hne) hne
  inode := by
    intro fileID inode' h
    obtain ⟨inode1, hinode1, hor⟩ := h2.inode fileID inode' h
    obtain ⟨inode, hinode, hor1⟩ := h1.inode fileID inode1 hinode1
    refine ⟨inode, hinode, ?_⟩
    rcases hor with rfl | hdeleted
    . exact hor1
    . exact .inr hdeleted
  content := h2.content.trans h1.content
  tasks := fun _ h => h2.tasks (h1.tasks h)
  taskIDs := fun h => h2.taskIDs (h1.taskIDs h)

theorem apply (h : DeleteWrite paths w) (s) : Shrunk paths s (RowWrite.apply s w) := by
  have hlinks := RowWrite.links_apply s w
  cases h with
  | nodes =>
    refine ⟨?_, ?_, fun _ inode h => ⟨inode, h, .inl rfl⟩, rfl, fun _ h => h, fun h => h⟩
    . rw [hlinks]
      exact filter_subset_self _
    . rw [hlinks]
      intro l hl hne
      rw [mem_filter]
      refine ⟨hl, ?_⟩
      simp only [Bool.not_eq_true', any_eq_false, decide_eq_true_eq]
      rintro path hpath rfl
      exact hne hpath
  | files fileIDs =>
    obtain ⟨files, h, _⟩ := s.db.foldl_markLegacyFileDeleted fileIDs
    unfold RowWrite.apply
    dsimp only
    rw [h]
    exact ⟨fun _ h => h, fun _ h _ => h, fun _ inode h => ⟨inode, h, .inl rfl⟩, rfl, fun _ h => h,
      fun h => h⟩
  | inodes fileIDs =>
    have hinode := s.db.get?_foldl_markInodeDeleted fileIDs
    obtain ⟨inodes, h⟩ := s.db.foldl_markInodeDeleted fileIDs
    rw [h] at hinode
    unfold RowWrite.apply
    dsimp only at hinode ⊢
    rw [h]
    refine ⟨fun _ h => h, fun _ h _ => h, ?_, rfl, fun _ h => h, fun h => h⟩
    intro fileID inode' hget
    rw [hinode] at hget
    split at hget
    . obtain ⟨inode, hold, rfl⟩ := Option.map_eq_some_iff.mp hget
      exact ⟨inode, hold, .inr rfl⟩
    . exact ⟨inode', hget, .inl rfl⟩
  | @task task h =>
    unfold RowWrite.apply
    dsimp only
    have hdb := s.db_enqueueFileGCTask task
    refine ⟨?_, ?_, ?_, ?_, s.enqueueFileGCTask_mono task, ?_⟩
    . rw [hdb]
      exact fun _ h => h
    . rw [hdb]
      exact fun _ h _ => h
    . rw [hdb]
      exact fun _ inode h => ⟨inode, h, .inl rfl⟩
    . rw [hdb]
    . intro hids t ht
      unfold FileStore.enqueueFileGCTask at ht
      split at ht
      . exact hids t ht
      . rcases mem_append.mp ht with hold | hnew
        . exact hids t hold
        . rw [mem_singleton.mp hnew]
          exact h

section

variable (h : ∀ w ∈ ws, DeleteWrite paths w)

include h

theorem foldl (s) : Shrunk paths s (ws.foldl RowWrite.apply s) := by
  induction ws generalizing s with
  | nil => exact refl paths s
  | cons w ws ih =>
    have hw := apply (h w mem_cons_self) s
    exact hw.trans (ih (fun w' hw' => h w' (mem_cons_of_mem _ hw')) _)

theorem foldl_of_mem (hw : w ∈ ws) (s)
    : ∃ s1, Shrunk paths s s1 ∧ Shrunk paths (RowWrite.apply s1 w) (ws.foldl RowWrite.apply s) := by
  obtain ⟨before, after, rfl⟩ := append_of_mem hw
  rw [foldl_append, foldl_cons]
  refine ⟨before.foldl RowWrite.apply s, foldl (fun w' hw' => h w' ?_) s,
    foldl (fun w' hw' => h w' ?_) _⟩
  . exact mem_append_left _ hw'
  . exact mem_append_right _ (mem_cons_of_mem _ hw')

theorem deleted_of_markInodes (hmark : .markInodes fileIDs ∈ ws)
    (hmem : fileID ∈ fileIDs) (s) {inode : Inode}
    (hinode : (ws.foldl RowWrite.apply s).db.inodes.get? fileID = some inode)
    : inode.status = .deleted := by
  obtain ⟨s1, _, hafter⟩ := foldl_of_mem h hmark s
  obtain ⟨inode1, hinode1, hor⟩ := hafter.inode fileID inode hinode
  have hget : (RowWrite.apply s1 (.markInodes fileIDs)).db.inodes.get? fileID
      = (s1.db.inodes.get? fileID).map fun i => { i with status := .deleted } := by
    unfold RowWrite.apply
    rw [Db.get?_foldl_markInodeDeleted, if_pos hmem]
  rw [hget] at hinode1
  obtain ⟨inode0, _, rfl⟩ := Option.map_eq_some_iff.mp hinode1
  rcases hor with rfl | hdeleted
  . rfl
  . exact hdeleted

theorem task_of_insertTask (hins : .insertTask task ∈ ws) (s)
    (hids : ∀ t ∈ s.fileGCTasks, t.taskID = t.fileID)
    : ∃ t ∈ (ws.foldl RowWrite.apply s).fileGCTasks, t.fileID = task.fileID := by
  obtain ⟨s1, hbefore, hafter⟩ := foldl_of_mem h hins s
  have htask : ∃ t ∈ (s1.enqueueFileGCTask task).fileGCTasks, t.fileID = task.fileID := by
    unfold FileStore.enqueueFileGCTask
    split
    . next hany =>
      simp only [any_eq_true, decide_eq_true_eq] at hany
      obtain ⟨t, ht, hor⟩ := hany
      refine ⟨t, ht, ?_⟩
      rcases hor with hid | hid
      . -- tasks are named after their files
        cases h _ hins with
        | task heq => rw [← hbefore.taskIDs hids t ht, hid, heq]
      . exact hid
    . exact ⟨task, mem_append_right _ mem_cons_self, rfl⟩
  obtain ⟨t, ht, hid⟩ := htask
  exact ⟨t, hafter.tasks ht, hid⟩

end

end Shrunk
