import Drive9.Backend.Files.Impl
import Drive9.Datastore.Moves

/-!
This module contains the agreement of reference counting and garbage collection in the split layout.
-/

open Datastore Backend Transaction List Option FMap Lts

namespace Datastore

structure FileView where
  referenced : Bool
  inode : Option Inode
  content : Option Content
  tasks : List FileGCTask

def FileStore.view (s : FileStore) (fileID : ID) : FileView :=
  ⟨s.db.referenced fileID, s.db.inodes.get? fileID, s.db.contents.get? fileID, s.tasksOf fileID⟩

def gcTask (fileID : ID) (inode : Inode) (content : Content) : FileGCTask :=
  ⟨fileID, fileID, content.storageType, content.storageRef, inode.sizeBytes⟩

inductive FileOk (fileID : ID) : FileView → Prop where
  | noFile {referenced inode}
      (h : referenced = true → inode.map (·.status) = some .confirmed)
      : FileOk fileID ⟨referenced, inode, none, []⟩
  | live {inode content} (h : inode.status = .confirmed)
      : FileOk fileID ⟨true, some inode, some content, []⟩
  | dead {inode content} (h : inode.status = .deleted)
      : FileOk fileID ⟨false, some inode, some content, [gcTask fileID inode content]⟩

inductive FileNext (fileID : ID) : FileView → FileView → Prop where
  | same (v : FileView) : FileNext fileID v v
  | noFile {referenced referenced' inode inode' tasks}
      (h : referenced' = true → inode'.map (·.status) = some .confirmed)
      : FileNext fileID ⟨referenced, inode, none, tasks⟩ ⟨referenced', inode', none, tasks⟩
  | create {referenced inode tasks inode' content'}
      (h : inode'.status = .confirmed)
      : FileNext fileID ⟨referenced, inode, none, tasks⟩ ⟨true, some inode', some content', tasks⟩
  | update {referenced inode inode' content content' tasks}
      (h : inode.status = .confirmed) (h' : inode'.status = .confirmed)
      : FileNext fileID ⟨referenced, some inode, some content, tasks⟩ ⟨referenced, some inode', some content', tasks⟩
  | collect {inode content}
      : FileNext fileID ⟨true, some inode, some content, []⟩
        ⟨false, some { inode with status := .deleted }, some content, [gcTask fileID inode content]⟩

theorem FileOk.next (hok : FileOk fileID v) (h : FileNext fileID v v') : FileOk fileID v' := by
  cases h with
  | same => exact hok
  | noFile h =>
    cases hok
    exact .noFile h
  | create h =>
    cases hok
    exact .live h
  | update h h' =>
    cases hok with
    | live => exact .live h'
    | dead hdead =>
      rw [h] at hdead
      contradiction
  | collect => exact .dead rfl

namespace FileOk

variable {fileID : ID} {v : FileView}

section

variable (hok : FileOk fileID v)

include hok

theorem content_none (h : v.inode = none) : v.content = none := by
  cases hok with
  | noFile => rfl
  | live | dead => contradiction

theorem of_referenced (h : v.referenced = true)
    : v.inode.map (·.status) = some .confirmed ∧ v.tasks = [] := by
  cases hok with
  | noFile hinode => exact ⟨hinode h, rfl⟩
  | live hinode => exact ⟨congrArg some hinode, rfl⟩
  | dead => contradiction

theorem attach (h : v.inode.map (·.status) = some .confirmed)
    : FileNext fileID v { v with referenced := true } := by
  cases hok with
  | noFile => exact .noFile fun _ => h
  | live => exact .same _
  | dead hdead =>
    rw [map_some, hdead] at h
    contradiction

theorem status_of_content (h : v.content = some content)
    : ∃ inode, v.inode = some inode ∧ (inode.status = .confirmed ↔ v.referenced = true) := by
  cases hok with
  | noFile => contradiction
  | live hinode => exact ⟨_, rfl, iff_of_true hinode rfl⟩
  | dead hinode =>
    refine ⟨_, rfl, iff_of_false ?_ Bool.false_ne_true⟩
    rw [hinode]
    decide

end

end FileOk

theorem FileNext.of_dead (h : FileNext fileID v v') (hok : FileOk fileID v)
    (hinode : v'.inode = some inode)
    (hcontent : v'.content = some content) (hdeleted : inode.status = .deleted)
    : v = v' ∨ ∃ inode0 content0, v.referenced = true ∧ v.inode = some inode0
      ∧ v.content = some content0
      ∧ v'.tasks = [gcTask fileID inode0 content0] := by
  cases h with
  | same => exact .inl rfl
  | noFile => contradiction
  | create h =>
    cases hinode
    rw [h] at hdeleted
    contradiction
  | update h h' =>
    cases hinode
    rw [h'] at hdeleted
    contradiction
  | collect => exact .inr ⟨_, _, rfl, rfl, rfl, rfl⟩

def FileStore.Dead (s : FileStore) (fileID : ID) : Prop :=
  ∃ inode content, s.db.inodes.get? fileID = some inode ∧ s.db.contents.get? fileID = some content
    ∧ inode.status = .deleted

structure Consistent (s : FileStore) : Prop where
  layout : s.db.useLegacyFiles = false
  keys : KeysOk s.db.fileNodes
  unnamed : s.db.referenced [] = false
  taskIDs : ∀ t ∈ s.fileGCTasks, t.taskID = t.fileID
  files : ∀ fileID, FileOk fileID (s.view fileID)

structure Moves (s s' : FileStore) : Prop where
  layout : s'.db.useLegacyFiles = s.db.useLegacyFiles
  keys : KeysOk s'.db.fileNodes
  unnamed : s'.db.referenced [] = false
  taskIDs : ∀ t ∈ s'.fileGCTasks, t.taskID = t.fileID
  files : ∀ fileID, FileNext fileID (s.view fileID) (s'.view fileID)

namespace Consistent

variable {s s' : FileStore}

section

variable (hs : Consistent s)

include hs

theorem moves (h : Moves s s') : Consistent s' :=
  { h with
    layout := h.layout.trans hs.layout
    files := fun fileID => (hs.files fileID).next (h.files fileID) }

theorem refl : Moves s s :=
  ⟨rfl, hs.keys, hs.unnamed, hs.taskIDs, fun _ => .same _⟩

theorem content_none (h : s.db.inodes.get? fileID = none) : s.db.contents.get? fileID = none :=
  (hs.files fileID).content_none h

theorem of_referenced (h : s.db.referenced fileID = true)
    : (s.db.inodes.get? fileID).map (·.status) = some .confirmed ∧ s.tasksOf fileID = [] :=
  (hs.files fileID).of_referenced h

theorem not_referenced (h : s.Dead fileID) : s.db.referenced fileID = false := by
  obtain ⟨inode, content, hinode, _, hdeleted⟩ := h
  by_contra hc
  obtain ⟨hconfirmed, _⟩ := hs.of_referenced (eq_true_of_ne_false hc)
  rw [hinode, map_some, hdeleted] at hconfirmed
  contradiction

end

end Consistent

theorem FileStore.tasksOf_enqueue {s : FileStore} (hids : ∀ t ∈ s.fileGCTasks, t.taskID = t.fileID)
    (f : GCFile) (fileID)
    : (s.enqueueFileGCTask f.task).tasksOf fileID
        =
      if fileID = f.fileID ∧ s.tasksOf fileID = [] then [f.task] else s.tasksOf fileID := by
  have hany : (s.fileGCTasks.any fun t => t.taskID = f.task.taskID ∨ t.fileID = f.task.fileID)
      = true
      ↔ s.tasksOf f.fileID ≠ [] := by
    unfold tasksOf
    rw [List.any_eq_true, ne_eq, List.filter_eq_nil_iff]
    constructor
    . rintro ⟨t, ht, heq⟩ hnone
      apply hnone t ht
      cases of_decide_eq_true heq with
      | inl h => exact decide_eq_true ((hids t ht).symm.trans h)
      | inr h => exact decide_eq_true h
    . intro hnone
      push Not at hnone
      obtain ⟨t, ht, heq⟩ := hnone
      exact ⟨t, ht, decide_eq_true (.inr (of_decide_eq_true heq))⟩
  unfold enqueueFileGCTask
  split
  . next hc =>
    have hne := hany.mp hc
    rw [if_neg]
    rintro ⟨rfl, hnil⟩
    exact hne hnil
  . next hc =>
    have hnil : s.tasksOf f.fileID = [] := by
      by_contra hne
      exact hc (hany.mpr hne)
    unfold tasksOf at *
    rw [List.filter_append]
    by_cases heq : fileID = f.fileID
    . subst heq
      rw [hnil, if_pos ⟨rfl, rfl⟩]
      simp [GCFile.task]
    . rw [if_neg (fun h => heq h.1)]
      simp [GCFile.task, Ne.symm heq]

theorem FileStore.taskIDs_enqueue {s : FileStore} (hids : ∀ t ∈ s.fileGCTasks, t.taskID = t.fileID)
    (f : GCFile)
    : ∀ t ∈ (s.enqueueFileGCTask f.task).fileGCTasks, t.taskID = t.fileID := by
  unfold enqueueFileGCTask
  split
  . exact hids
  . intro t ht
    cases mem_append.mp ht with
    | inl h => exact hids t h
    | inr h =>
      rw [mem_singleton] at h
      subst h
      rfl

def FileStore.collectAll (s : FileStore) (orphanIDs : List ID) (files : List GCFile) : FileStore :=
  files.foldl (fun s f => s.enqueueFileGCTask f.task) { s with db := orphanIDs.foldl Db.markFileDeleted s.db }

section CollectAll

variable {s : FileStore}

section

variable (hids : ∀ t ∈ s.fileGCTasks, t.taskID = t.fileID) (files : List GCFile)

include hids files

theorem FileStore.taskIDs_foldl_enqueue
    : ∀ t ∈ (files.foldl (fun s f => s.enqueueFileGCTask f.task) s).fileGCTasks,
      t.taskID = t.fileID := by
  induction files generalizing s with
  | nil => exact hids
  | cons f files ih => exact ih (taskIDs_enqueue hids f)

theorem FileStore.tasksOf_foldl_enqueue
    (fileID)
    : (files.foldl (fun s f => s.enqueueFileGCTask f.task) s).tasksOf fileID
        =
      if s.tasksOf fileID = [] then ((files.find? (·.fileID = fileID)).map GCFile.task).toList
      else s.tasksOf fileID := by
  induction files generalizing s with
  | nil =>
    split
    . assumption
    . rfl
  | cons f files ih =>
    rw [foldl_cons, ih (taskIDs_enqueue hids f), tasksOf_enqueue hids, find?_cons]
    by_cases heq : fileID = f.fileID
    . subst heq
      by_cases hnil : s.tasksOf f.fileID = []
      . simp [hnil]
      . simp [hnil]
    . simp [heq, Ne.symm heq]

end

section

variable (db : Db)

theorem Db.markFileDeleted_layout (id : ID)
    : (db.markFileDeleted id).useLegacyFiles = db.useLegacyFiles := by
  unfold markFileDeleted
  split
  all_goals rfl

theorem Db.markFileDeleted_contents (id : ID) : (db.markFileDeleted id).contents = db.contents := by
  unfold markFileDeleted
  split
  all_goals rfl

theorem Db.markFileDeleted_inodes (id fileID : ID)
    : (db.markFileDeleted id).inodes.get? fileID
        =
      if fileID = id then (db.inodes.get? fileID).map fun i => { i with status := .deleted }
      else db.inodes.get? fileID := by
  have hinodes : (db.markFileDeleted id).inodes
      = db.inodes.modify id fun i => { i with status := .deleted } := by
    unfold markFileDeleted
    split
    all_goals rfl
  rw [hinodes, get?_modify]
  split
  . next heq => rw [heq]
  . rfl

theorem Db.foldl_markFileDeleted_layout (ids : List ID)
    : (ids.foldl markFileDeleted db).useLegacyFiles = db.useLegacyFiles := by
  induction ids generalizing db with
  | nil => rfl
  | cons id ids ih => rw [foldl_cons, ih, markFileDeleted_layout]

theorem Db.foldl_markFileDeleted_contents (ids : List ID)
    : (ids.foldl markFileDeleted db).contents = db.contents := by
  induction ids generalizing db with
  | nil => rfl
  | cons id ids ih => rw [foldl_cons, ih, markFileDeleted_contents]

theorem Db.foldl_markFileDeleted_inodes (ids : List ID) (fileID)
    : (ids.foldl markFileDeleted db).inodes.get? fileID
        =
      if fileID ∈ ids then (db.inodes.get? fileID).map fun i => { i with status := .deleted }
      else db.inodes.get? fileID := by
  induction ids generalizing db with
  | nil => rfl
  | cons id ids ih =>
    rw [foldl_cons, ih, markFileDeleted_inodes]
    by_cases heq : fileID = id
    . subst heq
      rw [if_pos rfl, if_pos mem_cons_self]
      split
      . cases db.inodes.get? fileID with
        | none | some i => rfl
      . rfl
    . simp [heq]

end

end CollectAll

theorem Db.referenced_append (db : Db) (n : FileNode) (fileID)
    : { db with fileNodes := db.fileNodes ++ [n] }.referenced fileID
        =
      (db.referenced fileID || decide (n.fileID = some fileID)) := by
  unfold referenced
  simp

namespace Moves

variable {s : FileStore}

section

variable (hs : Consistent s)

include hs

theorem files_of_dirs (href : db.referenced fileID = s.db.referenced fileID)
    (hcontent : db.contents.get? fileID = s.db.contents.get? fileID)
    (hinode : db.inodes.get? fileID = s.db.inodes.get? fileID
      ∨ s.db.inodes.get? fileID = none ∧ db.inodes.get? fileID = some ⟨0, 1, .confirmed⟩)
    : FileNext fileID (s.view fileID) ({ s with db := db }.view fileID) := by
  unfold FileStore.view
  rw [href, hcontent]
  cases hinode with
  | inl heq =>
    rw [heq]
    exact .same _
  | inr h =>
    rw [hs.content_none h.1, h.2]
    exact .noFile fun _ => rfl

theorem of_dirsAdded (h : DirsAdded s.db db) : Moves s { s with db := db } where
  layout := h.useLegacyFiles
  keys := h.keys hs.keys
  unnamed := (h.referenced []).trans hs.unnamed
  taskIDs := hs.taskIDs
  files := fun fileID => files_of_dirs hs (h.referenced fileID) (by rw [h.contents]) (h.inodes fileID)

theorem of_nodeInserted (hdir : n.isDirectory = false) (hn : n.fileID ≠ some [])
    (h : NodeInserted n s.db db)
    : Moves s { s with db := db } := by
  obtain ⟨hfresh, hconfirmed, rfl⟩ := h
  refine ⟨rfl, hs.keys.append hfresh, ?_, hs.taskIDs, ?_⟩
  . rw [Db.referenced_append, hs.unnamed, decide_eq_false hn]
    rfl
  . intro fileID
    unfold FileStore.view
    rw [Db.referenced_append]
    by_cases hid : n.fileID = some fileID
    . rw [decide_eq_true hid, Bool.or_true]
      exact (hs.files fileID).attach (hconfirmed fileID hid (by simp [hdir])).1
    . rw [decide_eq_false hid, Bool.or_false]
      exact .same _

theorem of_create (hne : fileID ≠ []) (hf : f.status = .confirmed) (hid : n.fileID = some fileID)
    (h1 : FileInserted fileID f s.db db1) (h2 : DirsAdded db1 db2) (h3 : NodeInserted n db2 db)
    : Moves s { s with db := db } := by
  obtain ⟨_, hinode, hcontent, rfl⟩ := h1
  obtain ⟨hfresh, _, rfl⟩ := h3
  refine ⟨h2.useLegacyFiles, (h2.keys hs.keys).append hfresh, ?_, hs.taskIDs, ?_⟩
  . rw [Db.referenced_append, h2.referenced, hid, decide_eq_false (by simpa using hne),
      Bool.or_false]
    exact hs.unnamed
  . intro id
    have hdirs := h2.inodes id
    rw [get?_set] at hdirs
    have hrow : db2.contents.get? id = if id = fileID then some ⟨f.storageType, f.storageRef⟩
        else s.db.contents.get? id := by
      rw [h2.contents]
      exact get?_set _ _ _ _
    by_cases heq : id = fileID
    . subst heq
      rw [if_pos rfl] at hdirs hrow
      have hnew : db2.inodes.get? id = some ⟨f.sizeBytes, f.revision, f.status⟩ := by
        cases hdirs with
        | inl h => exact h
        | inr h => exact absurd h.1 (some_ne_none _)
      unfold FileStore.view
      rw [Db.referenced_append, decide_eq_true hid, Bool.or_true]
      rw [hcontent, hrow, hnew]
      exact .create hf
    . rw [if_neg heq] at hdirs hrow
      apply files_of_dirs hs
      . rw [Db.referenced_append, h2.referenced, hid, decide_eq_false (by simpa using Ne.symm heq),
          Bool.or_false]
        rfl
      . exact hrow
      . exact hdirs

theorem of_contentUpdated
    (h : ContentUpdated fileID expectedRevision storageType storageRef size rev s.db db)
    : Moves s { s with db := db } := by
  obtain ⟨_, hsplit, hcontent, rfl⟩ := h
  obtain ⟨i, hi, _, hconfirmed, _⟩ := hsplit (by simp [hs.layout])
  refine ⟨rfl, hs.keys, hs.unnamed, hs.taskIDs, ?_⟩
  intro id
  unfold FileStore.view
  rw [get?_modify, get?_modify]
  by_cases heq : id = fileID
  . subst heq
    rw [if_pos rfl, if_pos rfl, hi]
    obtain ⟨c, hc⟩ := isSome_iff_exists.mp hcontent
    rw [hc]
    exact .update hconfirmed rfl
  . rw [if_neg heq, if_neg heq]
    exact .same _

end

end Moves

structure NodesRemoved (orphanIDs : List ID) (db db1 : Db) : Prop where
  layout : db1.useLegacyFiles = db.useLegacyFiles
  inodes : db1.inodes = db.inodes
  contents : db1.contents = db.contents
  keys : KeysOk db1.fileNodes
  mono : ∀ fileID, db1.referenced fileID = true → db.referenced fileID = true
  orphan : ∀ fileID ∈ orphanIDs, db.referenced fileID = true ∧ ¬ db1.referenced fileID = true
    ∧ (db.contents.get? fileID).isSome
  other : ∀ fileID, fileID ∉ orphanIDs → db.referenced fileID = true
    → ¬ db1.referenced fileID = true
    → db.contents.get? fileID = none

theorem scanFileForGC_eq {db : Db} (hlayout : db.useLegacyFiles = false)
    (hinode : db.inodes.get? fileID = some inode)
    (hcontent : db.contents.get? fileID = some content)
    : db.scanFileForGC fileID = some ⟨fileID, content.storageType, content.storageRef, inode.sizeBytes⟩ := by
  unfold Db.scanFileForGC
  rw [hlayout, hinode, hcontent]
  rfl

theorem find?_scanFileForGC (db : Db) (ids : List ID) (fileID)
    : (ids.filterMap db.scanFileForGC).find? (·.fileID = fileID)
        =
      if fileID ∈ ids then db.scanFileForGC fileID else none := by
  induction ids with
  | nil => rfl
  | cons id ids ih =>
    rw [filterMap_cons]
    cases hscan : db.scanFileForGC id with
    | none =>
      rw [ih]
      by_cases heq : fileID = id
      . subst heq
        rw [if_pos mem_cons_self, hscan]
        split
        all_goals rfl
      . simp [heq]
    | some f =>
      have hf := fileID_of_scanFileForGC hscan
      rw [find?_cons, hf]
      by_cases heq : id = fileID
      . subst heq
        simp [hscan]
      . simp [heq, Ne.symm heq, ih]

theorem Moves.of_nodesRemoved (hs : Consistent s) (h : NodesRemoved orphanIDs s.db db)
    : Moves s ({ s with db := db }.collectAll orphanIDs (orphanIDs.filterMap s.db.scanFileForGC)) := by
  have hdb : ({ s with db := db }.collectAll orphanIDs (orphanIDs.filterMap s.db.scanFileForGC)).db
      = orphanIDs.foldl Db.markFileDeleted db := FileStore.db_foldl_enqueue _ _
  have hrefs : ∀ id, (orphanIDs.foldl Db.markFileDeleted db).referenced id = db.referenced id := by
    intro id
    unfold Db.referenced
    rw [fileNodes_foldl_markFileDeleted]
  have hids : ∀ t ∈ ({ s with db := orphanIDs.foldl Db.markFileDeleted db } : FileStore).fileGCTasks,
      t.taskID = t.fileID := hs.taskIDs
  refine ⟨?_, ?_, ?_, FileStore.taskIDs_foldl_enqueue hids _, ?_⟩
  . rw [hdb, Db.foldl_markFileDeleted_layout, h.layout]
  . rw [hdb, fileNodes_foldl_markFileDeleted]
    exact h.keys
  . rw [hdb, hrefs]
    by_contra hc
    have href := h.mono [] (eq_true_of_ne_false hc)
    rw [hs.unnamed] at href
    contradiction
  . intro id
    have htasks := FileStore.tasksOf_foldl_enqueue hids (orphanIDs.filterMap s.db.scanFileForGC) id
    rw [find?_scanFileForGC] at htasks
    change FileNext id (s.view id) ⟨_, _, _, FileStore.tasksOf (List.foldl _ _ _) id⟩
    rw [htasks, hdb, hrefs, Db.foldl_markFileDeleted_contents, Db.foldl_markFileDeleted_inodes,
      h.inodes, h.contents]
    change FileNext id (s.view id) ⟨_, _, _, if s.tasksOf id = [] then _ else s.tasksOf id⟩
    by_cases hmem : id ∈ orphanIDs
    . -- its last node is gone
      obtain ⟨href, href1, hcontent⟩ := h.orphan id hmem
      obtain ⟨content, hcontent⟩ := isSome_iff_exists.mp hcontent
      obtain ⟨hconfirmed, hnil⟩ := hs.of_referenced href
      obtain ⟨inode, hinode, _⟩ := map_eq_some_iff.mp hconfirmed
      unfold FileStore.view
      rw [if_pos hmem, if_pos hmem, hnil, if_pos rfl, scanFileForGC_eq hs.layout hinode hcontent,
        href, eq_false_of_ne_true href1, hinode, hcontent]
      exact .collect
    . rw [if_neg hmem, if_neg hmem]
      have htasks : (if s.tasksOf id = [] then (Option.map GCFile.task none).toList else s.tasksOf id)
          = s.tasksOf id := by
        split
        . next hnil => rw [hnil]; rfl
        . rfl
      rw [htasks]
      by_cases href : s.db.referenced id = db.referenced id
      . rw [← href]
        exact .same _
      . -- an id without content may lose its last node too
        have hlost : s.db.referenced id = true ∧ ¬ db.referenced id = true := by
          have hmono := h.mono id
          revert href hmono
          cases s.db.referenced id
          all_goals cases db.referenced id
          all_goals simp
        have hnone := h.other id hmem hlost.1 hlost.2
        unfold FileStore.view
        rw [hnone, eq_false_of_ne_true hlost.2]
        exact .noFile fun hc => by contradiction

structure NodeRemoved (fileID : Option ID) (db db1 : Db) : Prop where
  layout : db1.useLegacyFiles = db.useLegacyFiles
  inodes : db1.inodes = db.inodes
  contents : db1.contents = db.contents
  keys : KeysOk db1.fileNodes
  had : ∀ id, fileID = some id → db.referenced id = true
  mono : ∀ id, db1.referenced id = true → db.referenced id = true
  other : ∀ id, fileID ≠ some id → db.referenced id = true → db1.referenced id = true

namespace NodeRemoved

variable {fileID : Option ID} {s s' : FileStore} {db : Db} {s s' : FileStore}

theorem nodesRemoved (h : NodeRemoved fileID s.db db)
    (horphan : ∀ id ∈ orphanIDs, fileID = some id ∧ ¬ db.referenced id = true ∧ (s.db.contents.get? id).isSome)
    (hkept : ∀ id, fileID = some id → id ∉ orphanIDs → db.referenced id = true)
    : NodesRemoved orphanIDs s.db db :=
  { h with
    orphan := by
      intro id hmem
      obtain ⟨hid, href, hcontent⟩ := horphan id hmem
      exact ⟨h.had id hid, href, hcontent⟩
    other := by
      intro id hmem href href1
      by_cases hid : fileID = some id
      . exact absurd (hkept id hid hmem) href1
      . exact absurd (h.other id hid href) href1 }

theorem moves (hs : Consistent s) (h : NodeRemoved fileID s.db db)
    (hcandidate : ∀ id f, (db.inodes.get? id).isSome → candidate db id = some f → s.db.scanFileForGC id = some f)
    (hcollected : CollectedAfter fileID candidate { s with db := db } s')
    : Moves s s' := by
  cases hcollected with
  | kept hkept =>
    have hnone : NodesRemoved [] s.db db := by
      apply h.nodesRemoved
      . intro id hc
        contradiction
      . intro id hid _
        apply hkept id hid
        rintro rfl
        have hhad := h.had [] hid
        rw [hs.unnamed] at hhad
        contradiction
    exact Moves.of_nodesRemoved hs hnone
  | @collected id f hid href hf =>
    obtain ⟨hconfirmed, _⟩ := hs.of_referenced (h.had id hid)
    obtain ⟨inode, hinode, _⟩ := map_eq_some_iff.mp hconfirmed
    have hscan := hcandidate id f (by rw [h.inodes, hinode]; rfl) hf
    have heq : { s with db := db }.collect f
        = { s with db := db }.collectAll [id] ([id].filterMap s.db.scanFileForGC) := by
      rw [filterMap_cons_some hscan, ← fileID_of_scanFileForGC hscan]
      rfl
    rw [heq]
    apply Moves.of_nodesRemoved hs
    apply h.nodesRemoved
    . intro id' hmem
      rw [mem_singleton] at hmem
      subst hmem
      refine ⟨hid, href, ?_⟩
      cases hc : s.db.contents.get? id' with
      | some c => rfl
      | none =>
        unfold Db.scanFileForGC at hscan
        rw [hs.layout, hinode, hc] at hscan
        contradiction
    . intro id' hid' hmem
      rw [hid] at hid'
      rw [Option.some.inj hid', mem_singleton] at hmem
      contradiction

end NodeRemoved

theorem scanFileForGC_of_deleteCandidate {db db1 : Db}
    (hlayout : db1.useLegacyFiles = db.useLegacyFiles)
    (hsplit : db.useLegacyFiles = false) (hinodes : db1.inodes = db.inodes)
    (hcontents : db1.contents = db.contents)
    {id : ID} (hinode : (db1.inodes.get? id).isSome) (h : db1.deleteCandidateFile id = some f)
    : db.scanFileForGC id = some f := by
  unfold Db.deleteCandidateFile at h
  rw [hlayout, hsplit, hcontents, hinodes] at h
  obtain ⟨c, hc, hf⟩ := map_eq_some_iff.mp h
  rw [hinodes] at hinode
  obtain ⟨i, hi⟩ := isSome_iff_exists.mp hinode
  rw [scanFileForGC_eq hsplit hi hc, ← hf, hi]
  rfl

theorem NodeRemoved.of_deletePath (hkeys : KeysOk db.fileNodes) (hnode : db.node? path = some node)
    : NodeRemoved node.fileID db (db.deleteNodes fun n => n.path = path) := by
  obtain ⟨hmem, hpath⟩ := Db.mem_of_node? hnode
  refine ⟨rfl, rfl, rfl, hkeys.filter _, ?_, ?_, ?_⟩
  . intro id hid
    exact (db.referenced_iff id).mpr ⟨node, hmem, hid⟩
  . intro id href
    obtain ⟨n, hn, hid⟩ := (Db.referenced_iff _ id).mp href
    exact (db.referenced_iff id).mpr ⟨n, mem_of_mem_filter hn, hid⟩
  . intro id hne href
    obtain ⟨n, hn, hid⟩ := (db.referenced_iff id).mp href
    refine (Db.referenced_iff _ id).mpr ⟨n, mem_filter.mpr ⟨hn, ?_⟩, hid⟩
    have hother : n.path ≠ path := by
      intro hc
      rw [hkeys.eq_of_path hn hmem (hc.trans hpath.symm)] at hid
      exact hne hid
    simpa using hother

theorem Moves.of_deleteFileWithRefCheck (hs : Consistent s)
    (h : deleteFileWithRefCheck path s = .ok (r, s'))
    : Moves s s' := by
  obtain ⟨node, hnode, _, hcollected⟩ := Datastore.of_deleteFileWithRefCheck h
  apply (NodeRemoved.of_deletePath hs.keys hnode).moves hs _ hcollected
  intro id f hinode hf
  exact scanFileForGC_of_deleteCandidate rfl hs.layout rfl rfl hinode hf

theorem NodeUpdate.fileID_apply (u : NodeUpdate) (n : FileNode)
    : (u.apply n).fileID = n.fileID := by
  unfold apply
  split
  all_goals rfl

theorem NodeRemoved.of_replaced (hkeys : KeysOk db.fileNodes) (hpath : u.newPath = newPath)
    (hfree : ∀ m ∈ db.fileNodes.filter fun n => !(db.node? newPath).any (·.nodeID = n.nodeID),
      m.path = newPath → m.nodeID = u.nodeID)
    : NodeRemoved ((db.node? newPath).bind (·.fileID)) db
      { db with fileNodes := replacedNodes db.fileNodes (db.node? newPath) u } := by
  subst hpath
  refine ⟨rfl, rfl, rfl, hkeys.replaced hfree, ?_, ?_, ?_⟩
  . intro id hid
    obtain ⟨dst, hdst, hid⟩ := bind_eq_some_iff.mp hid
    exact (db.referenced_iff id).mpr ⟨dst, (Db.mem_of_node? hdst).1, hid⟩
  . intro id href
    obtain ⟨n', hn', hid⟩ := (Db.referenced_iff _ id).mp href
    obtain ⟨n, hn, _, rfl⟩ := mem_replacedNodes.mp hn'
    rw [NodeUpdate.fileID_apply] at hid
    exact (db.referenced_iff id).mpr ⟨n, hn, hid⟩
  . intro id hne href
    obtain ⟨n, hn, hid⟩ := (db.referenced_iff id).mp href
    refine (Db.referenced_iff _ id).mpr ⟨u.apply n, mem_replacedNodes.mpr ⟨n, hn, ?_, rfl⟩, ?_⟩
    . intro d hd hc
      apply hne
      rw [hd, bind_some, hkeys.eq_of_nodeID (Db.mem_of_node? hd).1 hn hc]
      exact hid
    . rw [NodeUpdate.fileID_apply]
      exact hid

theorem Moves.of_renameFileReplacingTarget (hs : Consistent s)
    (h : renameFileReplacingTarget oldPath newPath newParentPath newName s = .ok (r, s'))
    : Moves s s' := by
  obtain rfl | ⟨old, hrenamed⟩ := Datastore.of_renameFileReplacingTarget h
  . exact hs.refl
  . apply (NodeRemoved.of_replaced hs.keys hrenamed.path hrenamed.free).moves hs _ hrenamed.collected
    intro id f _ hf
    exact hf

theorem Moves.of_deleteDirRecursive (hs : Consistent s)
    (h : Files.deleteDirRecursive dirPath s = .ok (r, s'))
    : Moves s s' := by
  obtain ⟨orphanIDs, _, hmem, rfl⟩ := Datastore.of_deleteDirRecursive h
  suffices hremoved : NodesRemoved orphanIDs s.db (s.db.deleteNodes (inDir dirPath)) by
    exact Moves.of_nodesRemoved hs hremoved
  refine ⟨rfl, rfl, rfl, hs.keys.filter _, ?_, ?_, ?_⟩
  . intro id href
    obtain ⟨n, hn, hid⟩ := (Db.referenced_iff _ id).mp href
    exact (s.db.referenced_iff id).mpr ⟨n, mem_of_mem_filter hn, hid⟩
  . intro id horphan
    obtain ⟨⟨n, hn, _, hid⟩, hfile, href⟩ := (hmem id).mp horphan
    unfold Db.hasFile at hfile
    rw [hs.layout] at hfile
    exact ⟨(s.db.referenced_iff id).mpr ⟨n, hn, hid⟩, href, (Bool.and_eq_true_iff.mp hfile).2⟩
  . intro id hnot href href1
    -- the node that went was below the directory, so only the content can be missing
    obtain ⟨n, hn, hid⟩ := (s.db.referenced_iff id).mp href
    have hin : inDir dirPath n = true := by
      by_contra hout
      apply href1
      refine (Db.referenced_iff _ id).mpr ⟨n, mem_filter.mpr ⟨hn, ?_⟩, hid⟩
      rw [eq_false_of_ne_true hout]
      rfl
    have hfile : ¬ s.db.hasFile id = true := by
      intro hfile
      exact hnot ((hmem id).mpr ⟨⟨n, hn, hin, hid⟩, hfile, href1⟩)
    obtain ⟨inode, hinode, _⟩ := map_eq_some_iff.mp (hs.of_referenced href).1
    unfold Db.hasFile at hfile
    rw [hs.layout, hinode] at hfile
    simpa using hfile

end Datastore

namespace FileTxn

variable {dirID : Str → ID}

theorem moves (hs : Consistent s) {txn : FileTxn} (hgen : txn.generated = true)
    (h : txn.run dirID s = .ok (a, s'))
    : Moves s s' := by
  unfold run at h
  cases txn with
  | create fileID nodeID path storageType storageRef size =>
    obtain ⟨db, hdb, rfl⟩ := of_onDb h
    obtain ⟨_, db1, hinsert, hrest⟩ := of_bind hdb
    obtain ⟨_, db2, hdirs, hnode⟩ := of_bind hrest
    have hne : fileID ≠ [] := by simpa [generated] using hgen
    exact Moves.of_create hs hne rfl (by simp [fileNode, hne]) (of_insertFileTx hinsert)
      (.of_ensureParentDirsTx hdirs) (of_insertNodeTx hnode)
  | ensureParentDirs path =>
    obtain ⟨db, hdb, rfl⟩ := of_onDb h
    exact Moves.of_dirsAdded hs (.of_ensureParentDirsTx hdb)
  | copy srcFileID nodeID dstPath =>
    obtain ⟨db, hdb, rfl⟩ := of_onDb h
    apply Moves.of_nodeInserted hs _ _ (of_insertNodeTx hdb)
    . rfl
    . simp [fileNode]
  | overwrite fileID expectedRevision storageType storageRef size =>
    obtain ⟨_, s1, hdb, hpure⟩ := of_bind h
    cases hpure
    obtain ⟨db, hupdate, rfl⟩ := of_onDb hdb
    exact Moves.of_contentUpdated hs (of_updateFileContentTx hupdate)
  | deleteFile path =>
    obtain ⟨_, s1, hdelete, hpure⟩ := of_bind h
    cases hpure
    exact Moves.of_deleteFileWithRefCheck hs hdelete
  | renameFile oldPath newPath newParentPath newName =>
    obtain ⟨_, s1, hrename, hpure⟩ := of_bind h
    cases hpure
    exact Moves.of_renameFileReplacingTarget hs hrename
  | deleteDir dirPath =>
    obtain ⟨_, s1, hdelete, hpure⟩ := of_bind h
    cases hpure
    exact Moves.of_deleteDirRecursive hs hdelete

theorem step_moves (hs : Consistent s) (h : step dirID s txn = some s')
    : Moves s s' := by
  unfold step at h
  split at h
  . next hgen =>
    split at h
    . next s1 hrun =>
      cases h
      exact moves hs hgen hrun
    . cases h
      exact hs.refl
  . contradiction

theorem consistent_empty : Consistent (FileStore.empty false) := by
  refine ⟨rfl, .nil, rfl, ?_, ?_⟩
  . intro t ht
    contradiction
  . intro fileID
    exact .noFile fun hc => by contradiction

section Runs

variable (dirID : Str → ID)

/--
In the run `txns` from the empty tables, `s1` is the state before the transaction that takes away
the last node of the file.
-/
def LastNodeRemovedAt (txns : List FileTxn) (fileID : ID) (s1 : FileStore) : Prop :=
  ∃ before txn after s2, txns = before ++ txn :: after
    ∧ Lts.exec (step dirID) (.empty false) before = some s1
    ∧ step dirID s1 txn = some s2
    ∧ s1.db.referenced fileID = true
    ∧ ∀ mid rest s3, after = mid ++ rest → Lts.exec (step dirID) s2 mid = some s3
      → s3.db.referenced fileID = false

/--
The one task of the file carries what its rows said before its last node was removed.
-/
def CollectedAsItWas (txns : List FileTxn) (fileID : ID) (s : FileStore) : Prop :=
  ∃ s1 inode1 content1, LastNodeRemovedAt dirID txns fileID s1
    ∧ s1.db.inodes.get? fileID = some inode1 ∧ s1.db.contents.get? fileID = some content1
    ∧ s.tasksOf fileID = [gcTask fileID inode1 content1]

end Runs

section Runs

variable {dirID : Str → ID} {txns : List FileTxn} {txn : FileTxn} {fileID : ID} {s s' : FileStore}

theorem LastNodeRemovedAt.concat (h : LastNodeRemovedAt dirID txns fileID s1)
    (hexec : Lts.exec (step dirID) (.empty false) txns = some s)
    (hstep : step dirID s txn = some s') (href : s'.db.referenced fileID = false)
    : LastNodeRemovedAt dirID (txns ++ [txn]) fileID s1 := by
  obtain ⟨before, t, after, s2, rfl, hbefore, ht, hhad, hnever⟩ := h
  refine ⟨before, t, after ++ [txn], s2, by simp, hbefore, ht, hhad, ?_⟩
  intro mid rest s3 hsplit hmid
  rw [exec_append, hbefore, bind_some, exec_cons ht] at hexec
  -- the longer run is cut before its last transaction or not at all
  cases rest using List.reverseRecOn with
  | nil =>
    rw [append_nil] at hsplit
    rw [← hsplit] at hmid
    obtain ⟨s4, hs4, hlast⟩ := exec_concat.mp hmid
    rw [hexec] at hs4
    cases hs4
    rw [hstep] at hlast
    cases hlast
    exact href
  | append_singleton rest x =>
    rw [← append_assoc] at hsplit
    exact hnever mid rest s3 (append_inj_left' hsplit rfl) hmid

section

variable (hexec : Lts.exec (step dirID) (.empty false) txns = some s)

include hexec

theorem LastNodeRemovedAt.of_last (hstep : step dirID s txn = some s')
    (hhad : s.db.referenced fileID = true) (href : s'.db.referenced fileID = false)
    : LastNodeRemovedAt dirID (txns ++ [txn]) fileID s := by
  refine ⟨txns, txn, [], s', rfl, hexec, hstep, hhad, ?_⟩
  intro mid rest s3 hsplit hmid
  rw [(append_eq_nil_iff.mp hsplit.symm).1] at hmid
  cases hmid
  exact href

theorem consistent_run : Consistent s ∧ ∀ fileID, s.Dead fileID → CollectedAsItWas dirID txns fileID s := by
  induction txns using List.reverseRecOn generalizing s with
  | nil =>
    cases hexec
    refine ⟨consistent_empty, ?_⟩
    rintro fileID ⟨inode, content, hinode, _, _⟩
    contradiction
  | append_singleton txns txn ih =>
    obtain ⟨s0, hexec0, hstep⟩ := exec_concat.mp hexec
    obtain ⟨hs0, hcollected⟩ := ih hexec0
    have hmoves := step_moves hs0 hstep
    have hs := hs0.moves hmoves
    refine ⟨hs, ?_⟩
    intro fileID hdead
    have href := hs.not_referenced hdead
    obtain ⟨inode, content, hinode, hcontent, hdeleted⟩ := hdead
    cases (hmoves.files fileID).of_dead (hs0.files fileID) hinode hcontent hdeleted with
    | inl hsame =>
      have hdead0 : s0.Dead fileID :=
        ⟨inode, content, (congrArg FileView.inode hsame).trans hinode,
          (congrArg FileView.content hsame).trans hcontent, hdeleted⟩
      obtain ⟨s1, inode1, content1, hremoved, hinode1, hcontent1, htasks⟩ :=
        hcollected fileID hdead0
      exact ⟨s1, inode1, content1, hremoved.concat hexec0 hstep href, hinode1, hcontent1,
        (congrArg FileView.tasks hsame).symm.trans htasks⟩
    | inr h =>
      obtain ⟨inode0, content0, hhad, hinode0, hcontent0, htasks⟩ := h
      exact ⟨s0, inode0, content0, .of_last hexec0 hstep hhad href, hinode0, hcontent0, htasks⟩

end

end Runs

/--
Reference counting and garbage collection agree after every run of transactions. A file is an inode
with a content row; directories have inodes too.
-/
theorem references_and_collection_agree (dirID : Str → ID) (txns : List FileTxn) (s : FileStore)
    (hexec : Lts.exec (step dirID) (.empty false) txns = some s)
    : (∀ fileID content, s.db.contents.get? fileID = some content
        → ∃ inode, s.db.inodes.get? fileID = some inode
          ∧ (inode.status = .confirmed ↔ ∃ n ∈ s.db.fileNodes, n.fileID = some fileID)
          ∧ (inode.status = .deleted → CollectedAsItWas dirID txns fileID s))
      ∧ ∀ n ∈ s.db.fileNodes, ∀ fileID inode, n.fileID = some fileID
        → s.db.inodes.get? fileID = some inode
        → inode.status ≠ .deleted := by
  obtain ⟨hs, hcollected⟩ := consistent_run hexec
  constructor
  . intro fileID content hcontent
    obtain ⟨inode, hinode, hstatus⟩ := (hs.files fileID).status_of_content hcontent
    refine ⟨inode, hinode, ?_, fun hdeleted => hcollected fileID ⟨inode, content, hinode, hcontent, hdeleted⟩⟩
    rw [← s.db.referenced_iff fileID]
    exact hstatus
  . intro n hn fileID inode hid hinode
    obtain ⟨hconfirmed, _⟩ := hs.of_referenced ((s.db.referenced_iff fileID).mpr ⟨n, hn, hid⟩)
    rw [hinode] at hconfirmed
    have hstatus : inode.status = .confirmed := Option.some.inj hconfirmed
    rw [hstatus]
    decide

def linkedTwice : List FileTxn :=
  [.create ['f'] ['n'] ['/', 'd', '/', 'a'] .db9 ['i'] 3, .copy (some ['f']) ['m'] ['/', 'd', '/', 'b'],
    .overwrite ['f'] (-1) .s3 ['k'] 9, .renameFile ['/', 'd', '/', 'a'] ['/', 'd', '/', 'b'] ['/', 'd', '/'] ['b'],
    .deleteDir ['/', 'd', '/']]

theorem references_and_collection_agree_linked_twice
    : ∃ s, Lts.exec (step id) (.empty false) linkedTwice = some s
      ∧ s.tasksOf ['f'] = [⟨['f'], ['f'], .s3, ['k'], 9⟩]
      ∧ ∃ inode, s.db.inodes.get? ['f'] = some inode ∧ inode.status = .deleted
        ∧ CollectedAsItWas id linkedTwice ['f'] s := by
  apply exists_of_any
    (fun s => s.tasksOf ['f'] = [⟨['f'], ['f'], .s3, ['k'], 9⟩]
      ∧ s.db.inodes.get? ['f'] = some ⟨9, 2, .deleted⟩
      ∧ s.db.contents.get? ['f'] = some ⟨.s3, ['k']⟩) (by decide +kernel)
  intro s hexec ⟨htasks, hinode, hcontent⟩
  obtain ⟨inode, hinode', _, hcollected⟩ :=
    (references_and_collection_agree id linkedTwice s hexec).1 ['f'] _ hcontent
  rw [hinode] at hinode'
  cases hinode'
  exact ⟨htasks, _, hinode, rfl, hcollected rfl⟩

end FileTxn
