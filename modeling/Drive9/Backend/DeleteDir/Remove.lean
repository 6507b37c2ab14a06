import Drive9.Backend.DeleteDir.Attach

/-!
This module contains the recursive delete: what it has done when it comes to each of its statements,
that a transaction which adds a node meanwhile does not disturb it unless it commits a new file
below the directory between the first read and the removal of the nodes, and what its commit leaves.
-/

open Datastore Backend

def underDir (dirPath path : Str) : Bool := path = dirPath || Like.accepts (dirPath ++ ['%']) path

theorem Datastore.Db.mem_dirFileIDs (db : Db) (dirPath : Str) (fileID : ID)
    : fileID ∈ db.dirFileIDs dirPath
      ↔ ∃ path, (path, some fileID) ∈ db.links ∧ underDir dirPath path = true := by
  unfold Db.dirFileIDs Db.links
  rw [List.mem_dedup, List.mem_filterMap]
  constructor
  . rintro ⟨n, hn, hfile⟩
    obtain ⟨hmem, hdir⟩ := List.mem_filter.mp hn
    refine ⟨n.path, List.mem_map.mpr ⟨n, hmem, ?_⟩, hdir⟩
    rw [hfile]
  . rintro ⟨path, hlink, hdir⟩
    obtain ⟨n, hmem, heq⟩ := List.mem_map.mp hlink
    obtain ⟨rfl, hfile⟩ := Prod.mk.inj heq
    exact ⟨n, List.mem_filter.mpr ⟨hmem, hdir⟩, hfile⟩

open List hiding keys

namespace FileSnapshotTx

def Marked (tx : FileSnapshotTx) (fileID : ID) : Prop :=
  ∃ fileIDs, .markInodes fileIDs ∈ tx.writes ∧ fileID ∈ fileIDs

def Tasked (tx : FileSnapshotTx) (fileID : ID) : Prop :=
  ∃ task, .insertTask task ∈ tx.writes ∧ task.fileID = fileID

variable {tx : FileSnapshotTx} {keys : List RowKey} {w : RowWrite} {fileID : ID}

theorem Marked.write (h : tx.Marked fileID) : Marked (tx.write keys w) fileID := by
  obtain ⟨fileIDs, hmem, hid⟩ := h
  exact ⟨fileIDs, mem_append_left _ hmem, hid⟩

theorem Tasked.write (h : tx.Tasked fileID) : Tasked (tx.write keys w) fileID := by
  obtain ⟨task, hmem, hid⟩ := h
  exact ⟨task, mem_append_left _ hmem, hid⟩

end FileSnapshotTx

namespace DeleteDir

structure Reading (dirPath : Str) (s : FileStore) (tx : FileSnapshotTx) (fileIDs : List ID)
    (sn : FileStore) : Prop where
  snapshot : tx.snapshot = some sn
  writes : tx.writes = []
  fileIDs : fileIDs = sn.db.dirFileIDs dirPath
  links : sn.db.links ⊆ s.db.links
  files : ∀ fileID ∈ sn.db.dirFileIDs dirPath, sn.db.hasFile fileID = true
  covered : ∀ path fileID, (path, some fileID) ∈ s.db.links → underDir dirPath path = true →
    fileID ∈ sn.db.dirFileIDs dirPath
      ∨ ∃ path', (path', some fileID) ∈ s.db.links ∧ underDir dirPath path' = false

structure Removing (dirPath : Str) (s : FileStore) (tx : FileSnapshotTx) (sn : FileStore)
    (paths : List Str)
    : Prop where
  snapshot : tx.snapshot = some sn
  writes : ∀ w ∈ tx.writes, DeleteWrite paths w
  nodes : .deleteNodes paths ∈ tx.writes
  locks : ∀ path ∈ paths, .path path ∈ tx.locks
  links : sn.db.links ⊆ s.db.links
  files : ∀ fileID ∈ sn.db.dirFileIDs dirPath, sn.db.hasFile fileID = true
  covered : ∀ fileID, s.db.referenced fileID = true →
    (∃ path, (path, some fileID) ∈ s.db.links ∧ path ∉ paths) ∨ fileID ∈ sn.db.dirFileIDs dirPath

structure Orphaned (dirPath : Str) (sn : FileStore) (paths : List Str) (fileID : ID) : Prop where
  known : fileID ∈ sn.db.dirFileIDs dirPath
  removed : ∀ path, (path, some fileID) ∈ sn.db.links → path ∈ paths

inductive Ok (dirPath : Str) (s : FileStore) : DeleteDir → Prop where
  | idle {phase} (h : phase = .select ∨ phase = .done ∨ phase = .failed) : Ok dirPath s ⟨.start, phase⟩
  | reading {tx sn fileIDs phase}
      (h : Reading dirPath s tx fileIDs sn)
      (hphase : phase = .deleteNodes fileIDs
        ∨ ∃ rest, phase = .lockFiles fileIDs rest ∨ phase = .lockInodes fileIDs rest)
      : Ok dirPath s ⟨tx, phase⟩
  | scan {tx sn paths rest orphaned}
      (h : Removing dirPath s tx sn paths) (hwrites : tx.writes = [.deleteNodes paths])
      (horphaned : ∀ fileID, Orphaned dirPath sn paths fileID → fileID ∈ orphaned.map (·.fileID) ∨ fileID ∈ rest)
      : Ok dirPath s ⟨tx, .scan rest orphaned⟩
  | mark {tx sn paths rest orphaned phase} (h : Removing dirPath s tx sn paths)
      (hphase : phase = .markFiles rest orphaned ∨ phase = .markInodes rest orphaned)
      (horphaned : ∀ fileID, Orphaned dirPath sn paths fileID →
        fileID ∈ orphaned.map (·.fileID) ∧ (fileID ∈ rest ∨ tx.Marked fileID))
      : Ok dirPath s ⟨tx, phase⟩
  | enqueue {tx sn paths rest}
      (h : Removing dirPath s tx sn paths)
      (horphaned : ∀ fileID, Orphaned dirPath sn paths fileID →
        tx.Marked fileID ∧ (fileID ∈ rest.map (·.fileID) ∨ tx.Tasked fileID))
      : Ok dirPath s ⟨tx, .enqueue rest⟩
  | commit {tx sn paths} (h : Removing dirPath s tx sn paths)
      (horphaned : ∀ fileID, Orphaned dirPath sn paths fileID → tx.Marked fileID ∧ tx.Tasked fileID)
      : Ok dirPath s ⟨tx, .commit⟩

variable {fileIDs rest : List ID}

namespace Removing

variable {dirPath : Str} {s sn : FileStore} {tx : FileSnapshotTx} {paths : List Str}

theorem write (h : Removing dirPath s tx sn paths) (hw : DeleteWrite paths w) (keys)
    : Removing dirPath s (tx.write keys w) sn paths :=
  { h with
    writes := by
      intro w' hw'
      rcases mem_append.mp hw' with hold | hnew
      . exact h.writes w' hold
      . rw [mem_singleton.mp hnew]
        exact hw
    nodes := mem_append_left _ h.nodes
    locks := fun path hpath => mem_append_left _ (h.locks path hpath) }

theorem mem_scanOrphanedFiles (h : Removing dirPath s tx sn paths)
    (hwrites : tx.writes = [.deleteNodes paths])
    (horphan : Orphaned dirPath sn paths fileID) (hmem : fileID ∈ fileIDs)
    : fileID ∈ ((tx.read s).db.scanOrphanedFiles fileIDs).map (·.fileID) := by
  have hread : tx.read s = RowWrite.apply sn (.deleteNodes paths) := by
    unfold FileSnapshotTx.read SnapshotTx.read
    rw [hwrites, h.snapshot]
    rfl
  rw [hread]
  have hunref : (RowWrite.apply sn (.deleteNodes paths)).db.referenced fileID = false := by
    rw [Bool.eq_false_iff]
    intro href
    rw [Db.referenced_iff_links, RowWrite.links_apply] at href
    obtain ⟨path, hpath⟩ := href
    obtain ⟨hlink, hkept⟩ := mem_filter.mp hpath
    simp only [Bool.not_eq_true', any_eq_false, decide_eq_true_eq] at hkept
    exact hkept path (horphan.removed path hlink) rfl
  have hfile : (RowWrite.apply sn (.deleteNodes paths)).db.hasFile fileID = true :=
    (RowsKept.apply sn _).hasFile (h.files fileID horphan.known)
  rw [← Db.isSome_scanFileForGC] at hfile
  obtain ⟨f, hf⟩ := Option.isSome_iff_exists.mp hfile
  rw [mem_map]
  refine ⟨f, mem_filterMap.mpr ⟨fileID, ?_, hf⟩, fileID_of_scanFileForGC hf⟩
  rw [mem_filter, hunref]
  exact ⟨hmem, rfl⟩

end Removing

variable {dirPath : Str} {s : FileStore} {d : DeleteDir}

theorem reading_of_select (hs : Settled s)
    : Reading dirPath s (SnapshotTx.start.opened s) (s.db.dirFileIDs dirPath) s where
  snapshot := rfl
  writes := rfl
  fileIDs := rfl
  links := fun _ h => h
  files := by
    intro fileID hmem
    obtain ⟨path, hlink, _⟩ := (Db.mem_dirFileIDs _ _ _).mp hmem
    exact hs.files fileID ((Db.referenced_iff_links _ _).mpr ⟨path, hlink⟩)
  covered := by
    intro path fileID hlink hdir
    exact .inl ((Db.mem_dirFileIDs _ _ _).mpr ⟨path, hlink, hdir⟩)

variable {tx : FileSnapshotTx} {phase : DeletePhase}

theorem removing_of_reading (h : Reading dirPath s tx fileIDs sn)
    (hpaths : ∀ path, path ∈ paths ↔ underDir dirPath path = true ∧ ∃ file, (path, file) ∈ s.db.links)
    (hkeys : ∀ path ∈ paths, .path path ∈ keys)
    : Removing dirPath s (tx.write keys (.deleteNodes paths)) sn paths where
  snapshot := h.snapshot
  writes := by
    intro w hw
    rw [SnapshotTx.write, h.writes] at hw
    rw [mem_singleton.mp hw]
    exact .nodes
  nodes := mem_append_right _ mem_cons_self
  locks := fun path hpath => mem_append_right _ (hkeys path hpath)
  links := h.links
  files := h.files
  covered := by
    intro fileID href
    obtain ⟨path, hlink⟩ := (Db.referenced_iff_links _ _).mp href
    by_cases hpath : path ∈ paths
    . rcases h.covered path fileID hlink ((hpaths path).mp hpath).1 with hknown | ⟨path', hlink', hout⟩
      . exact .inr hknown
      . refine .inl ⟨path', hlink', ?_⟩
        intro hmem
        rw [((hpaths path').mp hmem).1] at hout
        contradiction
    . exact .inl ⟨path, hlink, hpath⟩

theorem mem_paths_iff (db : Db) (path : Str)
    : path ∈ (db.fileNodes.filter (inDir dirPath)).map (·.path)
      ↔
      underDir dirPath path = true ∧ ∃ file, (path, file) ∈ db.links := by
  rw [mem_map]
  constructor
  . rintro ⟨n, hn, rfl⟩
    obtain ⟨hmem, hdir⟩ := mem_filter.mp hn
    exact ⟨hdir, n.fileID, mem_map.mpr ⟨n, hmem, rfl⟩⟩
  . rintro ⟨hdir, file, hlink⟩
    obtain ⟨n, hmem, heq⟩ := mem_map.mp hlink
    obtain ⟨rfl, _⟩ := Prod.mk.inj heq
    exact ⟨n, mem_filter.mpr ⟨hmem, hdir⟩, rfl⟩

structure Next (dirPath : Str) (s : FileStore) (d : DeleteDir) (keys : List RowKey)
    (d' : DeleteDir) : Prop where
  ok : Ok dirPath s d'
  locks : d'.tx.locks ⊆ d.tx.locks ++ keys

theorem Ok.goto (h : Ok dirPath s (d.goto phase)) : Next dirPath s d [] (d.goto phase) :=
  ⟨h, subset_append_left _ _⟩

theorem Ok.lock (h : Ok dirPath s (d.lock keys phase).2)
    : Next dirPath s d (d.lock keys phase).1 (d.lock keys phase).2 :=
  ⟨h, fun _ h => h⟩

theorem Ok.write (h : Ok dirPath s (d.write keys w phase).2)
    : Next dirPath s d (d.write keys w phase).1 (d.write keys w phase).2 :=
  ⟨h, fun _ h => h⟩

theorem Reading.lock (h : Reading dirPath s tx fileIDs sn) (keys)
    : Reading dirPath s (tx.lock keys) fileIDs sn :=
  { h with }

section

variable {tx : FileSnapshotTx} {sn : FileStore} {phase : DeletePhase}

section

variable (h : Reading dirPath s tx fileIDs sn)

include h

theorem next_lockFilesStmt : Next dirPath s ⟨tx, phase⟩ (lockFilesStmt s ⟨tx, phase⟩ fileIDs rest).1
        (lockFilesStmt s ⟨tx, phase⟩ fileIDs rest).2 := by
  unfold lockFilesStmt
  split
  . exact Ok.goto (.reading h (.inl rfl))
  . split
    . exact Ok.lock (.reading (Reading.lock h _) (.inr ⟨rest, .inr rfl⟩))
    . exact Ok.goto (.reading h (.inr ⟨rest, .inr rfl⟩))

theorem next_deleteNodesStmt
    : Next dirPath s ⟨tx, phase⟩ (deleteNodesStmt dirPath s ⟨tx, phase⟩ fileIDs).1
        (deleteNodesStmt dirPath s ⟨tx, phase⟩ fileIDs).2 := by
  have hcurrent : tx.current s = s := by
    unfold FileSnapshotTx.current SnapshotTx.current
    rw [h.writes]
    rfl
  unfold deleteNodesStmt
  rw [hcurrent]
  apply Ok.write
  refine .scan (removing_of_reading h (mem_paths_iff s.db) ?_) ?_ ?_
  . intro path hpath
    obtain ⟨n, hn, rfl⟩ := mem_map.mp hpath
    exact mem_append_right _ (mem_map.mpr ⟨n, hn, rfl⟩)
  . rw [SnapshotTx.write, h.writes]
    rfl
  . intro fileID horphan
    rw [h.fileIDs]
    exact .inr horphan.known

end

variable {paths : List Str}

variable {orphaned : List GCFile}

section

variable (h : Removing dirPath s tx sn paths)

include h

theorem next_scanStmt (hwrites : tx.writes = [.deleteNodes paths])
    (horphaned : ∀ fileID, Orphaned dirPath sn paths fileID → fileID ∈ orphaned.map (·.fileID) ∨ fileID ∈ rest)
    : Next dirPath s ⟨tx, phase⟩ (scanStmt s ⟨tx, phase⟩ rest orphaned).1 (scanStmt s ⟨tx, phase⟩ rest orphaned).2 := by
  unfold scanStmt
  split
  . next hnil =>
    refine Ok.goto (.mark h (.inl rfl) ?_)
    intro fileID horphan
    rcases horphaned fileID horphan with hfound | hrest
    . exact ⟨hfound, .inl hfound⟩
    . rw [hnil] at hrest
      contradiction
  . have hopened : tx.opened s = tx := by
      unfold SnapshotTx.opened
      rw [h.snapshot, Option.getD_some, ← h.snapshot]
    rw [hopened]
    refine ⟨.scan h hwrites ?_, subset_append_left _ _⟩
    intro fileID horphan
    rw [map_append, mem_append]
    rcases horphaned fileID horphan with hfound | hrest
    . exact .inl (.inl hfound)
    . rw [← take_append_drop deleteFileIDBatchSize rest, mem_append] at hrest
      rcases hrest with hbatch | hlater
      . exact .inl (.inr (h.mem_scanOrphanedFiles hwrites horphan hbatch))
      . exact .inr hlater

section

variable (horphaned : ∀ fileID, Orphaned dirPath sn paths fileID
    → fileID ∈ orphaned.map (·.fileID) ∧ (fileID ∈ rest ∨ tx.Marked fileID))

include horphaned

theorem next_markFilesStmt
    : Next dirPath s ⟨tx, phase⟩ (markFilesStmt s ⟨tx, phase⟩ rest orphaned).1
        (markFilesStmt s ⟨tx, phase⟩ rest orphaned).2 := by
  unfold markFilesStmt
  split
  . next hnil =>
    refine Ok.goto (.enqueue h ?_)
    intro fileID horphan
    obtain ⟨hfound, hrest | hmarked⟩ := horphaned fileID horphan
    . rw [hnil] at hrest
      contradiction
    . exact ⟨hmarked, .inl hfound⟩
  . split
    . refine Ok.write (.mark (h.write (.files _) _) (.inr rfl) ?_)
      intro fileID horphan
      obtain ⟨hfound, hor⟩ := horphaned fileID horphan
      exact ⟨hfound, hor.imp (fun h => h) (·.write)⟩
    . exact Ok.goto (.mark h (.inr rfl) horphaned)

theorem next_markInodesStmt
    : Next dirPath s ⟨tx, phase⟩ (markInodesStmt ⟨tx, phase⟩ rest orphaned).1
        (markInodesStmt ⟨tx, phase⟩ rest orphaned).2 := by
  refine Ok.write (.mark (h.write (.inodes _) _) (.inl rfl) ?_)
  intro fileID horphan
  obtain ⟨hfound, hrest | hmarked⟩ := horphaned fileID horphan
  . refine ⟨hfound, ?_⟩
    rw [← take_append_drop deleteFileIDBatchSize rest, mem_append] at hrest
    rcases hrest with hbatch | hlater
    . exact .inr ⟨_, mem_append_right _ mem_cons_self, hbatch⟩
    . exact .inl hlater
  . exact ⟨hfound, .inr hmarked.write⟩

end

theorem next_enqueueStmt {rest : List GCFile}
    (horphaned : ∀ fileID, Orphaned dirPath sn paths fileID →
      tx.Marked fileID ∧ (fileID ∈ rest.map (·.fileID) ∨ tx.Tasked fileID))
    : Next dirPath s ⟨tx, phase⟩ (enqueueStmt ⟨tx, phase⟩ rest).1 (enqueueStmt ⟨tx, phase⟩ rest).2 := by
  unfold enqueueStmt
  split
  . refine Ok.goto (.commit h ?_)
    intro fileID horphan
    obtain ⟨hmarked, hrest | htasked⟩ := horphaned fileID horphan
    . contradiction
    . exact ⟨hmarked, htasked⟩
  . next f rest' =>
    split
    . exact ⟨.idle (.inr (.inr rfl)), nil_subset _⟩
    . refine Ok.write (.enqueue (h.write (.task rfl) _) ?_)
      intro fileID horphan
      obtain ⟨hmarked, hrest | htasked⟩ := horphaned fileID horphan
      . refine ⟨hmarked.write, ?_⟩
        rcases mem_cons.mp hrest with rfl | hlater
        . exact .inr ⟨_, mem_append_right _ mem_cons_self, rfl⟩
        . exact .inl hlater
      . exact ⟨hmarked.write, .inr htasked.write⟩

end

end

theorem Ok.statement (h : Ok dirPath s d) (hs : Settled s) (hstmt : d.statement dirPath s = some r)
    : Next dirPath s d r.1 r.2 := by
  cases h with
  | idle hphase =>
    rcases hphase with rfl | rfl | rfl
    . cases hstmt
      exact ⟨.reading (reading_of_select hs) (.inr ⟨_, .inl rfl⟩), nil_subset _⟩
    . contradiction
    . contradiction
  | reading h hphase =>
    rcases hphase with rfl | ⟨rest, rfl | rfl⟩
    . cases hstmt
      exact next_deleteNodesStmt h
    . cases hstmt
      exact next_lockFilesStmt h
    . cases hstmt
      exact Ok.lock (.reading (Reading.lock h _) (.inr ⟨_, .inl rfl⟩))
  | scan h hwrites horphaned =>
    cases hstmt
    exact next_scanStmt h hwrites horphaned
  | mark h hphase horphaned =>
    rcases hphase with rfl | rfl
    . cases hstmt
      exact next_markFilesStmt h horphaned
    . cases hstmt
      exact next_markInodesStmt h horphaned
  | enqueue h horphaned =>
    cases hstmt
    exact next_enqueueStmt h horphaned
  | commit h horphaned => contradiction

structure Apart (dirPath : Str) (s : FileStore) (d : DeleteDir) (node : FileNode) : Prop where
  reading : d.reading = true → underDir dirPath node.path = false
    ∨ ∀ fileID, node.fileID = some fileID → s.db.referenced fileID = true
  locks : .path node.path ∉ d.tx.locks

variable {s' : FileStore} {created : Option ID} {node : FileNode}

theorem Reading.attach (h : Reading dirPath s tx fileIDs sn)
    (hattached : Attached created node s s')
    (hapart : underDir dirPath node.path = false ∨ ∀ fileID, node.fileID = some fileID → s.db.referenced fileID = true)
    : Reading dirPath s' tx fileIDs sn :=
  { h with
    links := fun _ hl => hattached.links (h.links hl)
    covered := by
      have hold : ∀ path fileID, (path, some fileID) ∈ s.db.links → underDir dirPath path = true →
          fileID ∈ sn.db.dirFileIDs dirPath
            ∨ ∃ path', (path', some fileID) ∈ s'.db.links ∧ underDir dirPath path' = false := by
        intro path fileID hlink hdir
        rcases h.covered path fileID hlink hdir with hknown | ⟨path', hlink', hout⟩
        . exact .inl hknown
        . exact .inr ⟨path', hattached.links hlink', hout⟩
      intro path fileID hlink hdir
      rcases hattached.added _ hlink with hlink | hnone | hnew
      . exact hold path fileID hlink hdir
      . contradiction
      . obtain ⟨rfl, hfile⟩ := Prod.mk.inj hnew
        rcases hapart with hout | href
        . rw [hdir] at hout
          contradiction
        . -- the file of a copy has another node already
          obtain ⟨path', hlink'⟩ := (Db.referenced_iff_links _ _).mp (href fileID hfile.symm)
          cases hdir' : underDir dirPath path' with
          | false => exact .inr ⟨path', hattached.links hlink', hdir'⟩
          | true => exact hold path' fileID hlink' hdir' }

theorem Removing.attach (h : Removing dirPath s tx sn paths)
    (hattached : Attached created node s s') (hlocks : .path node.path ∉ tx.locks)
    : Removing dirPath s' tx sn paths :=
  { h with
    links := fun _ hl => hattached.links (h.links hl)
    covered := by
      intro fileID href
      obtain ⟨path, hlink⟩ := (Db.referenced_iff_links _ _).mp href
      rcases hattached.added _ hlink with hold | hnone | hnew
      . rcases h.covered fileID ((Db.referenced_iff_links _ _).mpr ⟨path, hold⟩) with ⟨path', hlink', hne⟩ | hknown
        . exact .inl ⟨path', hattached.links hlink', hne⟩
        . exact .inr hknown
      . contradiction
      . obtain ⟨rfl, _⟩ := Prod.mk.inj hnew
        exact .inl ⟨_, hlink, fun hmem => hlocks (h.locks _ hmem)⟩ }

theorem Ok.attach (h : Ok dirPath s d) (hattached : Attached created node s s')
    (hapart : Apart dirPath s d node)
    : Ok dirPath s' d := by
  cases h with
  | idle hphase => exact .idle hphase
  | reading h hphase =>
    have hreading : underDir dirPath node.path = false
        ∨ ∀ fileID, node.fileID = some fileID → s.db.referenced fileID = true := by
      apply hapart.reading
      rcases hphase with rfl | ⟨rest, rfl | rfl⟩
      all_goals rfl
    exact .reading (Reading.attach h hattached hreading) hphase
  | scan h hwrites horphaned =>
    exact .scan (Removing.attach h hattached hapart.locks) hwrites horphaned
  | mark h hphase horphaned =>
    exact .mark (Removing.attach h hattached hapart.locks) hphase horphaned
  | enqueue h horphaned => exact .enqueue (Removing.attach h hattached hapart.locks) horphaned
  | commit h horphaned => exact .commit (Removing.attach h hattached hapart.locks) horphaned

theorem Ok.of_commit (h : Ok dirPath s d) (hphase : d.phase = .commit)
    : ∃ sn paths, Removing dirPath s d.tx sn paths
      ∧ ∀ fileID, Orphaned dirPath sn paths fileID → d.tx.Marked fileID ∧ d.tx.Tasked fileID := by
  cases h with
  | idle hidle =>
    rcases hidle with rfl | rfl | rfl
    all_goals contradiction
  | reading _ hreading =>
    rcases hreading with rfl | ⟨rest, rfl | rfl⟩
    all_goals contradiction
  | scan | enqueue => contradiction
  | mark _ hmark =>
    rcases hmark with rfl | rfl
    all_goals contradiction
  | commit h horphaned => exact ⟨_, _, h, horphaned⟩

theorem Removing.has_content (h : Removing dirPath s tx sn paths) (fileID)
    : (tx.current s).has (.content fileID) = s.has (.content fileID) := by
  unfold FileStore.has
  rw [← (Shrunk.foldl h.writes s).content]
  rfl

section

variable (h : Ok dirPath s d) (hs : Settled s) (hphase : d.phase = .commit)

include h hs hphase

theorem Ok.settled_commit : Settled (d.tx.current s) := by
  obtain ⟨sn, paths, hremoving, -⟩ := h.of_commit hphase
  have hshrunk : Shrunk paths s (d.tx.current s) := Shrunk.foldl hremoving.writes s
  have hkept : RowsKept s (d.tx.current s) := RowsKept.foldl s d.tx.writes
  constructor
  . intro fileID href
    obtain ⟨path, hlink⟩ := (Db.referenced_iff_links _ _).mp href
    exact hkept.hasFile (hs.files fileID ((Db.referenced_iff_links _ _).mpr ⟨path, hshrunk.links hlink⟩))
  . intro fileID hhas
    rw [hremoving.has_content] at hhas
    exact hkept.has _ (hs.contents fileID hhas)
  . exact hshrunk.taskIDs hs.taskIDs

theorem Ok.collected_commit
    (hc : s.Collected fileID)
    : (d.tx.current s).Collected fileID := by
  obtain ⟨sn, paths, hremoving, horphaned⟩ := h.of_commit hphase
  have hshrunk : Shrunk paths s (d.tx.current s) := Shrunk.foldl hremoving.writes s
  intro inode hinode hhas hunref
  rw [hremoving.has_content] at hhas
  have hgone : ∀ path, (path, some fileID) ∈ s.db.links → path ∈ paths := by
    intro path hlink
    by_contra hne
    rw [(Db.referenced_iff_links _ _).mpr ⟨path, hshrunk.kept _ hlink hne⟩] at hunref
    contradiction
  cases href : s.db.referenced fileID with
  | false =>
    obtain ⟨inode0, hinode0, hor⟩ := hshrunk.inode fileID inode hinode
    obtain ⟨hdeleted, t, ht, hid⟩ := hc inode0 hinode0 hhas href
    refine ⟨?_, t, hshrunk.tasks ht, hid⟩
    rcases hor with rfl | hmarked
    . exact hdeleted
    . exact hmarked
  | true =>
    rcases hremoving.covered fileID href with ⟨path, hlink, hne⟩ | hknown
    . exact absurd (hgone path hlink) hne
    . obtain ⟨⟨fileIDs, hmark, hmem⟩, task, htask, hid⟩ :=
        horphaned fileID ⟨hknown, fun path hlink => hgone path (hremoving.links hlink)⟩
      refine ⟨Shrunk.deleted_of_markInodes hremoving.writes hmark hmem s hinode, ?_⟩
      rw [← hid]
      exact Shrunk.task_of_insertTask hremoving.writes htask s hs.taskIDs

end

end DeleteDir
