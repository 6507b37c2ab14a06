import Drive9.Backend.DeleteDir.Lemmas

/-!
This module contains the transactions that add a file node.
-/

open Datastore Backend

structure Settled (s : FileStore) : Prop where
  files : ∀ fileID, s.db.referenced fileID = true → s.db.hasFile fileID = true
  contents : ∀ fileID, s.has (.content fileID) = true → s.has (.inode fileID) = true
  taskIDs : ∀ t ∈ s.fileGCTasks, t.taskID = t.fileID

-- A file that no node refers to is deleted and the garbage collector is told.
def Datastore.FileStore.Collected (s : FileStore) (fileID : ID) : Prop :=
  ∀ inode, s.db.inodes.get? fileID = some inode → s.has (.content fileID) = true → s.db.referenced fileID = false →
    inode.status = .deleted ∧ ∃ t ∈ s.fileGCTasks, t.fileID = fileID

theorem Settled.empty (useLegacyFiles : Bool) : Settled (.empty useLegacyFiles) where
  files := fun _ h => Bool.noConfusion h
  contents := fun _ h => Bool.noConfusion h
  taskIDs := fun _ h => absurd h List.not_mem_nil

theorem Datastore.FileStore.Collected.empty (useLegacyFiles : Bool) (fileID : ID)
    : (FileStore.empty useLegacyFiles).Collected fileID := by
  intro inode h
  contradiction

structure RowsKept (s s' : FileStore) : Prop where
  useLegacyFiles : s'.db.useLegacyFiles = s.db.useLegacyFiles
  has : ∀ key, s.has key = true → s'.has key = true

namespace RowsKept

variable {s s' : FileStore}

theorem hasFile (h : RowsKept s s') (hfile : s.db.hasFile fileID = true)
    : s'.db.hasFile fileID = true := by
  rw [FileStore.hasFile_iff] at hfile ⊢
  rw [h.useLegacyFiles]
  split at hfile
  . next hlegacy =>
    rw [if_pos hlegacy]
    exact h.has _ hfile
  . next hlegacy =>
    rw [if_neg hlegacy]
    exact ⟨h.has _ hfile.1, h.has _ hfile.2⟩

theorem apply (s) (w : RowWrite) : RowsKept s (RowWrite.apply s w) where
  useLegacyFiles := RowWrite.useLegacyFiles_apply s w
  has := fun key h => (RowWrite.has_apply s w key).mpr (.inl h)

theorem foldl (s) (ws : List RowWrite) : RowsKept s (ws.foldl RowWrite.apply s) where
  useLegacyFiles := FileSnapshotTx.useLegacyFiles_foldl s ws
  has := fun key h => (FileSnapshotTx.has_foldl s ws key).mpr (.inl h)

theorem foldl_mono (h : RowsKept s s') (ws : List RowWrite)
    : RowsKept (ws.foldl RowWrite.apply s) (ws.foldl RowWrite.apply s') where
  useLegacyFiles := by
    rw [FileSnapshotTx.useLegacyFiles_foldl, FileSnapshotTx.useLegacyFiles_foldl]
    exact h.useLegacyFiles
  has := by
    intro key hkey
    rw [FileSnapshotTx.has_foldl] at hkey ⊢
    exact hkey.imp (h.has key) (fun h => h)

end RowsKept

namespace Attach

def Filed (a : Attach) (current : FileStore) : Prop :=
  ∀ fileID, a.node.fileID = some fileID →
    current.db.hasFile fileID = true ∧ (a.created = some fileID → current.has (.inode fileID) = true)

def Knows (a : Attach) (current : FileStore) : Prop :=
  match a.phase with
  | .insertFile fileID _ => a.created = some fileID
  | .insertInode fileID _ =>
    a.created = some fileID ∧ (current.db.useLegacyFiles = true → current.has (.file fileID) = true)
  | .insertContent fileID _ =>
    a.created = some fileID ∧ (current.db.useLegacyFiles = true → current.has (.file fileID) = true)
      ∧ current.has (.inode fileID) = true
  | .done => True
  | .failed => True
  | .commit => a.Filed current ∧ .insertNode a.node ∈ a.tx.writes ∧ .path a.node.path ∈ a.tx.locks
  | _ => a.Filed current

structure Ok (s : FileStore) (a : Attach) : Prop where
  created : ∀ fileID, a.created = some fileID → a.node.fileID = some fileID
  writes : ∀ w ∈ a.tx.writes, AttachWrite a.created a.node w
  knows : a.Knows (a.tx.current s)

structure Next (s : FileStore) (a : Attach) (keys : List RowKey) (a' : Attach) : Prop where
  ok : a'.Ok s
  node : a'.node = a.node
  created : a'.created = a.created
  locks : a'.tx.locks ⊆ a.tx.locks ++ keys

variable {s s' : FileStore} {a a' : Attach}

theorem Filed.mono (h : a.Filed s) (hkept : RowsKept s s') : a.Filed s' := by
  intro fileID hfile
  obtain ⟨hhas, hinode⟩ := h fileID hfile
  exact ⟨hkept.hasFile hhas, fun hcreated => hkept.has _ (hinode hcreated)⟩

theorem Knows.mono (h : a.Knows s) (hkept : RowsKept s s') : a.Knows s' := by
  unfold Knows at h ⊢
  rw [hkept.useLegacyFiles]
  cases hphase : a.phase with
  | insertFile fileID f =>
    rw [hphase] at h
    exact h
  | insertInode fileID f =>
    rw [hphase] at h
    exact ⟨h.1, fun hlegacy => hkept.has _ (h.2 hlegacy)⟩
  | insertContent fileID f =>
    rw [hphase] at h
    exact ⟨h.1, fun hlegacy => hkept.has _ (h.2.1 hlegacy), hkept.has _ h.2.2⟩
  | done | failed => trivial
  | commit =>
    rw [hphase] at h
    exact ⟨h.1.mono hkept, h.2⟩
  | _ =>
    rw [hphase] at h
    exact Filed.mono h hkept

section

variable (h : a.Ok s)

include h

theorem Ok.mono (hkept : RowsKept s s') : a.Ok s' where
  created := h.created
  writes := h.writes
  knows := h.knows.mono (hkept.foldl_mono a.tx.writes)

theorem Ok.fail : a.fail.Ok s where
  created := h.created
  writes := by
    intro w hw
    cases hw
  knows := trivial

theorem Next.fail (keys : List RowKey) : Next s a keys a.fail where
  ok := h.fail
  node := rfl
  created := rfl
  locks := List.nil_subset _

variable {phase : AttachPhase}

theorem Next.goto (hknows : (a.goto phase).Knows (a.tx.current s))
    : Next s a [] (a.goto phase) where
  ok := ⟨h.created, h.writes, hknows⟩
  node := rfl
  created := rfl
  locks := List.subset_append_left _ _

theorem Next.lock (hknows : (a.lock keys phase).Knows (a.tx.current s))
    : Next s a keys (a.lock keys phase) where
  ok := ⟨h.created, h.writes, hknows⟩
  node := rfl
  created := rfl
  locks := fun _ h => h

theorem Next.write (hw : AttachWrite a.created a.node w)
    (hknows : (a.write keys w phase).Knows (RowWrite.apply (a.tx.current s) w))
    : Next s a keys (a.write keys w phase) where
  ok := by
    refine ⟨h.created, ?_, ?_⟩
    . intro w' hw'
      rcases List.mem_append.mp hw' with hold | hnew
      . exact h.writes w' hold
      . rw [List.mem_singleton.mp hnew]
        exact hw
    . have heq : (a.write keys w phase).tx.current s = RowWrite.apply (a.tx.current s) w :=
        SnapshotTx.current_write RowWrite.apply a.tx keys w s
      rw [heq]
      exact hknows
  node := rfl
  created := rfl
  locks := fun _ h => h

theorem Next.insert (hw : AttachWrite a.created a.node w)
    (hknows : (a.write [key] w phase).Knows (RowWrite.apply (a.tx.current s) w))
    : Next s a (a.insert free key w phase).1 (a.insert free key w phase).2 := by
  unfold Attach.insert
  split
  . exact .write h hw hknows
  . exact .fail h _

theorem Next.lockConfirmed (hknows : (a.lock [key] phase).Knows (a.tx.current s))
    : Next s a (a.lockConfirmed status key phase).1 (a.lockConfirmed status key phase).2 := by
  unfold Attach.lockConfirmed
  split
  . exact .lock h hknows
  . exact .fail h _

theorem Ok.statement {r : List RowKey × Attach} (hstmt : a.statement dirID s = some r)
    : Next s a r.1 r.2 := by
  have hknows := h.knows
  unfold Knows at hknows
  unfold Attach.statement at hstmt
  have hlegacy : (a.tx.current s).db.useLegacyFiles = s.db.useLegacyFiles :=
    FileSnapshotTx.useLegacyFiles_foldl s a.tx.writes
  cases hphase : a.phase with
  | insertFile fileID f =>
    rw [hphase] at hstmt hknows
    cases hstmt
    unfold insertFileStmt
    split
    . apply Next.insert h (.file f hknows)
      refine ⟨hknows, fun _ => ?_⟩
      exact (RowWrite.has_apply _ _ _).mpr (.inr rfl)
    . next hsplit =>
      apply Next.goto h
      refine ⟨hknows, ?_⟩
      rw [hlegacy]
      exact fun h => absurd h hsplit
  | insertInode fileID f =>
    rw [hphase] at hstmt hknows
    cases hstmt
    apply Next.insert h (.inode _ hknows.1)
    refine ⟨hknows.1, ?_, (RowWrite.has_apply _ _ _).mpr (.inr rfl)⟩
    rw [RowWrite.useLegacyFiles_apply]
    exact fun h => (RowsKept.apply _ _).has _ (hknows.2 h)
  | insertContent fileID f =>
    rw [hphase] at hstmt hknows
    cases hstmt
    apply Next.insert h (.content _ hknows.1)
    intro id hid
    rw [show id = fileID from Option.some.inj (hid.symm.trans (h.created fileID hknows.1))]
    have hinode :=
      (RowsKept.apply _ (.insertContent fileID ⟨f.storageType, f.storageRef⟩)).has _ hknows.2.2
    refine ⟨?_, fun _ => hinode⟩
    rw [FileStore.hasFile_iff]
    split
    . next h =>
      rw [RowWrite.useLegacyFiles_apply] at h
      exact (RowsKept.apply _ _).has _ (hknows.2.1 h)
    . exact ⟨hinode, (RowWrite.has_apply _ _ _).mpr (.inr rfl)⟩
  | checkDir dirs =>
    rw [hphase] at hstmt hknows
    cases hstmt
    unfold checkDirStmt
    split
    . exact .goto h hknows
    . -- a plain read leaves the transaction with a snapshot and nothing else
      have hopened : ∀ phase : AttachPhase, (∀ a : Attach, (a.goto phase).Knows = a.Filed) →
          Next s a [] (({ a with tx := a.tx.opened s } : Attach).goto phase) := by
        intro phase hphase
        refine ⟨⟨h.created, h.writes, ?_⟩, rfl, rfl, List.subset_append_left _ _⟩
        rw [hphase]
        exact hknows
      split
      . exact hopened _ fun _ => rfl
      . split
        all_goals exact hopened _ fun _ => rfl
  | dirInode dirPath found dirs =>
    rw [hphase] at hstmt hknows
    cases hstmt
    exact .write h (.dirInode _) (Filed.mono hknows (RowsKept.apply _ _))
  | dirNode dirPath found dirs =>
    rw [hphase] at hstmt hknows
    cases hstmt
    unfold dirNodeStmt
    dsimp only
    split
    . exact .write h (.fill _ _) (Filed.mono hknows (RowsKept.apply _ _))
    . split
      . exact .lock h hknows
      . exact .write h (.dirNode rfl) (Filed.mono hknows (RowsKept.apply _ _))
  | lockFile =>
    rw [hphase] at hstmt hknows
    cases hstmt
    unfold lockFileStmt
    split
    . exact .goto h hknows
    . split
      . exact .lockConfirmed h hknows
      . exact .goto h hknows
  | lockInode =>
    rw [hphase] at hstmt hknows
    cases hstmt
    unfold lockInodeStmt
    split
    . exact .goto h hknows
    . exact .lockConfirmed h hknows
  | insertNode =>
    rw [hphase] at hstmt hknows
    cases hstmt
    unfold insertNodeStmt
    split
    . exact .fail h _
    . refine .write h .node ⟨Filed.mono hknows (RowsKept.apply _ _), ?_, ?_⟩
      . exact List.mem_append_right _ List.mem_cons_self
      . exact List.mem_append_right _ (List.mem_cons_of_mem _ List.mem_cons_self)
  | commit | done | failed =>
    rw [hphase] at hstmt
    contradiction

end

end Attach

section

variable {s : FileStore} {a : Attach}

theorem Attach.Ok.of_commit (h : a.Ok s) (hphase : a.phase = .commit)
    : a.Filed (a.tx.current s) ∧ .insertNode a.node ∈ a.tx.writes
      ∧ .path a.node.path ∈ a.tx.locks := by
  have hknows := h.knows
  unfold Attach.Knows at hknows
  rw [hphase] at hknows
  exact hknows

theorem Attach.Ok.attached (h : a.Ok s) : Attached a.created a.node s (a.tx.current s) :=
  Attached.foldl h.writes s

theorem Attach.Ok.content_of_current (h : a.Ok s)
    (hhas : (a.tx.current s).has (.content fileID) = true) (hne : a.created ≠ some fileID)
    : s.has (.content fileID) = true := by
  unfold FileStore.has at hhas ⊢
  dsimp only at hhas ⊢
  rw [← h.attached.content fileID hne]
  exact hhas

theorem Settled.attach (hs : Settled s) (h : a.Ok s) (hphase : a.phase = .commit)
    : Settled (a.tx.current s) := by
  obtain ⟨hfiled, -, -⟩ := h.of_commit hphase
  have hkept : RowsKept s (a.tx.current s) := RowsKept.foldl s a.tx.writes
  constructor
  . intro fileID href
    obtain ⟨path, hpath⟩ := (Db.referenced_iff_links _ _).mp href
    rcases h.attached.added _ hpath with hold | hnone | hnew
    . exact hkept.hasFile (hs.files fileID ((Db.referenced_iff_links _ _).mpr ⟨path, hold⟩))
    . contradiction
    . exact (hfiled fileID (congrArg Prod.snd hnew).symm).1
  . intro fileID hhas
    by_cases hcreated : a.created = some fileID
    . exact (hfiled fileID (h.created fileID hcreated)).2 hcreated
    . exact hkept.has _ (hs.contents fileID (h.content_of_current hhas hcreated))
  . rw [h.attached.tasks]
    exact hs.taskIDs

theorem Datastore.FileStore.Collected.attach (hc : s.Collected fileID) (hs : Settled s) (h : a.Ok s)
    (hphase : a.phase = .commit)
    : (a.tx.current s).Collected fileID := by
  intro inode hinode hhas hunref
  have hlink : (a.node.path, a.node.fileID) ∈ (a.tx.current s).db.links :=
    Attached.mem_links_foldl h.writes (h.of_commit hphase).2.1 s
  have hne : a.created ≠ some fileID := by
    intro hcreated
    rw [h.created fileID hcreated] at hlink
    rw [(Db.referenced_iff_links _ _).mpr ⟨_, hlink⟩] at hunref
    contradiction
  have hold := h.content_of_current hhas hne
  rw [h.attached.inode fileID hne (hs.contents fileID hold)] at hinode
  have hunref' : s.db.referenced fileID = false := by
    rw [Bool.eq_false_iff]
    intro href
    rw [Db.referenced_mono h.attached.links href] at hunref
    contradiction
  rw [h.attached.tasks]
  exact hc inode hinode hold hunref'

end
