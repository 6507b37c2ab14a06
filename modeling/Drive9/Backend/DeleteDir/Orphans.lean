import Drive9.Backend.DeleteDir.Remove

/-!
This module contains which files a recursive delete leaves behind when files are created meanwhile.
-/

open Datastore Backend

namespace DeleteDirSystem

open List hiding keys

def createdNode (s : DeleteDirSystem) (l : DeleteDirLabel) : Option FileNode :=
  match l with
  | .attach r =>
    match s.attaches.get? r with
    | some a => if a.phase = .commit ∧ a.created.isSome then some a.node else none
    | none => none
  | _ => none

/--
No create commits a node below the directory while the delete has read the file ids and not yet
removed the nodes.
-/
def createsOutside (dirPath : Str) (s : DeleteDirSystem) (l : DeleteDirLabel) : Prop :=
  s.delete.reading = true → (s.createdNode l).all (fun node => !inDir dirPath node) = true

instance decidableCreatesOutside (dirPath : Str) (s : DeleteDirSystem) (l : DeleteDirLabel)
    : Decidable (createsOutside dirPath s l) :=
  inferInstanceAs (Decidable (_ → _))

structure Inv (dirPath : Str) (fileID : ID) (s : DeleteDirSystem) : Prop where
  settled : Settled s.store
  collected : s.store.Collected fileID
  delete : DeleteDir.Ok dirPath s.store s.delete
  attaches : ∀ r a, s.attaches.get? r = some a → a.Ok s.store
  apart : ∀ r a, s.attaches.get? r = some a → ∀ key ∈ a.tx.locks, key ∉ s.delete.tx.locks
  -- the source of a copy was a node, and before the delete commits no node is removed
  copies : s.delete.phase ≠ .done → ∀ r a, s.attaches.get? r = some a → a.created = none →
    ∀ id, a.node.fileID = some id → s.store.db.referenced id = true

variable {dirID : Str → ID} {dirPath : Str} {fileID : ID} {s s' : DeleteDirSystem}

theorem Inv.init {store : FileStore} (hs : Settled store) (hc : store.Collected fileID)
    : Inv dirPath fileID (.init store) where
  settled := hs
  collected := hc
  delete := .idle (.inl rfl)
  attaches := by
    intro r a h
    contradiction
  apart := by
    intro r a h
    contradiction
  copies := by
    intro _ r a h
    contradiction

theorem Inv.setAttach (h : Inv dirPath fileID s) (hok : a.Ok s.store)
    (hapart : ∀ key ∈ a.tx.locks, key ∉ s.delete.tx.locks)
    (hcopy : s.delete.phase ≠ .done → a.created = none → ∀ id, a.node.fileID = some id →
      s.store.db.referenced id = true)
    : Inv dirPath fileID (s.setAttach r a) :=
  { h with
    attaches := FMap.forall_set h.attaches hok
    apart := FMap.forall_set h.apart hapart
    copies := fun hphase => FMap.forall_set (h.copies hphase) (hcopy hphase) }

theorem Inv.setDelete (h : Inv dirPath fileID s) (hok : DeleteDir.Ok dirPath s.store d)
    (hapart : ∀ r a, s.attaches.get? r = some a → ∀ key ∈ a.tx.locks, key ∉ d.tx.locks)
    (hdone : s.delete.phase ≠ .done)
    : Inv dirPath fileID { s with delete := d } :=
  { h with
    delete := hok
    apart := hapart
    copies := fun _ => h.copies hdone }

theorem not_mem_of_freeOfAttaches (h : s.freeOfAttaches none keys = true)
    (hget : s.attaches.get? r = some a)
    : ∀ key ∈ keys, key ∉ a.tx.locks := by
  have hr : r ∈ s.attaches.keys := by
    rw [FMap.mem_keys, hget]
    rfl
  have hall := all_eq_true.mp h r hr
  rw [hget] at hall
  simp only [reduceCtorEq, decide_false, Bool.false_or, Option.all_some, all_eq_true,
    decide_eq_true_eq] at hall
  intro key hkey hlock
  exact hall key hkey key hlock rfl

section

variable (h : Inv dirPath fileID s)

include h

theorem Inv.stepDelete (hstep : s.stepDelete dirPath = some s') : Inv dirPath fileID s' := by
  unfold DeleteDirSystem.stepDelete at hstep
  split at hstep
  . next hcommit =>
    cases hstep
    have hkept : RowsKept s.store (s.delete.tx.current s.store) :=
      RowsKept.foldl s.store s.delete.tx.writes
    constructor
    . exact h.delete.settled_commit h.settled hcommit
    . exact h.delete.collected_commit h.settled hcommit h.collected
    . exact .idle (.inr (.inl rfl))
    . exact fun r a hget => (h.attaches r a hget).mono hkept
    . exact fun _ _ _ _ _ => not_mem_nil
    . exact fun hphase => absurd rfl hphase
  . cases hstmt : s.delete.statement dirPath s.store with
    | none =>
      rw [hstmt] at hstep
      contradiction
    | some p =>
      rw [hstmt] at hstep
      obtain ⟨hfree, rfl⟩ := Lts.of_guard hstep
      have hnext := h.delete.statement h.settled hstmt
      refine h.setDelete hnext.ok ?_ ?_
      . intro r a hget key hlock hmem
        rcases mem_append.mp (hnext.locks hmem) with hold | hnew
        . exact h.apart r a hget key hlock hold
        . exact not_mem_of_freeOfAttaches hfree hget key hnew hlock
      . intro hdone
        unfold DeleteDir.statement at hstmt
        rw [hdone] at hstmt
        contradiction

theorem Inv.commitAttach (hget : s.attaches.get? r = some a) (hcommit : a.phase = .commit)
    (hout : createsOutside dirPath s (.attach r))
    : Inv dirPath fileID { s.setAttach r { a with tx := .start, phase := .done } with
        store := a.tx.current s.store } := by
  have hok := h.attaches r a hget
  have hkept : RowsKept s.store (a.tx.current s.store) := RowsKept.foldl s.store a.tx.writes
  have hapart : DeleteDir.Apart dirPath s.store s.delete a.node := by
    constructor
    . intro hreading
      cases hcreated : a.created with
      | none =>
        right
        refine h.copies ?_ r a hget hcreated
        intro hdone
        unfold DeleteDir.reading at hreading
        rw [hdone] at hreading
        contradiction
      | some id =>
        left
        have hnode := hout hreading
        unfold createdNode at hnode
        dsimp only at hnode
        rw [hget] at hnode
        simp only [hcommit, hcreated, Option.isSome_some, and_self, if_true, Option.all_some,
          Bool.not_eq_true'] at hnode
        exact hnode
    . exact h.apart r a hget _ (hok.of_commit hcommit).2.2
  have hdone : Attach.Ok (a.tx.current s.store) { a with tx := .start, phase := .done } :=
    ⟨hok.created, fun _ hw => absurd hw not_mem_nil, trivial⟩
  constructor
  . exact h.settled.attach hok hcommit
  . exact h.collected.attach h.settled hok hcommit
  . exact h.delete.attach hok.attached hapart
  . refine FMap.forall_set ?_ hdone
    intro r' a' hold
    exact (h.attaches r' a' hold).mono hkept
  . apply FMap.forall_set h.apart
    exact fun _ hkey => absurd hkey not_mem_nil
  . intro hphase r' a' hget' hcreated id hid
    apply Db.referenced_mono hok.attached.links
    rcases FMap.of_get?_set hget' with ⟨rfl, rfl⟩ | ⟨_, hold⟩
    . exact h.copies hphase r' a hget hcreated id hid
    . exact h.copies hphase r' a' hold hcreated id hid

theorem Inv.stepAttach (hget : s.attaches.get? r = some a)
    (hout : createsOutside dirPath s (.attach r)) (hstep : s.stepAttach dirID r a = some s')
    : Inv dirPath fileID s' := by
  unfold DeleteDirSystem.stepAttach at hstep
  split at hstep
  . next hcommit =>
    cases hstep
    exact h.commitAttach hget hcommit hout
  . cases hstmt : a.statement dirID s.store with
    | none =>
      rw [hstmt] at hstep
      contradiction
    | some p =>
      rw [hstmt] at hstep
      obtain ⟨hfree, rfl⟩ := Lts.of_guard hstep
      have hnext := (h.attaches r a hget).statement hstmt
      refine h.setAttach hnext.ok ?_ ?_
      . intro key hlock
        rcases mem_append.mp (hnext.locks hlock) with hold | hnew
        . exact h.apart r a hget key hold
        . have hfree := (Bool.and_eq_true_iff.mp hfree).2
          unfold freeOfDelete at hfree
          simp only [all_eq_true, decide_eq_true_eq] at hfree
          exact fun hmem => hfree key hnew key hmem rfl
      . rw [hnext.created, hnext.node]
        exact fun hphase => h.copies hphase r a hget

theorem Inv.startCreate {id nodeID : ID} (hstep : s.startCreate r id nodeID path f = some s')
    : Inv dirPath fileID s' := by
  unfold DeleteDirSystem.startCreate at hstep
  split at hstep
  . contradiction
  . next hne =>
    cases hstep
    refine h.setAttach ⟨?_, fun _ hw => absurd hw not_mem_nil, rfl⟩
      (fun _ hkey => absurd hkey not_mem_nil) ?_
    . intro id' hid
      unfold fileNode
      rw [← hid]
      simp [hne]
    . intro _ hnone
      contradiction

theorem Inv.startCopy (hstep : s.startCopy r srcPath nodeID dstPath = some s')
    : Inv dirPath fileID s' := by
  unfold DeleteDirSystem.startCopy at hstep
  split at hstep
  . contradiction
  . next srcNode hsrc =>
    split at hstep
    . contradiction
    . cases hstep
      obtain ⟨hmem, -⟩ := Db.mem_of_node? hsrc
      have href : ∀ id, (fileNode nodeID dstPath srcNode.fileID).fileID = some id →
          s.store.db.referenced id = true := by
        intro id hid
        obtain ⟨hfile, -⟩ := Option.filter_eq_some_iff.mp hid
        exact (Db.referenced_iff _ _).mpr ⟨srcNode, hmem, hfile⟩
      have hfiled : Attach.Filed ⟨none, fileNode nodeID dstPath srcNode.fileID, .start, .lockFile⟩ s.store := by
        intro id hid
        refine ⟨h.settled.files id (href id hid), ?_⟩
        intro hnone
        contradiction
      refine h.setAttach ⟨?_, fun _ hw => absurd hw not_mem_nil, hfiled⟩
        (fun _ hkey => absurd hkey not_mem_nil) (fun _ _ => href)
      intro id hnone
      contradiction

theorem Inv.step (hout : createsOutside dirPath s l) (hstep : s.step dirID dirPath l = some s')
    : Inv dirPath fileID s' := by
  unfold DeleteDirSystem.step at hstep
  cases l with
  | delete => exact h.stepDelete hstep
  | deleteFail =>
    dsimp only at hstep
    split at hstep
    . contradiction
    . next hdone =>
      cases hstep
      exact h.setDelete (.idle (.inr (.inr rfl))) (fun _ _ _ _ _ => not_mem_nil) hdone
  | create r id nodeID path storageType storageRef size =>
    dsimp only at hstep
    split at hstep
    . contradiction
    . exact h.startCreate hstep
  | copy r srcPath nodeID dstPath =>
    dsimp only at hstep
    split at hstep
    . contradiction
    . exact h.startCopy hstep
  | attach r =>
    dsimp only at hstep
    split at hstep
    . contradiction
    . next a hget => exact h.stepAttach hget hout hstep
  | attachFail r =>
    dsimp only at hstep
    split at hstep
    . contradiction
    . next a hget =>
      split at hstep
      . contradiction
      . cases hstep
        exact h.setAttach (h.attaches r a hget).fail (fun _ hkey => absurd hkey not_mem_nil)
          (fun hphase => h.copies hphase r a hget)

end

/--
A recursive delete among any number of creates and copies leaves no file without a node that is not
deleted and known to the garbage collector, if no create commits below the directory between the two
statements.
-/
theorem recursive_delete_collects (dirID : Str → ID) (dirPath : Str) {store : FileStore}
    (hstore : Settled store) {labels : List DeleteDirLabel} {s : DeleteDirSystem}
    (hout : Lts.Along (step dirID dirPath) (createsOutside dirPath) (.init store) labels)
    (hexec : Lts.exec (step dirID dirPath) (.init store) labels = some s)
    {fileID : ID} (hbefore : store.Collected fileID) {inode : Inode}
    (hinode : s.store.db.inodes.get? fileID = some inode)
    (hcontent : (s.store.db.contents.get? fileID).isSome = true)
    (hunref : ∀ n ∈ s.store.db.fileNodes, n.fileID ≠ some fileID)
    : inode.status = .deleted ∧ ∃ task ∈ s.store.fileGCTasks, task.fileID = fileID := by
  have hinv : Inv dirPath fileID s :=
    Lts.exec_invariant (createsOutside dirPath) (Inv dirPath fileID) (fun _ _ _ h hok hstep => h.step hok hstep)
      (.init hstore hbefore) hout hexec
  refine hinv.collected inode hinode hcontent ?_
  rw [Bool.eq_false_iff]
  intro href
  obtain ⟨n, hn, hfile⟩ := (Db.referenced_iff _ _).mp href
  exact hunref n hn hfile

def createRun (r : Nat) (fileID nodeID : ID) (path : Str) (statements : Nat)
    : List DeleteDirLabel :=
  .create r fileID nodeID path .db9 ['i'] 3 :: List.replicate statements (.attach r)

def copiedWhileDeleted : List DeleteDirLabel :=
  createRun 0 ['f'] ['n'] ['/', 'd', '/', 'a'] 11 ++ createRun 1 ['g'] ['m'] ['/', 'd', '/', 'b'] 8
    ++ [.delete, .copy 2 ['/', 'd', '/', 'a'] ['k'] ['/', 'd', '/', 'c'], .attach 2, .attach 2, .attach 2, .attach 2]
    ++ List.replicate 4 .delete ++ [.attach 1] ++ List.replicate 8 .delete

theorem recursive_delete_collects_copied
    : ∃ s, Lts.exec (step id ['/', 'd', '/']) (.init (.empty false)) copiedWhileDeleted = some s
      ∧ s.delete.phase = .done
      ∧ ∃ task ∈ s.store.fileGCTasks, task.fileID = ['f'] := by
  have hout : Lts.Along (step id ['/', 'd', '/']) (createsOutside ['/', 'd', '/']) (.init (.empty false))
      copiedWhileDeleted := by
    decide +kernel
  apply Lts.exists_of_any
    (fun s => s.delete.phase = .done
      ∧ s.store.db.inodes.get? ['f'] = some ⟨3, 1, .deleted⟩
      ∧ (s.store.db.contents.get? ['f']).isSome = true
      ∧ ∀ n ∈ s.store.db.fileNodes, n.fileID ≠ some ['f']) (by decide +kernel)
  intro s hexec ⟨hphase, hinode, hcontent, hunref⟩
  exact ⟨hphase, (recursive_delete_collects id _ (.empty false) hout hexec (.empty false _) hinode hcontent hunref).2⟩

def createdWhileDeleted : List DeleteDirLabel :=
  createRun 0 ['f'] ['n'] ['/', 'd', '/', 'a'] 11 ++ [.delete]
    ++ createRun 1 ['g'] ['m'] ['/', 'd', '/', 'b'] 9 ++ List.replicate 12 .delete

theorem late_create_is_orphaned
    : ∃ s, Lts.exec (step id ['/', 'd', '/']) (.init (.empty false)) createdWhileDeleted = some s
      ∧ s.delete.phase = .done
      ∧ s.store.db.inodes.get? ['g'] = some ⟨3, 1, .confirmed⟩
      ∧ (s.store.db.contents.get? ['g']).isSome = true
      ∧ (∀ n ∈ s.store.db.fileNodes, n.fileID ≠ some ['g'])
      ∧ ∀ task ∈ s.store.fileGCTasks, task.fileID ≠ ['g'] := by
  exact Lts.exists_of_any _ (by decide +kernel) fun _ _ h => h

end DeleteDirSystem
