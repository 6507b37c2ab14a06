import Drive9.Fuse.Commit.Lemmas

/-!
This module contains what the recovery of a mount does with the local directories, one lemma for
each of its loops.
-/

variable {hashPath : String → String}

-- Every `.meta` file has the name of the path that it records.
def PendingDir.Named (hashPath : String → String) (dir : PendingDir) : Prop :=
  ∀ k md, dir.metas.get? k = some md → hashPath md.path = k

def PendingIndex.Named (idx : PendingIndex) : Prop :=
  ∀ p md, idx.items.get? p = some md → md.path = p

variable {p path : String} {md : WriteBackMeta}

open List FMap

namespace PendingDir.Named

variable {dir : PendingDir}

theorem set (h : dir.Named hashPath) (hmd : md.path = path) (dats)
    : PendingDir.Named hashPath { metas := dir.metas.set (hashPath path) md, dats := dats } := by
  apply forall_set h
  rw [hmd]

theorem del (h : dir.Named hashPath) (name) (dats)
    : PendingDir.Named hashPath { metas := dir.metas.del name, dats := dats } := by
  intro k md hget
  exact h k md (of_get?_del hget).2

end PendingDir.Named

namespace PendingIndex

variable {idx : PendingIndex} {dir : PendingDir}

theorem Named.set (h : idx.Named) (hmd : md.path = p) (gen)
    : Named { items := idx.items.set p md, nextGen := gen } :=
  forall_set h hmd

section

variable (hidx : idx.Named) (hdir : dir.Named hashPath)

include hidx hdir

theorem named_putInternal (path) (size) (kind) (baseRev) (shadowSpill)
    : (idx.putInternal hashPath dir path size kind baseRev shadowSpill).1.Named
        ∧ (idx.putInternal hashPath dir path size kind baseRev shadowSpill).2.Named hashPath := by
  constructor
  . apply hidx.set
    rfl
  . apply hdir.set
    rfl

theorem named_remove (path)
    : (idx.remove hashPath dir path).1.Named ∧ (idx.remove hashPath dir path).2.Named hashPath := by
  unfold PendingIndex.remove
  refine ⟨?_, hdir.del (hashPath path) dir.dats⟩
  intro q md hget
  exact hidx q md (of_get?_del hget).2

theorem named_markConflict (path)
    : (idx.markConflict hashPath dir path).1.Named
      ∧ (idx.markConflict hashPath dir path).2.Named hashPath := by
  unfold markConflict
  split
  . exact ⟨hidx, hdir⟩
  . next md hget =>
    constructor
    . apply hidx.set
      exact hidx path md hget
    . apply hdir.set
      exact hidx path md hget

end

theorem metas_markConflict (idx : PendingIndex) (dir : PendingDir) (h : k ≠ hashPath path)
    : (idx.markConflict hashPath dir path).2.metas.get? k = dir.metas.get? k := by
  unfold markConflict
  split
  . rfl
  . exact get?_set_ne _ _ h

theorem dats_markConflict (idx : PendingIndex) (dir : PendingDir) (path)
    : (idx.markConflict hashPath dir path).2.dats = dir.dats := by
  unfold markConflict
  split <;> rfl

theorem named_recoverFromDisk (dir) : (recoverFromDisk dir).Named := by
  intro p md hget
  cases mem_of_get?_setAll _ _ hget with
  | inl hempty => contradiction
  | inr hmem =>
    rw [mem_map] at hmem
    obtain ⟨md', _, heq⟩ := hmem
    cases heq
    rfl

end PendingIndex

namespace WriteBackCache

structure Scanned (hashPath : String → String) (dir0 : PendingDir) (c : WriteBackCache)
    (dir : PendingDir)
    : Prop where
  metas : ∀ k md, dir.metas.get? k = some md → dir0.metas.get? k = some md
  dats : ∀ k file, dir.dats.get? k = some file → dir0.dats.get? k = some file
  cache : ∀ p md, c.metas.get? p = some md → md.path = p ∧ dir0.metas.get? (hashPath p) = some md

variable {dir0 dir : PendingDir} {c : WriteBackCache}

section

variable (h : Scanned hashPath dir0 c dir)

include h

theorem Scanned.named (hnamed : dir0.Named hashPath) : dir.Named hashPath :=
  fun k md hget => hnamed k md (h.metas k md hget)

theorem Scanned.scan (names)
    : Scanned hashPath dir0 (new.scan hashPath names c dir).1 (new.scan hashPath names c dir).2 := by
  induction names generalizing c dir with
  | nil => exact h
  | cons name names ih =>
    rw [new.scan]
    split
    . exact ih h
    . next md hget =>
      split
      . next hvalid =>
        apply ih
        refine { h with cache := ?_ }
        apply forall_set h.cache
        unfold validateScannedMeta at hvalid
        rw [Bool.and_eq_true, decide_eq_true_iff, decide_eq_true_iff] at hvalid
        rw [← hvalid.2]
        exact ⟨rfl, h.metas name md hget⟩
      . apply ih
        refine { h with metas := ?_, dats := ?_ }
        . intro k md' hmd
          exact h.metas k md' (of_get?_del hmd).2
        . intro k file
          rw [get?_del]
          split
          . intro hnone
            contradiction
          . exact h.dats k file

theorem Scanned.pruneEntry (path)
    : Scanned hashPath dir0 (c.pruneEntry hashPath dir path false).1
        (c.pruneEntry hashPath dir path false).2 := by
  unfold WriteBackCache.pruneEntry
  constructor
  . intro k md
    rw [get?_del]
    split
    . intro hnone
      contradiction
    . exact h.metas k md
  . exact h.dats
  . intro p md
    rw [get?_del]
    split
    . intro hnone
      contradiction
    . exact h.cache p md

theorem Scanned.collect (paths)
    : Scanned hashPath dir0 (listPending.collect hashPath paths c dir).2.1
        (listPending.collect hashPath paths c dir).2.2
        ∧ ∀ md file, (md, file) ∈ (listPending.collect hashPath paths c dir).1 →
            dir0.metas.get? (hashPath md.path) = some md ∧ dir0.dats.get? (hashPath md.path) = some file := by
  induction paths generalizing c dir with
  | nil => exact ⟨h, fun _ _ hmem => absurd hmem not_mem_nil⟩
  | cons path paths ih =>
    rw [listPending.collect]
    split
    . exact ih h
    . next md hget =>
      split
      . exact ih h
      . split
        . exact ih (h.pruneEntry path)
        . next data hdata =>
          refine ⟨(ih h).1, ?_⟩
          intro md' file hmem
          cases mem_cons.mp hmem with
          | inl heq =>
            cases heq
            obtain ⟨hpath, hmeta⟩ := h.cache path md hget
            rw [hpath]
            exact ⟨hmeta, h.dats _ _ hdata⟩
          | inr hrest => exact (ih h).2 md' file hrest

end

theorem Scanned.new : Scanned hashPath dir (new hashPath dir).1 (new hashPath dir).2 := by
  apply Scanned.scan
  refine ⟨fun _ _ h => h, fun _ _ h => h, ?_⟩
  intro p md hget
  contradiction

end WriteBackCache

variable {file : Staged} {e : CommitEntry}

namespace Mount.restart

variable {entries : List JournalEntry}

theorem replay_spec (entries) {dir : PendingDir} (hidx : idx.Named) (hdir : dir.Named hashPath)
    : (replay hashPath entries idx dir).1.Named
        ∧ (replay hashPath entries idx dir).2.Named hashPath
        ∧ ∀ p md, idx.items.get? p = some md → (replay hashPath entries idx dir).1.items.get? p = some md := by
  induction entries generalizing idx dir with
  | nil => exact ⟨hidx, hdir, fun _ _ h => h⟩
  | cons e es ih =>
    rw [replay]
    split
    . next hcond =>
      generalize (if e.baseRev = 0 then PendingKind.new else .overwrite) = kind
      have hput := PendingIndex.named_putInternal hidx hdir e.path e.length kind e.baseRev false
      obtain ⟨h1, h2, h3⟩ := ih hput.1 hput.2
      refine ⟨h1, h2, ?_⟩
      intro p md hget
      apply h3
      unfold PendingIndex.putInternal
      rw [get?_set_ne]
      . exact hget
      . intro heq
        rw [← heq, hget] at hcond
        exact absurd hcond.2.2 (by simp)
    . exact ih hidx hdir

theorem dats_replay (entries) (idx) (dir)
    : (replay hashPath entries idx dir).2.dats = dir.dats := by
  induction entries generalizing idx dir with
  | nil => rfl
  | cons e es ih =>
    rw [replay]
    split
    . exact ih _ _
    . exact ih _ _

theorem metas_replay (hinj : Function.Injective hashPath) (entries) (idx) (dir)
    (hopen : ∀ e, e ∈ entries → e.path = p → e.op = .commit ∨ e.op = .unlink)
    : (replay hashPath entries idx dir).2.metas.get? (hashPath p)
      = dir.metas.get? (hashPath p) := by
  induction entries generalizing idx dir with
  | nil => rfl
  | cons e es ih =>
    have hes := fun e' he' => hopen e' (mem_cons_of_mem _ he')
    rw [replay]
    split
    . next hcond =>
      generalize (if e.baseRev = 0 then PendingKind.new else .overwrite) = kind
      refine (ih _ _ hes).trans ?_
      apply get?_set_ne
      intro heq
      cases hopen e mem_cons_self (hinj heq.symm) with
      | inl hcommit => exact hcond.1 hcommit
      | inr hunlink => exact hcond.2.1 hunlink
    . exact ih _ _ hes

theorem file_migrate (hinj : Function.Injective hashPath) (pending) {shadows : ShadowStore}
    (h : (migrate hashPath pending shadows).file hashPath p = some file)
    : shadows.file hashPath p = some file ∨ ∃ md, (md, file) ∈ pending ∧ md.path = p := by
  induction pending generalizing shadows with
  | nil => exact .inl h
  | cons e rest ih =>
    rcases e with ⟨md, data⟩
    rw [migrate] at h
    split at h
    . rcases ih h with hfile | ⟨md', hmem, hpath⟩
      . exact .inl hfile
      . exact .inr ⟨md', mem_cons_of_mem _ hmem, hpath⟩
    . rcases ih h with hfile | ⟨md', hmem, hpath⟩
      . rw [ShadowStore.file_writeFull _ hinj] at hfile
        split at hfile
        . next heq =>
          right
          cases hfile
          exact ⟨md, mem_cons_self, heq.symm⟩
        . exact .inl hfile
      . exact .inr ⟨md', mem_cons_of_mem _ hmem, hpath⟩

section recoverPending

variable {cq cq' : CommitQueue} {idx : PendingIndex} {dir : PendingDir} {shadows : ShadowStore}

theorem queue_enqueue (h : cq.enqueue path baseRev size kind spill = some cq')
    : cq'.queue = cq.queue ++ [{ id := cq.nextId, path, baseRev, size, kind, shadowSpill := spill }]
        ∧ cq'.maxPending = cq.maxPending := by
  unfold CommitQueue.enqueue at h
  split at h
  . contradiction
  . cases h
    exact ⟨rfl, rfl⟩

section

variable (paths : List String)

theorem named_recoverPending (hidx : idx.Named) (hdir : dir.Named hashPath)
    : (recoverPending hashPath paths shadows cq idx dir).2.1.Named
        ∧ (recoverPending hashPath paths shadows cq idx dir).2.2.Named hashPath := by
  induction paths generalizing cq idx dir with
  | nil => exact ⟨hidx, hdir⟩
  | cons path paths ih =>
    rw [recoverPending]
    split
    . exact ih hidx hdir
    . split
      . have hremove := PendingIndex.named_remove hidx hdir path
        exact ih hremove.1 hremove.2
      . split
        . exact ih hidx hdir
        . split
          . exact ih hidx hdir
          . split
            all_goals exact ih hidx hdir

theorem dats_recoverPending
    : (recoverPending hashPath paths shadows cq idx dir).2.2.dats = dir.dats := by
  induction paths generalizing cq idx dir with
  | nil => rfl
  | cons path paths ih =>
    rw [recoverPending]
    split
    . exact ih
    . split
      . exact ih
      . split
        . exact ih
        . split
          . exact ih
          . split
            . exact ih
            . exact ih

theorem mem_recoverPending (h : e ∈ (recoverPending hashPath paths shadows cq idx dir).1.queue)
    : e ∈ cq.queue ∨ shadows.has hashPath e.path := by
  induction paths generalizing cq idx dir with
  | nil => exact .inl h
  | cons path paths ih =>
    rw [recoverPending] at h
    split at h
    . exact ih h
    . split at h
      . exact ih h
      . next hhas =>
        split at h
        . exact ih h
        . split at h
          . exact ih h
          . split at h
            . exact ih h
            . next henq =>
              rcases ih h with hmem | hshadow
              . rw [(queue_enqueue henq).1, mem_append, mem_singleton] at hmem
                rcases hmem with hold | hnew
                . exact .inl hold
                . right
                  rw [hnew]
                  exact not_not.mp hhas
              . exact .inr hshadow

end

end recoverPending

end Mount.restart

namespace Mount

variable (s : Mount)

theorem named_restart (h : s.dir.Named hashPath)
    : (s.restart hashPath).index.Named ∧ (s.restart hashPath).dir.Named hashPath := by
  obtain ⟨hidx, hdir, _⟩ :=
    restart.replay_spec s.journal (PendingIndex.named_recoverFromDisk s.dir) h
  apply restart.named_recoverPending
  . exact hidx
  . exact (WriteBackCache.Scanned.new.collect _).1.named hdir

theorem shadow_of_mem_queue_restart (h : e ∈ (s.restart hashPath).cq.queue)
    : ((s.restart hashPath).shadow hashPath e.path).isSome := by
  cases restart.mem_recoverPending _ h with
  | inl hnil => exact absurd hnil not_mem_nil
  | inr hhas => exact hhas

theorem shadow_restart (hinj : Function.Injective hashPath)
    (h : (s.restart hashPath).shadow hashPath p = some file)
    : s.shadow hashPath p = some file
        ∨ s.dir.dats.get? (hashPath p) = some file
          ∧ ¬ (s.dir.metas.get? (hashPath p) = none
              ∧ ∀ e, e ∈ s.journal → e.path = p → e.op = .commit ∨ e.op = .unlink) := by
  cases restart.file_migrate hinj _ h with
  | inl hold => exact .inl hold
  | inr hmigrated =>
    obtain ⟨md, hmem, hpath⟩ := hmigrated
    obtain ⟨hmeta, hdat⟩ := (WriteBackCache.Scanned.new.collect _).2 md file hmem
    rw [hpath] at hmeta hdat
    right
    rw [restart.dats_replay] at hdat
    refine ⟨hdat, ?_⟩
    rintro ⟨hnone, hclosed⟩
    rw [restart.metas_replay hinj _ _ _ hclosed, hnone] at hmeta
    contradiction

theorem dats_restart (h : (s.restart hashPath).dir.dats.get? k = some file)
    : s.dir.dats.get? k = some file := by
  unfold restart at h
  rw [restart.dats_recoverPending] at h
  have hscanned := (WriteBackCache.Scanned.new.collect _).1.dats k file h
  rw [restart.dats_replay] at hscanned
  exact hscanned

end Mount
