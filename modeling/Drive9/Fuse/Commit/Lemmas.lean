import Drive9.Fuse.Commit.Impl.Queue

/-!
This module contains what the steps of the mount do to the shadow files and to the workers.
-/

namespace ShadowStore

variable {hashPath : String → String} (s : ShadowStore)

variable {path q : String}

theorem file_writeFull (hinj : Function.Injective hashPath) (path) (file) (q)
    : (s.writeFull hashPath path file).file hashPath q
        =
      if q = path then some file else s.file hashPath q := by
  unfold writeFull ShadowStore.file
  rw [FMap.get?_set]
  simp only [hinj.eq_iff]

theorem dir_remove (path) : (s.remove hashPath path).dir = s.dir.del (hashPath path) := by
  unfold remove
  split
  . rfl
  . split <;> rfl

theorem file_remove (hinj : Function.Injective hashPath) (path q)
    : (s.remove hashPath path).file hashPath q = if q = path then none else s.file hashPath q := by
  unfold ShadowStore.file
  rw [dir_remove, FMap.get?_del]
  simp only [hinj.eq_iff]

theorem file_pinIfExists (hashPath : String → String) (path q)
    : (s.pinIfExists hashPath path).file hashPath q = s.file hashPath q := by
  unfold pinIfExists
  split
  . split <;> rfl
  . rfl

theorem file_unpin (hashPath : String → String) (gen) (q)
    : (s.unpin gen).file hashPath q = s.file hashPath q := by
  unfold unpin
  dsimp only
  split <;> rfl

end ShadowStore

namespace Phase

def held (phase : Phase) : Option (String × Staged) :=
  match phase with
  | .uploading entry _ file => some (entry.path, file)
  | .comparing entry file => some (entry.path, file)
  | .overwriting entry file => some (entry.path, file)
  | .uploaded entry file => some (entry.path, file)
  | .journaled entry file => some (entry.path, file)
  | _ => none

def cleans (phase : Phase) : Option String :=
  match phase with
  | .uploaded entry _ => some entry.path
  | .journaled entry _ => some entry.path
  | .unshadowed entry => some entry.path
  | _ => none

def recorded (phase : Phase) : Option String :=
  match phase with
  | .journaled entry _ => some entry.path
  | _ => none

theorem sent_of_cleans {phase : Phase} (h : phase.cleans = none) : phase.sent = none := by
  cases phase with
  | uploaded entry file | journaled entry file => contradiction
  | _ => rfl

end Phase

namespace Mount

variable {hashPath : String → String} (s : Mount) (w : Nat)

theorem phase_setPhase (phase) (w')
    : (s.setPhase w phase).phase w' = if w' = w then phase else s.phase w' := by
  unfold setPhase Mount.phase
  rw [FMap.get?_set]
  split <;> rfl

theorem phase_congr {s s' : Mount} (hworkers : s'.workers = s.workers) (w)
    : s'.phase w = s.phase w := by
  unfold phase
  rw [hworkers]

theorem mem_workers_of_phase {s : Mount} {w : Nat} (f : Phase → Option α) (hidle : f .idle = none)
    (h : f (s.phase w) = some a)
    : w ∈ s.workers.keys := by
  rw [FMap.mem_keys]
  unfold phase at h
  cases hw : s.workers.get? w with
  | none =>
    rw [hw, Option.getD_none, hidle] at h
    contradiction
  | some phase => rfl

theorem shadow_migrate {shadows : ShadowStore} (hinj : Function.Injective hashPath)
    (h : shadows.file hashPath path = some file)
    : (restart.migrate hashPath pending shadows).file hashPath path = some file := by
  induction pending generalizing shadows with
  | nil => exact h
  | cons e rest ih =>
    unfold restart.migrate
    split
    . exact ih h
    . next hnone =>
      apply ih
      rw [ShadowStore.file_writeFull _ hinj]
      split
      . next heq =>
        -- A shadow that is there is not written again.
        unfold ShadowStore.has at hnone
        rw [← heq, h] at hnone
        contradiction
      . exact h

section

variable (hashPath : String → String) (w : Nat)

inductive WorkerEffect : Mount → Mount → Prop where
  | moves {s : Mount} (cq : CommitQueue) (journal : List JournalEntry) {phase : Phase}
      (hfrom : (s.phase w).recorded = none) (hheld : phase.held = none) (hcleans : phase.cleans = none)
      : WorkerEffect s ({ s with cq := cq, journal := journal }.setPhase w phase)
  | creates {s s'} (path : String) (hmissing : s.shadow hashPath path = none)
      (hrest : WorkerEffect
        { s with
          shadows := s.shadows.writeFull hashPath path { data := [], stamp := s.history.stamps }
          history := { s.history with stamps := s.history.stamps + 1 } } s')
      : WorkerEffect s s'
  | reads {s path file phase} (hfrom : (s.phase w).recorded = none)
      (hfile : s.shadow hashPath path = some file) (hheld : phase.held = some (path, file))
      (hcleans : phase.cleans = none)
      : WorkerEffect s (s.setPhase w phase)
  | applied {s path file phase} (hfrom : (s.phase w).recorded = none)
      (hold : (s.phase w).held = some (path, file)) (hheld : phase.held = none) (hcleans : phase.cleans = none)
      : WorkerEffect s ((s.accept path file.data).setPhase w phase)
  | uploads {s entry file} (hfrom : (s.phase w).recorded = none)
      (hold : (s.phase w).held = some (entry.path, file))
      : WorkerEffect s
          (((s.accept entry.path file.data).settle entry.path).setPhase w (.uploaded entry file))
  | agrees {s entry file} (hold : s.phase w = .comparing entry file)
      (hremote : s.remote.get? entry.path = some file.data)
      : WorkerEffect s (((s.found entry.path file.data).settle entry.path).setPhase w (.uploaded entry file))
  | differs {s entry file} (hold : s.phase w = .comparing entry file)
      : WorkerEffect s (s.setPhase w (.overwriting entry file))
  | journals {s entry file} (hold : s.phase w = .uploaded entry file)
      : WorkerEffect s
          ({ s with
            journal := s.journal ++ [worker.journalCommit entry.path]
            history :=
              { s.history with committed := (entry.path, file.stamp) :: s.history.committed } }.setPhase w
                (.journaled entry file))
  | unshadows {s entry file} (hold : s.phase w = .journaled entry file)
      : WorkerEffect s
          ({ s with shadows := s.shadows.remove hashPath entry.path }.setPhase w (.unshadowed entry))
  | unindexes {s entry} (hold : s.phase w = .unshadowed entry)
      : WorkerEffect s
          ({ s with
            index := (s.index.remove hashPath s.dir entry.path).1
            dir := (s.index.remove hashPath s.dir entry.path).2 }.setPhase w (.leaving entry))
  | marks {s entry} (hold : s.phase w = .failed entry)
      : WorkerEffect s
          (({ s with
            index := (s.index.markConflict hashPath s.dir entry.path).1
            dir := (s.index.markConflict hashPath s.dir entry.path).2 }.settle entry.path).setPhase w
              (.marked entry))

end

namespace WorkerEffect

variable {s s' : Mount} {w : Nat}

section

variable (hfrom : (s.phase w).recorded = none)

include hfrom

theorem setPhase {phase : Phase} (hheld : phase.held = none) (hcleans : phase.cleans = none)
    : WorkerEffect hashPath w s (s.setPhase w phase) :=
  moves s.cq s.journal hfrom hheld hcleans

theorem retry (entry) (attempt) : WorkerEffect hashPath w s (worker.retry s w entry attempt) := by
  unfold worker.retry
  split
  all_goals exact setPhase hfrom rfl rfl

theorem readShadow (entry) (attempt)
    : WorkerEffect hashPath w s (worker.readShadow hashPath s w entry attempt) := by
  unfold worker.readShadow
  split
  . exact retry hfrom entry attempt
  . next file hfile => exact reads hfrom hfile rfl rfl

end

theorem of_read (h : worker.read hashPath s w = some s') : WorkerEffect hashPath w s s' := by
  unfold worker.read at h
  split at h
  . next entry attempt hphase =>
    have hfrom : (s.phase w).recorded = none := by rw [hphase]; rfl
    split at h
    . cases h
      exact retry hfrom entry attempt
    . split at h
      . cases h
        unfold worker.createMissing
        split
        . exact readShadow hfrom entry attempt
        . next hmissing =>
          apply creates entry.path
          . exact Option.not_isSome_iff_eq_none.mp hmissing
          . apply readShadow
            exact hfrom
      . cases h
        exact readShadow hfrom entry attempt
  . next entry hphase =>
    have hfrom : (s.phase w).recorded = none := by rw [hphase]; rfl
    split at h
    . cases h
      exact setPhase hfrom rfl rfl
    . split at h
      . cases h
        exact setPhase hfrom rfl rfl
      . next file hfile =>
        cases h
        exact reads hfrom hfile rfl rfl
  . contradiction

theorem of_answer {ans : Answer} (h : worker.answer s w ans = some s')
    : WorkerEffect hashPath w s s' := by
  unfold worker.answer at h
  split at h
  . next entry attempt file hphase =>
    have hfrom : (s.phase w).recorded = none := by rw [hphase]; rfl
    have hold : (s.phase w).held = some (entry.path, file) := by rw [hphase]; rfl
    split at h
    . cases h
      exact uploads hfrom hold
    . cases h
      exact setPhase hfrom rfl rfl
    . cases h
      split
      . unfold worker.retry
        split
        all_goals exact applied hfrom hold rfl rfl
      . exact retry hfrom entry attempt
  . next entry file hphase =>
    have hfrom : (s.phase w).recorded = none := by rw [hphase]; rfl
    have hold : (s.phase w).held = some (entry.path, file) := by rw [hphase]; rfl
    split at h
    . cases h
      exact uploads hfrom hold
    . cases h
      exact setPhase hfrom rfl rfl
    . cases h
      split
      . exact applied hfrom hold rfl rfl
      . exact setPhase hfrom rfl rfl
  . contradiction

theorem of_compare {reached : Bool} (h : worker.compare s w reached = some s')
    : WorkerEffect hashPath w s s' := by
  unfold worker.compare at h
  split at h
  . next entry file hphase =>
    split at h
    . next serverData hserver =>
      split at h
      . next heq =>
        cases h
        rw [heq] at hserver
        exact agrees hphase hserver
      . cases h
        exact differs hphase
    . cases h
      exact setPhase (by rw [hphase]; rfl) rfl rfl
  . contradiction

theorem of_journal {appended : Bool} (h : worker.journal s w appended = some s')
    : WorkerEffect hashPath w s s' := by
  unfold worker.journal at h
  split at h
  . next entry file hphase =>
    split at h
    . cases h
      exact journals hphase
    . cases h
      exact setPhase (by rw [hphase]; rfl) rfl rfl
  . next entry hphase =>
    cases h
    exact moves s.cq _ (by rw [hphase]; rfl) rfl rfl
  . contradiction

theorem of_markConflict {written : Bool} (h : worker.markConflict hashPath s w written = some s')
    : WorkerEffect hashPath w s s' := by
  unfold worker.markConflict at h
  split at h
  . next entry hphase =>
    split at h
    . cases h
      exact marks hphase
    . cases h
      exact setPhase (by rw [hphase]; rfl) rfl rfl
  . contradiction

theorem of_workerStep (h : s.workerStep hashPath w ws = some s')
    : WorkerEffect hashPath w s s' := by
  cases ws with
  | pick =>
    unfold workerStep worker.pick at h
    dsimp only at h
    split at h
    . next hphase _ =>
      cases h
      exact moves _ s.journal (by rw [hphase]; rfl) rfl rfl
    . contradiction
  | read => exact of_read h
  | answer ans => exact of_answer h
  | compare reached => exact of_compare h
  | journal appended => exact of_journal h
  | removeShadow =>
    unfold workerStep worker.removeShadow at h
    dsimp only at h
    split at h
    . next hphase =>
      cases h
      exact unshadows hphase
    . contradiction
  | removeIndex =>
    unfold workerStep worker.removeIndex at h
    dsimp only at h
    split at h
    . next hphase =>
      cases h
      exact unindexes hphase
    . contradiction
  | markConflict written => exact of_markConflict h
  | dequeue =>
    unfold workerStep worker.dequeue at h
    dsimp only at h
    split at h
    . next hphase =>
      cases h
      exact moves _ s.journal (by rw [hphase]; rfl) rfl rfl
    . contradiction

end WorkerEffect

end Mount
