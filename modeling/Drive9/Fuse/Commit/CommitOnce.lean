import Drive9.Fuse.Commit.Recovery

/-!
This module contains what the commit record in the journal is worth.
-/

namespace Mount

variable {hashPath : String → String} {s s' : Mount}

structure Recorded (hashPath : String → String) (s : Mount) : Prop where
  -- A shadow with committed content is about to be removed.
  shadow : ∀ p f, s.shadow hashPath p = some f → (p, f.stamp) ∈ s.history.committed →
    ∃ w, (s.phase w).recorded = some p
  -- Stamps are given out in order.
  committed_lt : ∀ p t, (p, t) ∈ s.history.committed → t < s.history.stamps
  shadow_lt : ∀ p f, s.shadow hashPath p = some f → f.stamp < s.history.stamps
  dats_lt : ∀ k f, s.dir.dats.get? k = some f → f.stamp < s.history.stamps
  held_lt : ∀ w p g, (s.phase w).held = some (p, g) → g.stamp < s.history.stamps

-- Nothing on the disk but a data file calls the path pending.
def Closed (hashPath : String → String) (s : Mount) (p : String) : Prop :=
  (s.dir.metas.get? (hashPath p)).isNone ∧ ∀ e, e ∈ s.journal → e.path = p → e.op = .commit ∨ e.op = .unlink

/--
The crash does not come while a worker is between its commit record and the removal of the shadow,
nor while a write-back data file with committed content is pending.
-/
def CrashOk (hashPath : String → String) (s : Mount) (label : Label) : Prop :=
  match label with
  | .restart =>
    (∀ w, w ∈ s.workers.keys → (s.phase w).recorded = none) ∧
      ∀ x, x ∈ s.history.committed →
        (s.dir.dats.get? (hashPath x.1)).map Staged.stamp = some x.2 → Closed hashPath s x.1
  | _ => True

instance (s : Mount) (p : String) : Decidable (Closed hashPath s p) :=
  inferInstanceAs (Decidable (_ ∧ _))

instance (s : Mount) (label : Label) : Decidable (CrashOk hashPath s label) := by
  unfold CrashOk
  split <;> infer_instance

section

variable (h : Recorded hashPath s)

include h

theorem Recorded.congr (hshadow : ∀ p, s'.shadow hashPath p = s.shadow hashPath p)
    (hdats : s'.dir.dats = s.dir.dats) (hcommitted : s'.history.committed = s.history.committed)
    (hstamps : s'.history.stamps = s.history.stamps) (hworkers : s'.workers = s.workers)
    : Recorded hashPath s' := by
  have hphase := phase_congr hworkers
  constructor
  . intro p f
    simp only [hshadow, hcommitted, hphase]
    exact h.shadow p f
  . rw [hcommitted, hstamps]
    exact h.committed_lt
  . intro p f
    rw [hshadow, hstamps]
    exact h.shadow_lt p f
  . rw [hdats, hstamps]
    exact h.dats_lt
  . intro w p g
    rw [hphase, hstamps]
    exact h.held_lt w p g

variable {phase : Phase} {path : String} {file : Staged}

theorem Recorded.setPhase (hfrom : (s.phase w).recorded = none)
    (hheld : ∀ p g, phase.held = some (p, g) → g.stamp < s.history.stamps)
    : Recorded hashPath (s.setPhase w phase) := by
  refine { h with shadow := ?_, held_lt := ?_ }
  . intro p f hf hcommitted
    obtain ⟨w', hw'⟩ := h.shadow p f hf hcommitted
    refine ⟨w', ?_⟩
    rw [phase_setPhase, if_neg]
    . exact hw'
    . intro heq
      rw [heq, hfrom] at hw'
      contradiction
  . intro w' p g hw'
    rw [phase_setPhase] at hw'
    split at hw'
    . exact hheld p g hw'
    . exact h.held_lt w' p g hw'

theorem Recorded.setPhase_of_held (hfrom : (s.phase w).recorded = none) (hheld : phase.held = none)
    : Recorded hashPath (s.setPhase w phase) := by
  apply h.setPhase hfrom
  intro p g hp
  rw [hheld] at hp
  contradiction

theorem Recorded.write (hinj : Function.Injective hashPath) (path) (data) (latest) (accepted)
    : Recorded hashPath
        { s with
          shadows := s.shadows.writeFull hashPath path { data := data, stamp := s.history.stamps }
          history := { s.history with stamps := s.history.stamps + 1, latest, accepted } } := by
  have hfile : ∀ p f, (s.shadows.writeFull hashPath path { data := data, stamp := s.history.stamps }).file
      hashPath p = some f → f.stamp = s.history.stamps ∨ s.shadow hashPath p = some f := by
    intro p f hf
    rw [ShadowStore.file_writeFull _ hinj] at hf
    split at hf
    . left
      rw [← Option.some.inj hf]
    . exact .inr hf
  constructor
  . intro p f hf hcommitted
    rcases hfile p f hf with hnew | hold
    . have hlt := h.committed_lt p f.stamp hcommitted
      omega
    . exact h.shadow p f hold hcommitted
  . intro p t ht
    exact Nat.lt_succ_of_lt (h.committed_lt p t ht)
  . intro p f hf
    rcases hfile p f hf with hnew | hold
    . exact Nat.lt_succ_of_le (Nat.le_of_eq hnew)
    . exact Nat.lt_succ_of_lt (h.shadow_lt p f hold)
  . intro k f hf
    exact Nat.lt_succ_of_lt (h.dats_lt k f hf)
  . intro w p g hw
    exact Nat.lt_succ_of_lt (h.held_lt w p g hw)

theorem Recorded.record (hold : s.phase w = .uploaded entry file) (journal)
    : Recorded hashPath
        ({ s with
          journal := journal
          history := { s.history with committed := (entry.path, file.stamp) :: s.history.committed } }.setPhase
            w (.journaled entry file)) := by
  have hlt : file.stamp < s.history.stamps := h.held_lt w entry.path file (by rw [hold]; rfl)
  refine { h with shadow := ?_, committed_lt := ?_, held_lt := ?_ }
  . intro p f hf hcommitted
    cases List.mem_cons.mp hcommitted with
    | inl hnew =>
      refine ⟨w, ?_⟩
      rw [phase_setPhase, if_pos rfl, (Prod.mk.inj hnew).1]
      rfl
    | inr hmem =>
      obtain ⟨w', hw'⟩ := h.shadow p f hf hmem
      refine ⟨w', ?_⟩
      rw [phase_setPhase, if_neg]
      . exact hw'
      . intro heq
        rw [heq, hold] at hw'
        contradiction
  . intro p t ht
    cases List.mem_cons.mp ht with
    | inl hnew =>
      rw [(Prod.mk.inj hnew).2]
      exact hlt
    | inr hmem => exact h.committed_lt p t hmem
  . intro w' p g hw'
    rw [phase_setPhase] at hw'
    split at hw'
    . cases hw'
      exact hlt
    . exact h.held_lt w' p g hw'

theorem Recorded.unshadow (hinj : Function.Injective hashPath)
    (hold : s.phase w = .journaled entry file)
    : Recorded hashPath
        ({ s with shadows := s.shadows.remove hashPath entry.path }.setPhase w (.unshadowed entry)) := by
  have hfile : ∀ p f, (s.shadows.remove hashPath entry.path).file hashPath p = some f →
      p ≠ entry.path ∧ s.shadow hashPath p = some f := by
    intro p f hf
    rw [ShadowStore.file_remove _ hinj] at hf
    split at hf
    . contradiction
    . next hne => exact ⟨hne, hf⟩
  refine { h with shadow := ?_, shadow_lt := ?_, held_lt := ?_ }
  . intro p f hf hcommitted
    obtain ⟨hne, hf⟩ := hfile p f hf
    obtain ⟨w', hw'⟩ := h.shadow p f hf hcommitted
    refine ⟨w', ?_⟩
    rw [phase_setPhase, if_neg]
    . exact hw'
    . intro heq
      rw [heq, hold] at hw'
      exact hne (Option.some.inj hw').symm
  . intro p f hf
    exact h.shadow_lt p f (hfile p f hf).2
  . intro w' p g hw'
    rw [phase_setPhase] at hw'
    split at hw'
    . contradiction
    . exact h.held_lt w' p g hw'

theorem Recorded.worker (hinj : Function.Injective hashPath) {w : Nat}
    (heffect : WorkerEffect hashPath w s s')
    : Recorded hashPath s' := by
  induction heffect with
  | moves cq journal hfrom hheld hcleans | applied hfrom hold hheld hcleans =>
    apply Recorded.setPhase_of_held
    . exact h.congr (fun _ => rfl) rfl rfl rfl rfl
    . exact hfrom
    . exact hheld
  | creates path hmissing _ ih => exact ih (h.write hinj path _ _ _)
  | reads hfrom hfile hheld hcleans =>
    apply h.setPhase hfrom
    intro p g hp
    rw [hheld] at hp
    cases hp
    exact h.shadow_lt _ _ hfile
  | uploads hfrom hold =>
    apply Recorded.setPhase
    . exact h.congr (fun _ => rfl) rfl rfl rfl rfl
    . exact hfrom
    . intro p g hp
      cases hp
      exact h.held_lt w _ _ hold
  | agrees hold hremote =>
    apply Recorded.setPhase
    . exact h.congr (fun _ => rfl) rfl rfl rfl rfl
    . exact congrArg Phase.recorded hold
    . intro p g hp
      cases hp
      exact h.held_lt w _ _ (congrArg Phase.held hold)
  | differs hold =>
    apply h.setPhase
    . exact congrArg Phase.recorded hold
    . intro p g hp
      cases hp
      exact h.held_lt w _ _ (congrArg Phase.held hold)
  | journals hold => exact h.record hold _
  | unshadows hold => exact h.unshadow hinj hold
  | unindexes hold =>
    apply Recorded.setPhase_of_held
    . exact h.congr (fun _ => rfl) rfl rfl rfl rfl
    . exact congrArg Phase.recorded hold
    . rfl
  | marks hold =>
    apply Recorded.setPhase_of_held
    . exact Recorded.congr h (fun _ => rfl) (PendingIndex.dats_markConflict _ _ _) rfl rfl rfl
    . exact congrArg Phase.recorded hold
    . rfl

theorem Recorded.snapshot (hstep : s.snapshot hashPath path file size kind baseRev = some s')
    : Recorded hashPath s' := by
  unfold Mount.snapshot at hstep
  split at hstep
  . next hlt =>
    have hdats : ∀ k f, (s.dir.dats.set (hashPath path) file).get? k = some f
        → f.stamp < s.history.stamps :=
      FMap.forall_set h.dats_lt hlt
    cases hstep
    split
    all_goals exact { h with dats_lt := hdats }
  . contradiction

theorem Recorded.dropSnapshot (path) : Recorded hashPath (s.dropSnapshot hashPath path) := by
  have hdats : ∀ k f, (s.dir.dats.del (hashPath path)).get? k = some f
      → f.stamp < s.history.stamps := by
    intro k f hf
    exact h.dats_lt k f (FMap.of_get?_del hf).2
  exact { h with dats_lt := hdats }

section

variable (hinj : Function.Injective hashPath)

include hinj

theorem shadow_restart_not_committed (hok : CrashOk hashPath s .restart)
    (hf : (s.restart hashPath).shadow hashPath p = some f)
    : (p, f.stamp) ∉ s.history.committed := by
  intro hcommitted
  obtain ⟨hworkers, hdats⟩ := hok
  rcases s.shadow_restart hinj hf with hold | ⟨hdat, hpending⟩
  . obtain ⟨w, hw⟩ := h.shadow p f hold hcommitted
    rw [hworkers w (mem_workers_of_phase Phase.recorded rfl hw)] at hw
    contradiction
  . obtain ⟨hmeta, hclosed⟩ := hdats (p, f.stamp) hcommitted (by rw [hdat]; rfl)
    exact hpending ⟨Option.isNone_iff_eq_none.mp hmeta, hclosed⟩

theorem Recorded.restart (hok : CrashOk hashPath s .restart)
    : Recorded hashPath (s.restart hashPath) := by
  constructor
  . intro p f hf hcommitted
    exact absurd hcommitted (shadow_restart_not_committed h hinj hok hf)
  . exact h.committed_lt
  . intro p f hf
    rcases s.shadow_restart hinj hf with hold | ⟨hdat, _⟩
    . exact h.shadow_lt p f hold
    . exact h.dats_lt _ f hdat
  . intro k f hf
    exact h.dats_lt k f (s.dats_restart hf)
  . intro w p g hw
    contradiction

theorem Recorded.step (hok : CrashOk hashPath s label)
    (hstep : s.step hashPath label = some s')
    : Recorded hashPath s' := by
  cases label with
  | stageShadow path data =>
    cases hstep
    exact h.write hinj path data _ _
  | stageIndex path size kind baseRev spill =>
    cases hstep
    unfold Mount.stageIndex
    dsimp only
    split
    all_goals exact h.congr (fun _ => rfl) rfl rfl rfl rfl
  | snapshot path file size kind baseRev => exact h.snapshot hstep
  | dropSnapshot path =>
    cases hstep
    exact h.dropSnapshot path
  | journalFsync path baseRev | remoteWrite path data | remoteRemove path =>
    cases hstep
    exact h.congr (fun _ => rfl) rfl rfl rfl rfl
  | enqueue path baseRev size kind spill =>
    unfold Mount.step at hstep
    dsimp only at hstep
    split at hstep
    . cases hstep
      exact h
    . cases hstep
      exact h.congr (fun _ => rfl) rfl rfl rfl rfl
  | pin path =>
    cases hstep
    exact h.congr (fun p => s.shadows.file_pinIfExists hashPath path p) rfl rfl rfl rfl
  | unpin gen =>
    cases hstep
    exact h.congr (fun p => s.shadows.file_unpin hashPath gen p) rfl rfl rfl rfl
  | worker w ws => exact h.worker hinj (WorkerEffect.of_workerStep hstep)
  | restart =>
    cases hstep
    exact h.restart hinj hok

end

end

theorem recorded_empty (maxPending) : Recorded hashPath (.empty maxPending) := by
  constructor
  . intro p f hf
    contradiction
  . intro p t ht
    exact absurd ht List.not_mem_nil
  . intro p f hf
    contradiction
  . intro k f hf
    contradiction
  . intro w p g hw
    contradiction

theorem recovery_enqueues_uncommitted (hinj : Function.Injective hashPath) (maxPending : Nat)
    {labels : List Label}
    (hok : Lts.Along (step hashPath) (CrashOk hashPath) (.empty maxPending) (labels ++ [.restart]))
    (hexec : Lts.exec (step hashPath) (.empty maxPending) (labels ++ [.restart]) = some s')
    {e : CommitEntry} (he : e ∈ s'.cq.queue)
    : ∃ f, s'.shadow hashPath e.path = some f ∧ (e.path, f.stamp) ∉ s'.history.committed := by
  rw [Lts.exec_append, Option.bind_eq_some_iff] at hexec
  obtain ⟨s, hrun, hcrash⟩ := hexec
  obtain ⟨hbefore, hlast⟩ := Lts.along_append hok hrun
  have hrecorded : Recorded hashPath s :=
    Lts.exec_invariant (CrashOk hashPath) (Recorded hashPath) (fun _ _ _ h hok hs => h.step hinj hok hs)
      (recorded_empty maxPending) hbefore hrun
  cases hcrash
  have hshadow := s.shadow_of_mem_queue_restart he
  rw [Option.isSome_iff_exists] at hshadow
  obtain ⟨f, hf⟩ := hshadow
  exact ⟨f, hf, shadow_restart_not_committed hrecorded hinj hlast.1 hf⟩

def halfCleanedRun : List Label :=
  [.stageShadow "/p" [1], .stageIndex "/p" 1 .new 0 true, .enqueue "/p" 0 1 .new true,
   .stageShadow "/q" [2], .stageIndex "/q" 1 .new 0 true,
   .worker 0 .pick, .worker 0 .read, .worker 0 (.answer .ok), .worker 0 (.journal true),
   .worker 0 .removeShadow]

theorem recovery_enqueues_uncommitted_half_cleaned
    : ∃ s', Lts.exec (step id) (.empty 100) (halfCleanedRun ++ [.restart]) = some s'
        ∧ s'.history.committed = [("/p", 0)]
        ∧ ∃ e, e ∈ s'.cq.queue ∧ e.path = "/q"
          ∧ ∃ f, s'.shadow id e.path = some f ∧ (e.path, f.stamp) ∉ s'.history.committed := by
  have hok : Lts.Along (step id) (CrashOk id) (.empty 100) (halfCleanedRun ++ [.restart]) := by decide
  refine ⟨_, rfl, rfl, _, List.mem_cons_self, rfl, ?_⟩
  exact recovery_enqueues_uncommitted Function.injective_id 100 hok rfl List.mem_cons_self

def recordedUploadRun : List Label :=
  [.stageShadow "/p" [1], .stageIndex "/p" 1 .new 0 true, .enqueue "/p" 0 1 .new true,
   .worker 0 .pick, .worker 0 .read, .worker 0 (.answer .ok), .worker 0 (.journal true), .restart]

theorem committed_entry_enqueued_again
    : ∃ s', Lts.exec (step id) (.empty 100) recordedUploadRun = some s'
        ∧ worker.journalCommit "/p" ∈ s'.journal
        ∧ s'.history.committed = [("/p", 0)]
        ∧ s'.shadow id "/p" = some { data := [1], stamp := 0 }
        ∧ s'.cq.queue.map CommitEntry.path = ["/p"] :=
  ⟨_, rfl, List.mem_cons_self, rfl, rfl, rfl⟩

end Mount
