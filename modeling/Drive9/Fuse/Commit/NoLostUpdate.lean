import Drive9.Fuse.Commit.Lemmas

/-!
This module contains the safety of the commit pipeline.
-/

namespace Mount

variable {hashPath : String → String} {s s' : Mount}

structure Kept (hashPath : String → String) (s : Mount) : Prop where
  latest : ∀ p f, s.history.latest.get? p = some f →
    s.shadow hashPath p = some f ∨ (p, f.data) ∈ s.history.accepted
  held : ∀ w p g, (s.phase w).held = some (p, g) → ∀ f, s.history.latest.get? p = some f →
    f.data = g.data ∨ (p, f.data) ∈ s.history.accepted
  sent : ∀ w x, (s.phase w).sent = some x → x ∈ s.history.accepted

def readsOther (s : Mount) (path : String) (data : Bytes) (w : Nat) : Bool :=
  match (s.phase w).held with
  | some (p, g) => p = path && g.data ≠ data
  | none => false

def StageOk (s : Mount) (label : Label) : Prop :=
  match label with
  | .stageShadow path data => ∀ w, w ∈ s.workers.keys → ¬ s.readsOther path data w
  | _ => True

instance (s : Mount) (label : Label) : Decidable (StageOk s label) := by
  unfold StageOk
  split <;> infer_instance

theorem Kept.of_idle (hidle : ∀ w, s.phase w = .idle)
    (hlatest : ∀ p f, s.history.latest.get? p = some f →
      s.shadow hashPath p = some f ∨ (p, f.data) ∈ s.history.accepted)
    : Kept hashPath s := by
  refine ⟨hlatest, ?_, ?_⟩
  . intro w p g hw
    rw [hidle] at hw
    contradiction
  . intro w x hw
    rw [hidle] at hw
    contradiction

section

variable (h : Kept hashPath s)

include h

theorem Kept.congr (hfile : ∀ p, s'.shadow hashPath p = s.shadow hashPath p)
    (hlatest : s'.history.latest = s.history.latest)
    (haccepted : s'.history.accepted = s.history.accepted) (hworkers : s'.workers = s.workers)
    : Kept hashPath s' := by
  have hphase := phase_congr hworkers
  constructor
  . intro p f
    rw [hlatest, haccepted, hfile]
    exact h.latest p f
  . intro w p g
    rw [hphase, hlatest, haccepted]
    exact h.held w p g
  . intro w x
    rw [hphase, haccepted]
    exact h.sent w x

variable {w : Nat} {phase : Phase} {p : String}

theorem Kept.setPhase (w)
    (hheld : ∀ p g, phase.held = some (p, g) → ∀ f, s.history.latest.get? p = some f →
      f.data = g.data ∨ (p, f.data) ∈ s.history.accepted)
    (hsent : ∀ x, phase.sent = some x → x ∈ s.history.accepted)
    : Kept hashPath (s.setPhase w phase) := by
  constructor
  . exact h.latest
  . intro w' p g hw'
    rw [phase_setPhase] at hw'
    split at hw'
    . exact hheld p g hw'
    . exact h.held w' p g hw'
  . intro w' x hw'
    rw [phase_setPhase] at hw'
    split at hw'
    . exact hsent x hw'
    . exact h.sent w' x hw'

theorem Kept.uploaded (hnew : Kept hashPath s') (hold : (s.phase w).held = some (entry.path, file))
    (hlatest : s'.history.latest = s.history.latest)
    (haccepted : s'.history.accepted = (entry.path, file.data) :: s.history.accepted)
    : Kept hashPath (s'.setPhase w (.uploaded entry file)) := by
  apply hnew.setPhase
  . intro p g hp f hf
    cases hp
    rw [hlatest] at hf
    rw [haccepted]
    exact (h.held w entry.path file hold f hf).imp_right (List.mem_cons_of_mem _)
  . intro x hx
    cases hx
    rw [haccepted]
    exact List.mem_cons_self

theorem Kept.setPhase_of_held (w) (hheld : phase.held = none) (hsent : phase.sent = none)
    : Kept hashPath (s.setPhase w phase) := by
  apply h.setPhase
  . intro p g hp
    rw [hheld] at hp
    contradiction
  . intro x hx
    rw [hsent] at hx
    contradiction

theorem Kept.found (p) (d : Bytes) : Kept hashPath (s.found p d) := by
  constructor
  . intro q f hf
    exact (h.latest q f hf).imp_right (List.mem_cons_of_mem _)
  . intro w q g hw f hf
    exact (h.held w q g hw f hf).imp_right (List.mem_cons_of_mem _)
  . intro w x hw
    exact List.mem_cons_of_mem _ (h.sent w x hw)

theorem Kept.accept (p) (d : Bytes) : Kept hashPath (s.accept p d) :=
  (h.found p d).congr (fun _ => rfl) rfl rfl rfl

theorem Kept.settle (p) : Kept hashPath (s.settle p) :=
  h.congr (fun _ => rfl) rfl rfl rfl

end

theorem Kept.create (hinj : Function.Injective hashPath) (h : Kept hashPath s) (file : Staged)
    (stamps : Nat) (hmissing : s.shadow hashPath path = none)
    : Kept hashPath
        { s with
          shadows := s.shadows.writeFull hashPath path file
          history := { s.history with stamps := stamps } } := by
  refine { latest := ?_, held := h.held, sent := h.sent }
  intro p f hf
  change (s.shadows.writeFull hashPath path file).file hashPath p = some f ∨ _
  rw [ShadowStore.file_writeFull _ hinj]
  rcases h.latest p f hf with hshadow | hacc
  . left
    split
    . next heq =>
      rw [heq, hmissing] at hshadow
      contradiction
    . exact hshadow
  . exact .inr hacc

theorem Kept.of_read (h : Kept hashPath s) (hread : s.shadow hashPath p = some g)
    (hf : s.history.latest.get? p = some f)
    : f.data = g.data ∨ (p, f.data) ∈ s.history.accepted := by
  rcases h.latest p f hf with hshadow | hacc
  . left
    rw [hread] at hshadow
    rw [Option.some.inj hshadow]
  . exact .inr hacc

section

variable (hinj : Function.Injective hashPath)

include hinj

section

variable (h : Kept hashPath s)

include h

theorem Kept.unshadow (hheld : (s.phase w).held = some (path, file))
    (hsent : (s.phase w).sent = some (path, file.data))
    : Kept hashPath { s with shadows := s.shadows.remove hashPath path } := by
  refine { latest := ?_, held := h.held, sent := h.sent }
  intro p f hf
  change (s.shadows.remove hashPath path).file hashPath p = some f ∨ _
  rw [ShadowStore.file_remove _ hinj]
  split
  . next heq =>
    right
    subst heq
    rcases h.held w p file hheld f hf with hdata | hacc
    . rw [hdata]
      exact h.sent w _ hsent
    . exact hacc
  . exact h.latest p f hf

theorem Kept.worker {w : Nat} (heffect : WorkerEffect hashPath w s s') : Kept hashPath s' := by
  induction heffect with
  | moves cq journal hfrom hheld hcleans =>
    apply Kept.setPhase_of_held _ w hheld (Phase.sent_of_cleans hcleans)
    exact h.congr (fun _ => rfl) rfl rfl rfl
  | creates path hmissing _ ih => exact ih (h.create hinj _ _ hmissing)
  | reads hfrom hfile hheld hcleans =>
    apply h.setPhase
    . intro p g hp f hf
      rw [hheld] at hp
      cases hp
      exact h.of_read hfile hf
    . intro x hx
      rw [Phase.sent_of_cleans hcleans] at hx
      contradiction
  | applied hfrom hold hheld hcleans =>
    exact (h.accept _ _).setPhase_of_held w hheld (Phase.sent_of_cleans hcleans)
  | uploads hfrom hold => exact h.uploaded ((h.accept _ _).settle _) hold rfl rfl
  | agrees hold hremote =>
    exact h.uploaded ((h.found _ _).settle _) (by rw [hold]; rfl) rfl rfl
  | @differs s entry file hold =>
    apply h.setPhase
    . intro p g hp f hf
      cases hp
      exact h.held w entry.path file (by rw [hold]; rfl) f hf
    . intro x hx
      contradiction
  | @journals s entry file hold =>
    apply Kept.setPhase
    . exact h.congr (fun _ => rfl) rfl rfl rfl
    . intro p g hp f hf
      cases hp
      exact h.held w entry.path file (by rw [hold]; rfl) f hf
    . intro x hx
      cases hx
      exact h.sent w _ (by rw [hold]; rfl)
  | unshadows hold =>
    apply Kept.setPhase_of_held _ w rfl rfl
    exact h.unshadow hinj (by rw [hold]; rfl) (by rw [hold]; rfl)
  | unindexes hold =>
    apply Kept.setPhase_of_held _ w rfl rfl
    exact h.congr (fun _ => rfl) rfl rfl rfl
  | marks hold =>
    apply Kept.setPhase_of_held _ w rfl rfl
    apply Kept.settle
    exact h.congr (fun _ => rfl) rfl rfl rfl

theorem Kept.stageShadow (hok : StageOk s (.stageShadow path data))
    : Kept hashPath (s.stageShadow hashPath path data) := by
  have hother : ∀ p d, p ≠ path → (p, d) ∈ s.history.accepted
      → (p, d) ∈ (s.stageShadow hashPath path data).history.accepted :=
    fun p d hne hmem => List.mem_filter.mpr ⟨hmem, decide_eq_true (.inl hne)⟩
  constructor
  . intro p f
    change (s.history.latest.set path _).get? p = some f →
      (s.shadows.writeFull hashPath path _).file hashPath p = some f ∨ _
    rw [FMap.get?_set, ShadowStore.file_writeFull _ hinj]
    split
    . exact .inl
    . next hne => exact fun hf => (h.latest p f hf).imp_right (hother p _ hne)
  . intro w p g hw f
    change (s.history.latest.set path _).get? p = some f → _
    rw [FMap.get?_set]
    split
    . next heq =>
      -- Whoever is going to remove the new shadow has read the same content.
      intro hf
      left
      have hheld : (s.phase w).held = some (p, g) := hw
      have hsame := hok w (mem_workers_of_phase Phase.held rfl hheld)
      unfold readsOther at hsame
      rw [hheld] at hsame
      cases hf
      by_contra hne
      exact hsame (by simp [heq, Ne.symm hne])
    . next hne => exact fun hf => (h.held w p g hw f hf).imp_right (hother p _ hne)
  . intro w x hw
    have hsent : (s.phase w).sent = some x := hw
    have hmem := mem_workers_of_phase Phase.sent rfl hsent
    exact List.mem_filter.mpr ⟨h.sent w x hsent, decide_eq_true (.inr ⟨w, hmem, hsent⟩)⟩

theorem Kept.restart : Kept hashPath (s.restart hashPath) := by
  apply Kept.of_idle (fun _ => rfl)
  intro p f hf
  rcases h.latest p f hf with hshadow | hacc
  . exact .inl (shadow_migrate hinj hshadow)
  . exact .inr hacc

theorem Kept.step (hok : StageOk s label) (hstep : s.step hashPath label = some s')
    : Kept hashPath s' := by
  cases label with
  | stageShadow path data =>
    cases hstep
    exact h.stageShadow hinj hok
  | stageIndex path size kind baseRev spill =>
    cases hstep
    unfold Mount.stageIndex
    dsimp only
    split
    all_goals exact h.congr (fun _ => rfl) rfl rfl rfl
  | snapshot path file size kind baseRev =>
    unfold Mount.step Mount.snapshot at hstep
    obtain ⟨_, rfl⟩ := Lts.of_guard hstep
    split
    all_goals exact h.congr (fun _ => rfl) rfl rfl rfl
  | dropSnapshot path | journalFsync path baseRev | remoteWrite path data | remoteRemove path =>
    cases hstep
    exact h.congr (fun _ => rfl) rfl rfl rfl
  | enqueue path baseRev size kind spill =>
    unfold Mount.step at hstep
    dsimp only at hstep
    split at hstep
    . cases hstep
      exact h
    . cases hstep
      exact h.congr (fun _ => rfl) rfl rfl rfl
  | pin path =>
    cases hstep
    exact h.congr (fun p => s.shadows.file_pinIfExists hashPath path p) rfl rfl rfl
  | unpin gen =>
    cases hstep
    exact h.congr (fun p => s.shadows.file_unpin hashPath gen p) rfl rfl rfl
  | worker w ws => exact h.worker hinj (WorkerEffect.of_workerStep hstep)
  | restart =>
    cases hstep
    exact h.restart hinj

end

end

def Fresh (s : Mount) : Prop := s.workers = .empty ∧ s.history.latest = .empty

theorem Kept.of_fresh (h : Fresh s) : Kept hashPath s := by
  obtain ⟨hworkers, hlatest⟩ := h
  apply Kept.of_idle
  . intro w
    unfold phase
    rw [hworkers]
    rfl
  . intro p f hf
    rw [hlatest] at hf
    contradiction

theorem runs_lose_no_update (hinj : Function.Injective hashPath) (hfresh : Fresh s)
    {labels : List Label}
    (hok : Lts.Along (step hashPath) StageOk s labels)
    (hexec : Lts.exec (step hashPath) s labels = some s')
    {p : String} {f : Staged} (hlatest : s'.history.latest.get? p = some f)
    : s'.shadow hashPath p = some f ∨ (p, f.data) ∈ s'.history.accepted := by
  have hkept : Kept hashPath s' :=
    Lts.exec_invariant StageOk (Kept hashPath) (fun _ _ _ h hok hs => h.step hinj hok hs)
      (Kept.of_fresh hfresh) hok hexec
  exact hkept.latest p f hlatest

theorem fresh_empty (maxPending : Nat) : Fresh (.empty maxPending) := ⟨rfl, rfl⟩

def restagedRun : List Label :=
  [.stageShadow "/p" [1], .stageIndex "/p" 1 .new 0 false, .enqueue "/p" 0 1 .new false,
   .worker 0 .pick, .worker 0 .read, .stageShadow "/p" [1], .worker 0 (.answer .ok),
   .worker 0 (.journal true), .worker 0 .removeShadow, .stageShadow "/p" [2]]

theorem runs_lose_no_update_restaged
    : ∃ s', Lts.exec (step id) (.empty 100) restagedRun = some s'
        ∧ s'.history.latest.get? "/p" = some { data := [2], stamp := 2 }
        ∧ (s'.shadow id "/p" = some { data := [2], stamp := 2 } ∨ ("/p", [2]) ∈ s'.history.accepted) := by
  have hok : Lts.Along (step id) StageOk (.empty 100) restagedRun := by decide
  refine ⟨_, rfl, rfl, ?_⟩
  exact runs_lose_no_update Function.injective_id (fresh_empty 100) hok rfl rfl

def staleCleanupRun : List Label :=
  [.stageShadow "/p" [1], .stageIndex "/p" 1 .new 0 false, .enqueue "/p" 0 1 .new false,
   .worker 0 .pick, .worker 0 .read, .stageShadow "/p" [2], .stageIndex "/p" 1 .new 0 false,
   .worker 0 (.answer .ok), .worker 0 (.journal true), .worker 0 .removeShadow, .worker 0 .removeIndex]

theorem restaged_content_lost
    : ∃ s', Lts.exec (step id) (.empty 100) staleCleanupRun = some s'
        ∧ s'.history.latest.get? "/p" = some { data := [2], stamp := 1 }
        ∧ s'.shadow id "/p" = none
        ∧ s'.index.items.get? "/p" = none
        ∧ s'.dir.metas.get? "/p" = none
        ∧ s'.history.accepted = [("/p", [1])] :=
  ⟨_, rfl, rfl, rfl, rfl, rfl, rfl⟩

end Mount
