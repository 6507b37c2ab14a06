import Drive9.Fuse.Commit.Recovery

/-!
This module contains the crash durability of released files.
-/

namespace Mount

open FMap

variable {hashPath : String → String} {p : String} {s s' : Mount}

structure Durable (hashPath : String → String) (p : String) (s : Mount) : Prop where
  dir : s.dir.Named hashPath
  index : s.index.Named
  recorded : ∀ md, s.history.pending.get? p = some md → s.dir.metas.get? (hashPath p) = some md
  shadow : (s.history.pending.get? p).isSome → (s.shadow hashPath p).isSome
  workers : (s.history.pending.get? p).isSome → ∀ w, (s.phase w).cleans ≠ some p

/--
The handle puts the path into the pending index when its shadow is there and no older commit of it
is cleaning up, and nobody removes the write-back files of the path while it is pending.
-/
def DurableOk (hashPath : String → String) (p : String) (s : Mount) (label : Label) : Prop :=
  match label with
  | .stageIndex path _ _ _ _ =>
    path = p → (s.shadow hashPath p).isSome ∧ ∀ w, w ∈ s.workers.keys → (s.phase w).cleans ≠ some p
  | .dropSnapshot path => path = p → (s.history.pending.get? p).isNone
  | _ => True

instance (s : Mount) (label : Label) : Decidable (DurableOk hashPath p s label) := by
  unfold DurableOk
  split <;> infer_instance

section

variable (h : Durable hashPath p s)

include h

theorem Durable.congr (hdir : s'.dir = s.dir) (hindex : s'.index = s.index)
    (hpending : s'.history.pending = s.history.pending)
    (hshadow : (s.shadow hashPath p).isSome → (s'.shadow hashPath p).isSome)
    (hworkers : s'.workers = s.workers)
    : Durable hashPath p s' := by
  constructor
  . rw [hdir]
    exact h.dir
  . rw [hindex]
    exact h.index
  . rw [hdir, hpending]
    exact h.recorded
  . intro hp
    rw [hpending] at hp
    exact hshadow (h.shadow hp)
  . intro hp w
    rw [hpending] at hp
    unfold phase
    rw [hworkers]
    exact h.workers hp w

variable {w : Nat} {phase : Phase} {path : String}

theorem Durable.setPhase (w) (hphase : (s.history.pending.get? p).isSome → phase.cleans ≠ some p)
    : Durable hashPath p (s.setPhase w phase) := by
  refine { h with workers := ?_ }
  intro hp w'
  rw [phase_setPhase]
  split
  . exact hphase hp
  . exact h.workers hp w'

theorem Durable.setPhase_of_cleans (w) (hphase : phase.cleans = none)
    : Durable hashPath p (s.setPhase w phase) := by
  apply h.setPhase
  intro _
  rw [hphase]
  exact (Option.some_ne_none p).symm

theorem Durable.settle (path)
    : Durable hashPath p (s.settle path)
      ∧ (path = p → (s.settle path).history.pending.get? p = none) := by
  have hpending : (s.settle path).history.pending.get? p
      = if p = path then none else s.history.pending.get? p := by
    unfold Mount.settle
    rw [get?_del]
  refine ⟨?_, ?_⟩
  . refine { dir := h.dir, index := h.index, recorded := ?_, shadow := ?_, workers := ?_ }
    . rw [hpending]
      split
      . intro md hmd
        contradiction
      . exact h.recorded
    . rw [hpending]
      split
      . intro hp
        contradiction
      . exact h.shadow
    . rw [hpending]
      split
      . intro hp
        contradiction
      . exact h.workers
  . intro heq
    rw [hpending, if_pos heq.symm]

theorem Durable.settle_setPhase (path) (w) (hphase : phase.cleans = some path ∨ phase.cleans = none)
    : Durable hashPath p ((s.settle path).setPhase w phase) := by
  obtain ⟨hsettled, hnone⟩ := h.settle path
  apply hsettled.setPhase
  intro hp hcleans
  rcases hphase with hpath | hno
  . rw [hcleans] at hpath
    rw [hnone (Option.some.inj hpath).symm] at hp
    contradiction
  . rw [hcleans] at hno
    contradiction

theorem Durable.found (path) (data) : Durable hashPath p (s.found path data) :=
  h.congr rfl rfl rfl id rfl

theorem Durable.accept (path) (data) : Durable hashPath p (s.accept path data) :=
  h.congr rfl rfl rfl id rfl

end

theorem Durable.writeFull (hinj : Function.Injective hashPath) (h : Durable hashPath p s) (path)
    (file) {history : History} (hpending : history.pending = s.history.pending)
    : Durable hashPath p { s with shadows := s.shadows.writeFull hashPath path file, history := history } := by
  have hkeeps : (s.shadow hashPath p).isSome
      → ((s.shadows.writeFull hashPath path file).file hashPath p).isSome := by
    intro hshadow
    rw [ShadowStore.file_writeFull _ hinj]
    split
    . rfl
    . exact hshadow
  exact Durable.congr h rfl rfl hpending hkeeps rfl

theorem Durable.path_ne (h : Durable hashPath p s) (w) (path)
    (hcleans : (s.phase w).cleans = some path) (hp : (s.history.pending.get? p).isSome)
    : p ≠ path := by
  intro heq
  rw [← heq] at hcleans
  exact h.workers hp w hcleans

section

variable (hinj : Function.Injective hashPath)

include hinj

theorem Durable.mark (h : Durable hashPath p s) (path)
    : Durable hashPath p
        ({ s with
          index := (s.index.markConflict hashPath s.dir path).1
          dir := (s.index.markConflict hashPath s.dir path).2 }.settle path) := by
  obtain ⟨hidx, hdir⟩ := PendingIndex.named_markConflict h.index h.dir path
  have hpending : (s.history.pending.del path).get? p
      = if p = path then none else s.history.pending.get? p :=
    get?_del _ _ _
  refine { dir := hdir, index := hidx, recorded := ?_, shadow := ?_, workers := ?_ }
  . intro md
    change (s.history.pending.del path).get? p = some md → _
    rw [hpending]
    split
    . intro hmd
      contradiction
    . next hne =>
      intro hmd
      exact (PendingIndex.metas_markConflict _ _ (hinj.ne hne)).trans (h.recorded md hmd)
  . change ((s.history.pending.del path).get? p).isSome → _
    rw [hpending]
    split
    . intro hp
      contradiction
    . exact h.shadow
  . change ((s.history.pending.del path).get? p).isSome → _
    rw [hpending]
    split
    . intro hp
      contradiction
    . exact h.workers

theorem Durable.worker {w : Nat} (heffect : WorkerEffect hashPath w s s') (h : Durable hashPath p s)
    : Durable hashPath p s' := by
  induction heffect with
  | moves cq journal hfrom hheld hcleans =>
    apply Durable.setPhase_of_cleans _ w hcleans
    exact h.congr rfl rfl rfl id rfl
  | creates path hmissing _ ih => exact ih (h.writeFull hinj path _ rfl)
  | reads hfrom hfile hheld hcleans => exact h.setPhase_of_cleans w hcleans
  | applied hfrom hold hheld hcleans => exact (h.accept _ _).setPhase_of_cleans w hcleans
  | uploads hfrom hold => exact (h.accept _ _).settle_setPhase _ w (.inl rfl)
  | agrees hold hremote => exact (h.found _ _).settle_setPhase _ w (.inl rfl)
  | differs hold => exact h.setPhase_of_cleans w rfl
  | @journals s entry file hold =>
    apply Durable.setPhase
    . exact h.congr rfl rfl rfl id rfl
    . intro hp heq
      exact h.path_ne w _ (by rw [hold]; rfl) hp (Option.some.inj heq).symm
  | @unshadows s entry file hold =>
    have hne := h.path_ne w entry.path (by rw [hold]; rfl)
    apply Durable.setPhase
    . refine { h with shadow := ?_ }
      intro hp
      change ((s.shadows.remove hashPath entry.path).file hashPath p).isSome
      rw [ShadowStore.file_remove _ hinj, if_neg (hne hp)]
      exact h.shadow hp
    . intro hp heq
      exact hne hp (Option.some.inj heq).symm
  | @unindexes s entry hold =>
    obtain ⟨hidx, hdir⟩ := PendingIndex.named_remove h.index h.dir entry.path
    apply Durable.setPhase_of_cleans _ w rfl
    refine { dir := hdir, index := hidx, recorded := ?_, shadow := h.shadow, workers := h.workers }
    intro md hmd
    have hne := h.path_ne w entry.path (by rw [hold]; rfl) (Option.isSome_of_eq_some hmd)
    change (s.dir.metas.del (hashPath entry.path)).get? (hashPath p) = some md
    rw [get?_del, if_neg (hinj.ne hne)]
    exact h.recorded md hmd
  | marks hold => exact (h.mark hinj _).setPhase_of_cleans w rfl

section

variable (h : Durable hashPath p s)

include h

theorem Durable.put (hmetas : s'.dir.metas = s.dir.metas.set (hashPath path) md)
    (hmd : md.path = path) (hindex : s'.index.Named)
    (hshadows : s'.shadows = s.shadows) (hworkers : s'.workers = s.workers)
    (hother : p ≠ path → s'.history.pending.get? p = s.history.pending.get? p)
    (hself : p = path → s'.history.pending.get? p = none ∨ s'.history.pending.get? p = some md
      ∧ (s.shadow hashPath p).isSome ∧ ∀ w, (s.phase w).cleans ≠ some p)
    : Durable hashPath p s' := by
  have hphase := phase_congr hworkers
  have hshadow : s'.shadow hashPath p = s.shadow hashPath p := by
    unfold Mount.shadow
    rw [hshadows]
  have hdir : s'.dir.Named hashPath := by
    have hset := h.dir.set hmd s'.dir.dats
    rw [← hmetas] at hset
    exact hset
  refine { dir := hdir, index := hindex, recorded := ?_, shadow := ?_, workers := ?_ }
  . intro md' hmd'
    rw [hmetas, get?_set]
    by_cases heq : p = path
    . rw [if_pos (congrArg hashPath heq)]
      rcases hself heq with hnone | ⟨hsome, _⟩
      . rw [hnone] at hmd'
        contradiction
      . rw [← hsome, hmd']
    . rw [if_neg (hinj.ne heq)]
      rw [hother heq] at hmd'
      exact h.recorded md' hmd'
  . intro hp
    rw [hshadow]
    by_cases heq : p = path
    . rcases hself heq with hnone | ⟨_, hthere, _⟩
      . rw [hnone] at hp
        contradiction
      . exact hthere
    . rw [hother heq] at hp
      exact h.shadow hp
  . intro hp w
    rw [hphase]
    by_cases heq : p = path
    . rcases hself heq with hnone | ⟨_, _, hclean⟩
      . rw [hnone] at hp
        contradiction
      . exact hclean w
    . rw [hother heq] at hp
      exact h.workers hp w

theorem Durable.stageIndex (hok : DurableOk hashPath p s (.stageIndex path size kind baseRev spill))
    : Durable hashPath p (s.stageIndex hashPath path size kind baseRev spill) := by
  have hnamed := (PendingIndex.named_putInternal h.index h.dir path size kind baseRev spill).1
  have hget : ∀ md, ((s.index.items.set path md).get? path) = some md := get?_set_self _ _
  unfold Mount.stageIndex
  unfold PendingIndex.putInternal
  dsimp only
  rw [hget]
  refine Durable.put hinj h rfl rfl hnamed rfl rfl ?_ ?_
  . intro hne
    exact get?_set_ne _ _ hne
  . intro heq
    right
    obtain ⟨hshadow, hclean⟩ := hok heq.symm
    refine ⟨?_, hshadow, ?_⟩
    . rw [heq]
      exact get?_set_self _ _ _
    . exact fun w hw => hclean w (mem_workers_of_phase Phase.cleans rfl hw) hw

theorem Durable.snapshot (hstep : s.snapshot hashPath path file size kind baseRev = some s')
    : Durable hashPath p s' := by
  have hget : ∀ md, ((s.cache.metas.set path md).get? path) = some md := get?_set_self _ _
  unfold Mount.snapshot at hstep
  obtain ⟨_, rfl⟩ := Lts.of_guard hstep
  rw [hget]
  cases hp : s.history.pending.get? path with
  | none =>
    refine Durable.put hinj h rfl rfl h.index rfl rfl ?_ ?_
    . intro _
      rfl
    . intro heq
      left
      rw [heq]
      exact hp
  | some md =>
    refine Durable.put hinj h rfl rfl h.index rfl rfl ?_ ?_
    . intro hne
      exact get?_set_ne _ _ hne
    . intro heq
      right
      have hsome : (s.history.pending.get? p).isSome := by
        rw [heq, hp]
        rfl
      refine ⟨?_, h.shadow hsome, h.workers hsome⟩
      rw [heq]
      exact get?_set_self _ _ _

theorem Durable.dropSnapshot (hok : DurableOk hashPath p s (.dropSnapshot path))
    : Durable hashPath p (s.dropSnapshot hashPath path) := by
  refine { dir := ?_, index := h.index, recorded := ?_, shadow := h.shadow, workers := h.workers }
  . exact h.dir.del _ _
  . intro md hmd
    change (s.dir.metas.del (hashPath path)).get? (hashPath p) = some md
    rw [get?_del, if_neg]
    . exact h.recorded md hmd
    . intro heq
      have hnone := hok (hinj heq).symm
      rw [show s.history.pending.get? p = some md from hmd] at hnone
      contradiction

theorem Durable.step (hok : DurableOk hashPath p s label) (hstep : s.step hashPath label = some s')
    : Durable hashPath p s' := by
  cases label with
  | stageShadow path data =>
    cases hstep
    exact h.writeFull hinj path _ rfl
  | stageIndex path size kind baseRev spill =>
    cases hstep
    exact h.stageIndex hinj hok
  | snapshot path file size kind baseRev => exact h.snapshot hinj hstep
  | dropSnapshot path =>
    cases hstep
    exact h.dropSnapshot hinj hok
  | journalFsync path baseRev | remoteWrite path data | remoteRemove path =>
    cases hstep
    exact h.congr rfl rfl rfl id rfl
  | enqueue path baseRev size kind spill =>
    unfold Mount.step at hstep
    dsimp only at hstep
    split at hstep
    . cases hstep
      exact h
    . cases hstep
      exact h.congr rfl rfl rfl id rfl
  | pin path =>
    cases hstep
    have hfile := s.shadows.file_pinIfExists hashPath path p
    exact Durable.congr h rfl rfl rfl (fun hshadow => (congrArg Option.isSome hfile).trans hshadow) rfl
  | unpin gen =>
    cases hstep
    have hfile := s.shadows.file_unpin hashPath gen p
    exact Durable.congr h rfl rfl rfl (fun hshadow => (congrArg Option.isSome hfile).trans hshadow) rfl
  | worker w ws => exact h.worker hinj (WorkerEffect.of_workerStep hstep)
  | restart =>
    cases hstep
    obtain ⟨hidx, hdir⟩ := s.named_restart h.dir
    refine { dir := hdir, index := hidx, recorded := ?_, shadow := ?_, workers := ?_ }
    . intro md hmd
      contradiction
    all_goals
      intro hp
      contradiction

end

end

end Mount
