import Drive9.Fuse.Dispatch.Lemmas

/-!
This module contains `WaitPath` of the commit queue and the proof that no worker has an entry of the
path when it returns.
-/

open List Option FMap

namespace Dispatch

namespace CommitQueue

def hasQueuedPathLocked (cq : CommitQueue) (path : String) : Bool := 0 < (cq.queuedOf path).length

-- The check that ends the loop of `WaitPath`.
def waitPath (cq : CommitQueue) (path : String) : Bool :=
  (cq.inFlight.get? path).isNone && !cq.hasQueuedPathLocked path

def picked (cq : CommitQueue) (w : Nat) : Option Nat := cq.workers[w]?.bind Phase.entry

end CommitQueue

open Dispatch.CommitQueue

variable {cq cq' : CommitQueue}

def Phase.marked : Phase → Bool
  | .committing _ | .dequeued _ => true
  | _ => false

-- A worker that has an entry of such a path has marked it as in flight.
def MarkedFor (cq : CommitQueue) (covered : String → Bool) : Prop :=
  ∀ phase ∈ cq.workers, ∀ e ∈ phase.entry, covered (cq.path e) = true → phase.marked = true

/--
Entries are canceled only if no worker has picked one of them up without marking it as in flight, a
worker picks up only live entries, and it marks an entry only if no other one of the path is in
flight.
-/
def WaitOk (cq : CommitQueue) : Label → Prop
  | .cancelPath path => MarkedFor cq (· = path)
  | .cancelPrefix dir => MarkedFor cq (below dir)
  | .worker _ .receive => ∀ e ∈ cq.workCh.buf.head?, cq.isEntryCanceled e = false
  | .worker w .mark => ∀ e ∈ cq.picked w, cq.inFlight.get? (cq.path e) = none
  | _ => True

instance decidableMarkedFor (cq : CommitQueue) (covered : String → Bool)
    : Decidable (MarkedFor cq covered) := by
  unfold MarkedFor
  infer_instance

instance decidableWaitOk (cq : CommitQueue) (label : Label) : Decidable (WaitOk cq label) :=
  match label with
  | .cancelPath path => decidableMarkedFor cq (· = path)
  | .cancelPrefix dir => decidableMarkedFor cq (below dir)
  | .worker _ .receive | .worker _ .mark => inferInstanceAs (Decidable (∀ e ∈ (_ : Option _), _))
  | .worker _ .check | .worker _ .skip | .worker _ .complete | .worker _ .clear => .isTrue trivial
  | .enqueue _ | .drainAll => .isTrue trivial

structure Watched (cq : CommitQueue) : Prop extends Indexed cq where
  pending_lt : ∀ e ∈ cq.workCh.pending, e < cq.nextEntry
  pending_nodup : cq.workCh.pending.Nodup
  live : ∀ e ∈ cq.workCh.pending, cq.isEntryCanceled e = false → e ∈ cq.queue
  inFlight : ∀ p e, cq.inFlight.get? p = some e → e < cq.nextEntry ∧ e ∉ cq.workCh.pending
  picked : ∀ w e, cq.picked w = some e → e < cq.nextEntry ∧ e ∉ cq.workCh.pending
  unique : ∀ w w' e, cq.picked w = some e → cq.picked w' = some e → w = w'
  unmarked : ∀ (w : Nat) phase e, cq.workers[w]? = some phase → phase.entry = some e
    → phase.marked = false → e ∈ cq.queue
  marked : ∀ (w : Nat) phase e, cq.workers[w]? = some phase → phase.entry = some e
    → phase.marked = true
    → cq.inFlight.get? (cq.path e) = some e

theorem Watched.filed (h : Watched cq) : Filed cq where
  toIndexed := h.toIndexed
  buf_lt := fun e he => h.pending_lt e (mem_append_left _ he)
  inFlight := fun p e he => ⟨(h.inFlight p e he).1, fun hbuf => (h.inFlight p e he).2 (mem_append_left _ hbuf)⟩

theorem picked_eq_some : cq.picked w = some e ↔ ∃ phase, cq.workers[w]? = some phase ∧ phase.entry = some e := by
  unfold CommitQueue.picked
  rw [bind_eq_some_iff]

theorem Watched.newEntry (h : Watched cq) (path) : Watched (cq.newEntry path) :=
  { h with
    toIndexed := h.toIndexed.newEntry path
    pending_lt := fun e he => Nat.lt_succ_of_lt (h.pending_lt e he)
    live := by
      intro e he hc
      rw [isEntryCanceled_newEntry path (h.pending_lt e he)] at hc
      exact h.live e he hc
    inFlight := fun p e he => ⟨Nat.lt_succ_of_lt (h.inFlight p e he).1, (h.inFlight p e he).2⟩
    picked := fun w e he => ⟨Nat.lt_succ_of_lt (h.picked w e he).1, (h.picked w e he).2⟩
    marked := by
      intro w phase e hw he hm
      rw [path_newEntry path (h.picked w e (picked_eq_some.mpr ⟨phase, hw, he⟩)).1]
      exact h.marked w phase e hw he hm }

theorem Watched.enqueue (h : Watched cq) (hs : cq.workCh.sender = none) (hlt : entry < cq.nextEntry)
    (hqueue : entry ∉ cq.queue) (hpending : entry ∉ cq.workCh.pending)
    (hpicked : ∀ w, cq.picked w ≠ some entry)
    (hflight : ∀ p, cq.inFlight.get? p ≠ some entry) (henq : cq.enqueue entry = some cq')
    : Watched cq' := by
  obtain ⟨_, hch, henq⟩ := enqueued_of_enqueue henq
  have hindex := henq.keepsIndex h.toIndexed hlt hqueue
  have hsend : cq'.workCh.pending = cq.workCh.pending ++ [entry] := hch ▸ Chan.pending_send hs entry
  have hmem : ∀ e, e ∈ cq'.workCh.pending ↔ e ∈ cq.workCh.pending ∨ e = entry := by
    intro e
    rw [hsend, mem_append, mem_singleton]
  have hworkers : cq'.workers = cq.workers := henq.workers
  have hnext : cq'.nextEntry = cq.nextEntry := henq.nextEntry
  have hinFlight : cq'.inFlight = cq.inFlight := henq.inFlight
  have hq : ∀ e, e ∈ cq'.queue ↔ e ∈ cq.queue ∨ e = entry := by
    intro e
    have hqueue : cq'.queue = cq.queue ++ [entry] := henq.queue
    rw [hqueue, mem_append, mem_singleton]
  refine { hindex with
    pending_lt := ?_, pending_nodup := ?_, live := ?_, inFlight := ?_, picked := ?_, unique := ?_, unmarked := ?_,
    marked := ?_ }
  . intro e he
    rw [hnext]
    cases (hmem e).mp he with
    | inl he => exact h.pending_lt e he
    | inr heq => exact heq ▸ hlt
  . rw [hsend, ← concat_eq_append]
    exact h.pending_nodup.concat hpending
  . intro e he hc
    rw [hq]
    exact ((hmem e).mp he).imp_left fun he => h.live e he (congrFun henq.isEntryCanceled e ▸ hc)
  . intro p e he
    rw [hinFlight] at he
    rw [hnext, hmem, not_or]
    refine ⟨(h.inFlight p e he).1, (h.inFlight p e he).2, ?_⟩
    rintro rfl
    exact hflight p he
  . intro w e he
    unfold CommitQueue.picked at he
    rw [hworkers] at he
    rw [hnext, hmem, not_or]
    refine ⟨(h.picked w e he).1, (h.picked w e he).2, ?_⟩
    rintro rfl
    exact hpicked w he
  . unfold CommitQueue.picked
    rw [hworkers]
    exact h.unique
  . intro w phase e hw he hm
    rw [hworkers] at hw
    exact (hq e).mpr (.inl (h.unmarked w phase e hw he hm))
  . intro w phase e hw he hm
    rw [hworkers] at hw
    rw [hinFlight, show cq'.path e = cq.path e from henq.path e]
    exact h.marked w phase e hw he hm

-- Entries have left the queue, and nothing else has changed but the index.
theorem Watched.requeued (h : Watched cq) (hindex : Indexed cq') (hs : SameChannel cq cq')
    (hpath : ∀ e, cq'.path e = cq.path e)
    (hlive : ∀ e ∈ cq.workCh.pending, cq'.isEntryCanceled e = false → e ∈ cq'.queue)
    (hunmarked : ∀ (w : Nat) phase e, cq.workers[w]? = some phase → phase.entry = some e → phase.marked = false
      → e ∈ cq'.queue)
    : Watched cq' := by
  refine { hindex with
    pending_lt := ?_, pending_nodup := ?_, live := ?_, inFlight := ?_, picked := ?_, unique := ?_, unmarked := ?_,
    marked := ?_ }
  . rw [hs.workCh, hs.nextEntry]
    exact h.pending_lt
  . rw [hs.workCh]
    exact h.pending_nodup
  . rw [hs.workCh]
    exact hlive
  . rw [hs.inFlight, hs.nextEntry, hs.workCh]
    exact h.inFlight
  . unfold CommitQueue.picked
    rw [hs.workers, hs.nextEntry, hs.workCh]
    exact h.picked
  . unfold CommitQueue.picked
    rw [hs.workers]
    exact h.unique
  . rw [hs.workers]
    exact hunmarked
  . intro w phase e hw he hm
    rw [hs.workers] at hw
    rw [hs.inFlight, hpath]
    exact h.marked w phase e hw he hm

theorem Watched.canceled (h : Watched cq) (hc : Canceled cq gone cq')
    (hok : ∀ phase ∈ cq.workers, ∀ e ∈ phase.entry, gone e = true → phase.marked = true)
    : Watched cq' := by
  apply h.requeued (hc.keepsIndex h.toIndexed) hc.toSameChannel hc.path
  . intro e he
    exact hc.live (h.live e he)
  . intro w phase e hw he hm
    refine (hc.queue e).mpr ⟨h.unmarked w phase e hw he hm, Bool.eq_false_iff.mpr fun hgone => ?_⟩
    rw [hok phase (mem_of_getElem? hw) e he hgone] at hm
    contradiction

section Workers

variable {w : Nat} {phase : Phase} {entry : Nat}

theorem getElem?_setWorker (hw : cq.workers[w]? = some old) (new) (w')
    : (cq.setWorker w new).workers[w']? = if w' = w then some new else cq.workers[w']? := by
  unfold setWorker
  rw [getElem?_set]
  grind

theorem picked_setWorker (hw : cq.workers[w]? = some old) (new : Phase) (w')
    : (cq.setWorker w new).picked w' = if w' = w then new.entry else cq.picked w' := by
  unfold CommitQueue.picked
  rw [getElem?_setWorker hw]
  split
  . rfl
  . rfl

section

variable (h : Watched cq)

include h

theorem Watched.setWorker (hw : cq.workers[w]? = some old)
    (hpicked : ∀ e, phase.entry = some e → e < cq.nextEntry ∧ e ∉ cq.workCh.pending)
    (hunique : ∀ e, phase.entry = some e → ∀ w', cq.picked w' = some e → w' = w)
    (hunmarked : ∀ e, phase.entry = some e → phase.marked = false → e ∈ cq.queue)
    (hmarked : ∀ e, phase.entry = some e → phase.marked = true → cq.inFlight.get? (cq.path e) = some e)
    : Watched (cq.setWorker w phase) := by
  have hget := getElem?_setWorker hw phase
  have hpick := picked_setWorker hw phase
  refine { h with picked := ?_, unique := ?_, unmarked := ?_, marked := ?_ }
  . intro w' e he
    rw [hpick] at he
    split at he
    . exact hpicked e he
    . exact h.picked w' e he
  . intro w1 w2 e h1 h2
    rw [hpick] at h1 h2
    have hold := h.unique w1 w2 e
    grind
  . intro w' phase' e hw' he hm
    rw [hget] at hw'
    split at hw'
    . cases hw'
      exact hunmarked e he hm
    . exact h.unmarked w' phase' e hw' he hm
  . intro w' phase' e hw' he hm
    rw [hget] at hw'
    split at hw'
    . cases hw'
      exact hmarked e he hm
    . exact h.marked w' phase' e hw' he hm

-- The worker goes on with the entry that it has.
theorem Watched.movesOn {old : Phase} (hw : cq.workers[w]? = some old)
    (hold : old.entry = some entry)
    (hentry : phase.entry = some entry) (hunmarked : phase.marked = false → entry ∈ cq.queue)
    (hmarked : phase.marked = true → cq.inFlight.get? (cq.path entry) = some entry)
    : Watched (cq.setWorker w phase) := by
  have hpick := picked_eq_some.mpr ⟨old, hw, hold⟩
  apply h.setWorker hw
  all_goals
    intro e he
    rw [hentry] at he
    cases he
  . exact h.picked w entry hpick
  . exact fun w' hw' => h.unique w' w entry hw' hpick
  . exact hunmarked
  . exact hmarked

theorem Watched.holder_setWorker {w' : Nat} (hw : cq.workers[w]? = some old)
    (hold : old.entry = some entry) (hw' : (cq.setWorker w new).workers[w']? = some phase)
    (he : phase.entry = some entry)
    : phase = new := by
  rw [getElem?_setWorker hw] at hw'
  split at hw'
  . exact (Option.some.inj hw').symm
  . next hne =>
    exact absurd (h.unique w' w entry (picked_eq_some.mpr ⟨_, hw', he⟩) (picked_eq_some.mpr ⟨_, hw, hold⟩)) hne

theorem Watched.setIdle (hw : cq.workers[w]? = some old) : Watched (cq.setWorker w .idle) := by
  apply h.setWorker hw
  all_goals
    intro e he
    contradiction

theorem Watched.removeFromQueue (hpending : entry ∉ cq.workCh.pending)
    (hheld : ∀ (w : Nat) phase, cq.workers[w]? = some phase → phase.entry = some entry → phase.marked = true)
    : Watched (cq.removeFromQueue entry) := by
  have hr := h.filed.removed entry
  apply h.requeued (hr.keepsIndex h.toIndexed) hr.toSameChannel hr.path
  . intro e he hlive
    rw [hr.isEntryCanceled] at hlive
    apply hr.others e (h.live e he hlive)
    rintro rfl
    exact hpending he
  . intro w phase e hw he hm
    apply hr.others e (h.unmarked w phase e hw he hm)
    rintro rfl
    rw [hheld w phase hw he] at hm
    contradiction

end

theorem removeFromQueue_setWorker (cq : CommitQueue) (entry w) (phase)
    : (cq.removeFromQueue entry).setWorker w phase
      = (cq.setWorker w phase).removeFromQueue entry := by
  unfold CommitQueue.removeFromQueue CommitQueue.setWorker
  split
  . rfl
  . rfl

theorem Watched.workerStep (h : Watched cq) {step : WorkerStep} (hok : WaitOk cq (.worker w step))
    (hstep : workerStep cq w step = some cq')
    : Watched cq' := by
  have hold : ∀ {phase e}, cq.workers[w]? = some phase → phase.entry = some e
      → cq.picked w = some e :=
    fun hw he => picked_eq_some.mpr ⟨_, hw, he⟩
  unfold Dispatch.workerStep at hstep
  split at hstep
  . next hw =>
    split at hstep
    . contradiction
    . next entry workCh hreceive =>
      cases hstep
      obtain ⟨hhead, hpending⟩ := Chan.pending_receive hreceive
      have hnodup := h.pending_nodup
      rw [hpending, nodup_cons] at hnodup
      have hsub : ∀ e ∈ workCh.pending, e ∈ cq.workCh.pending :=
        fun e he => hpending ▸ mem_cons_of_mem _ he
      have hmem : entry ∈ cq.workCh.pending := hpending ▸ mem_cons_self
      have hrest : Watched { cq with workCh } := { h with
        pending_lt := fun e he => h.pending_lt e (hsub e he)
        pending_nodup := hnodup.2
        live := fun e he => h.live e (hsub e he)
        inFlight := fun p e he => ⟨(h.inFlight p e he).1, fun hm => (h.inFlight p e he).2 (hsub e hm)⟩
        picked := fun w e he => ⟨(h.picked w e he).1, fun hm => (h.picked w e he).2 (hsub e hm)⟩ }
      apply hrest.setWorker hw
      . rintro e ⟨⟩
        exact ⟨h.pending_lt _ hmem, hnodup.1⟩
      . rintro e ⟨⟩ w' hw'
        exact absurd hmem (h.picked w' _ hw').2
      . rintro e ⟨⟩ _
        exact h.live _ hmem (hok _ hhead)
      . rintro e ⟨⟩ hm
        contradiction
  . next entry hw =>
    cases hstep
    apply h.movesOn hw rfl
    . split <;> rfl
    . exact fun _ => h.unmarked w _ entry hw rfl rfl
    . intro hm
      split at hm
      all_goals contradiction
  . next entry hw =>
    cases hstep
    have hpick := hold hw rfl
    rw [removeFromQueue_setWorker]
    apply (h.setIdle hw).removeFromQueue (h.picked w entry hpick).2
    intro w' phase hw' he
    rw [h.holder_setWorker hw rfl hw' he] at he
    contradiction
  . next entry hw =>
    cases hstep
    have hpick := hold hw rfl
    have hnone := hok entry hpick
    have hmark : Watched { cq with inFlight := cq.inFlight.set (cq.path entry) entry } := { h with
      inFlight := forall_set h.inFlight (h.picked w entry hpick)
      marked := by
        intro w' phase e hw' he hm
        have hflight := h.marked w' phase e hw' he hm
        change (cq.inFlight.set _ _).get? (cq.path e) = some e
        rw [get?_set, if_neg]
        . exact hflight
        . intro heq
          rw [heq, hnone] at hflight
          contradiction }
    apply hmark.movesOn hw rfl rfl
    . intro hm
      contradiction
    . exact fun _ => get?_set_self ..
  . next entry hw =>
    cases hstep
    have hpick := hold hw rfl
    rw [removeFromQueue_setWorker]
    apply Watched.removeFromQueue
    . apply h.movesOn hw rfl rfl
      . intro hm
        contradiction
      . exact fun _ => h.marked w _ entry hw rfl rfl
    . exact (h.picked w entry hpick).2
    . intro w' phase hw' he
      rw [h.holder_setWorker hw rfl hw' he]
      rfl
  . next entry hw =>
    cases hstep
    have hidle := h.setIdle hw
    refine { hidle with inFlight := ?_, marked := ?_ }
    . intro p e he
      apply h.inFlight p e
      dsimp only [CommitQueue.setWorker] at he
      split at he
      . exact (of_get?_del he).2
      . exact he
    . intro w' phase e hw' he hm
      have hflight : cq.inFlight.get? (cq.path e) = some e := hidle.marked w' phase e hw' he hm
      dsimp only [CommitQueue.setWorker]
      change (if _ then _ else _ : FMap String Nat).get? (cq.path e) = some e
      split
      . next hown =>
        rw [get?_del, if_neg]
        . exact hflight
        . intro heq
          rw [heq, hown] at hflight
          cases hflight
          rw [h.holder_setWorker hw rfl hw' he] at he
          contradiction
      . exact hflight
  . contradiction

end Workers

theorem Watched.step (h : Watched cq) (hok : WaitOk cq label) (hstep : step cq label = some cq')
    : Watched cq' := by
  unfold Dispatch.step at hstep
  split at hstep
  . exact h.workerStep hok hstep
  . split at hstep
    . contradiction
    . next hsender =>
      split at hstep
      . next path _ =>
        cases hstep
        have hnew := h.newEntry path
        cases henq : (cq.newEntry path).enqueue cq.nextEntry with
        | none =>
          rw [getD_none]
          exact hnew
        | some cq1 =>
          rw [getD_some]
          apply hnew.enqueue (not_isSome_iff_eq_none.mp hsender) (Nat.lt_succ_self _) _ _ _ _ henq
          . exact fun hmem => Nat.lt_irrefl _ (h.queue_lt _ hmem)
          . exact fun hmem => Nat.lt_irrefl _ (h.pending_lt _ hmem)
          . exact fun w hmem => Nat.lt_irrefl _ (h.picked w _ hmem).1
          . exact fun p hmem => Nat.lt_irrefl _ (h.inFlight p _ hmem).1
      . next path _ =>
        cases hstep
        apply h.canceled (h.filed.canceled_cancelPath path)
        intro phase hphase e he hgone
        exact hok phase hphase e he (by simpa using hgone)
      . cases hstep
        exact h.canceled (h.filed.canceled_cancelPrefix _) hok
      . cases hstep
        exact { h with }
      . exact h.workerStep hok hstep

theorem watched_newCommitQueue (numWorkers maxPending)
    : Watched (newCommitQueue numWorkers maxPending) := by
  have hidle : ∀ (w : Nat) phase, (newCommitQueue numWorkers maxPending).workers[w]? = some phase
      → phase.entry = none := by
    intro w phase hw
    rw [eq_of_mem_replicate (mem_of_getElem? hw)]
    rfl
  have hpicked : ∀ w, (newCommitQueue numWorkers maxPending).picked w = none := by
    intro w
    cases hw : (newCommitQueue numWorkers maxPending).picked w with
    | none => rfl
    | some e =>
      obtain ⟨phase, hget, he⟩ := picked_eq_some.mp hw
      rw [hidle w phase hget] at he
      contradiction
  refine ⟨⟨nodup_nil, ?_, ?known, ?_, ?_⟩, ?_, nodup_nil, ?_, ?_, ?picked, ?unique, ?unmarked,
    ?marked⟩
  case known => exact fun e he => absurd he (Nat.not_lt_zero e)
  case picked =>
    intro w e he
    rw [hpicked] at he
    contradiction
  case unique =>
    intro w w' e he
    rw [hpicked] at he
    contradiction
  case unmarked =>
    intro w phase e hw he
    rw [hidle w phase hw] at he
    contradiction
  case marked =>
    intro w phase e hw he
    rw [hidle w phase hw] at he
    contradiction
  all_goals
    intros
    contradiction

/--
In every run whose steps all meet the condition, with any number of workers: when `WaitPath`
returns, no worker has an entry of the path, and what is left of the path in the channel is
canceled.
-/
theorem waitPath_waits (numWorkers maxPending : Int) (labels : List Label) (cq : CommitQueue)
    (path : String) (hexec : Lts.exec step (newCommitQueue numWorkers maxPending) labels = some cq)
    (hok : Lts.Along step WaitOk (newCommitQueue numWorkers maxPending) labels)
    (hreturn : cq.waitPath path = true)
    : (∀ w e, cq.picked w = some e → cq.path e ≠ path)
      ∧ ∀ e ∈ cq.workCh.pending, cq.path e = path → cq.isEntryCanceled e = true := by
  have h : Watched cq :=
    Lts.exec_invariant WaitOk Watched (fun _ _ _ h hok hstep => h.step hok hstep)
      (watched_newCommitQueue numWorkers maxPending) hok hexec
  unfold CommitQueue.waitPath CommitQueue.hasQueuedPathLocked at hreturn
  rw [Bool.and_eq_true, Option.isNone_iff_eq_none, Bool.not_eq_true', decide_eq_false_iff_not,
    Nat.not_lt, Nat.le_zero, List.length_eq_zero_iff] at hreturn
  obtain ⟨hflight, hqueued⟩ := hreturn
  have hqueue : ∀ e ∈ cq.queue, cq.path e ≠ path := by
    intro e he heq
    have hmem := h.indexed e he
    rw [heq, hqueued] at hmem
    contradiction
  constructor
  . intro w e he heq
    obtain ⟨phase, hw, hentry⟩ := picked_eq_some.mp he
    cases hm : phase.marked with
    | false => exact hqueue e (h.unmarked w phase e hw hentry hm) heq
    | true =>
      have hmark := h.marked w phase e hw hentry hm
      rw [heq, hflight] at hmark
      contradiction
  . intro e he heq
    cases hlive : cq.isEntryCanceled e with
    | true => rfl
    | false => exact absurd heq (hqueue e (h.live e he hlive))

def committedAndCanceled : List Label :=
  [.enqueue "/p", .enqueue "/q", .worker 0 .receive, .worker 1 .receive, .worker 0 .check, .worker 0 .mark,
    .cancelPath "/p", .worker 0 .complete, .worker 0 .clear]

theorem waitPath_waits_canceled
    : ∃ cq, Lts.exec step (newCommitQueue 2 0) committedAndCanceled = some cq
      ∧ cq.waitPath "/p" = true
        ∧ cq.picked 1 = some 1 ∧ cq.path 1 ≠ "/p" := by
  apply Lts.exists_of_any (fun cq => cq.waitPath "/p" = true ∧ cq.picked 1 = some 1)
    (by decide +kernel)
  intro cq hexec ⟨hreturn, hpicked⟩
  have hwaits := waitPath_waits 2 0 _ cq "/p" hexec (by decide +kernel) hreturn
  exact ⟨hreturn, hpicked, hwaits.1 1 1 hpicked⟩

-- Two entries of one path are committed at once, and both leave the queue when the path is
-- canceled. The second one has the only mark: `WaitPath` returns with the first one still being
-- uploaded.
theorem waitPath_returns_during_commit
    : ∃ cq, Lts.exec step (newCommitQueue 2 0) [.enqueue "/p", .enqueue "/p", .worker 0 .receive, .worker 0 .check,
          .worker 0 .mark, .worker 1 .receive, .worker 1 .check, .worker 1 .mark, .cancelPath "/p",
          .worker 1 .complete, .worker 1 .clear] = some cq
        ∧ cq.waitPath "/p" = true ∧ cq.workers[0]? = some (.committing 0) ∧ cq.path 0 = "/p" := by
  refine ⟨_, rfl, ?_⟩
  decide +kernel

end Dispatch
