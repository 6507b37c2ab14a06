import Drive9.Fuse.Dispatch.Lemmas

/-!
This module contains the index of the commit queue by path, which is exact after each locked step.
-/

namespace Dispatch

open Dispatch.CommitQueue

inductive Locked where
  | enqueue (path : String)
  | removeFromQueue (entry : Nat)
  | cancelPath (path : String)
  | cancelPrefix (dir : String)

def Locked.run (cq : CommitQueue) : Locked → CommitQueue
  | .enqueue path => ((cq.newEntry path).enqueue cq.nextEntry).getD (cq.newEntry path)
  | .removeFromQueue entry => cq.removeFromQueue entry
  | .cancelPath path => cq.cancelPath path
  | .cancelPrefix dir => cq.cancelPrefix dir

-- What is to be in the queue after the step, in this order.
def Locked.left (cq : CommitQueue) : Locked → List Nat
  | .enqueue _ =>
    if cq.stopped ∨ cq.maxPending ≤ cq.queue.length then cq.queue else cq.queue ++ [cq.nextEntry]
  | .removeFromQueue entry => cq.queue.filter (· != entry)
  | .cancelPath path => cq.queue.filter (cq.path · ≠ path)
  | .cancelPrefix dir => cq.queue.filter fun e => !below dir (cq.path e)

structure Exact (limit : Int) (cq : CommitQueue) : Prop where
  queue_nodup : cq.queue.Nodup
  queue_lt : ∀ e ∈ cq.queue, e < cq.nextEntry
  index : Indexes cq.path cq.queue cq.queuedByPath
  bound : cq.maxPending = limit
  room : cq.queue.length ≤ limit

namespace Exact

variable {cq : CommitQueue} (h : Exact limit cq)

include h

theorem newEntry (path) : Exact limit (cq.newEntry path) := by
  refine { h with
    queue_lt := fun e he => Nat.lt_succ_of_lt (h.queue_lt e he), index := ⟨?_, h.index.sets⟩ }
  intro p e
  refine (h.index.mem p e).trans (and_congr_right fun he => ?_)
  rw [path_newEntry path (h.queue_lt e he)]

theorem enqueue (path)
    : ((Locked.enqueue path).run cq).queue = (Locked.enqueue path).left cq
      ∧ Exact limit ((Locked.enqueue path).run cq) := by
  have hnew := h.newEntry path
  unfold Locked.run Locked.left CommitQueue.enqueue
  dsimp only
  split
  . next hstopped =>
    rw [if_pos (.inl hstopped)]
    exact ⟨rfl, hnew⟩
  . next hstopped =>
    split
    . next hlen =>
      rw [if_pos (.inr hlen)]
      exact ⟨rfl, hnew⟩
    . next hlen =>
      have hroom : ¬ (cq.stopped = true ∨ cq.maxPending ≤ cq.queue.length) :=
        not_or.mpr ⟨hstopped, hlen⟩
      rw [if_neg hroom]
      refine ⟨rfl, ?_, ?_, hnew.index.add cq.nextEntry, h.bound, ?_⟩
      all_goals
        obtain ⟨hnodup, hlt, -, hbound, -⟩ := h
        dsimp only [addQueuedLocked, CommitQueue.newEntry]
        grind

theorem filter (keep : Nat → Bool) (hqueue : cq'.queue = cq.queue.filter keep)
    (hnextEntry : cq'.nextEntry = cq.nextEntry) (hbound : cq'.maxPending = cq.maxPending)
    (hindex : Indexes cq'.path cq'.queue cq'.queuedByPath)
    : Exact limit cq' := by
  obtain ⟨hnodup, hlt, -, hlimit, hroom⟩ := h
  constructor
  . rw [hqueue]
    exact hnodup.filter keep
  . grind
  . exact hindex
  . grind
  . grind

theorem removeFromQueue (entry)
    : (cq.removeFromQueue entry).queue = cq.queue.filter (· != entry)
      ∧ Exact limit (cq.removeFromQueue entry) := by
  unfold CommitQueue.removeFromQueue
  split
  . have hqueue := h.queue_nodup.erase_eq_filter entry
    exact ⟨hqueue, h.filter _ hqueue rfl rfl (h.index.remove h.queue_nodup entry)⟩
  . next hentry =>
    refine ⟨(List.filter_eq_self.mpr fun e he => ?_).symm, h⟩
    apply bne_iff_ne.mpr
    rintro rfl
    exact hentry he

theorem cancelPath (path)
    : (cq.cancelPath path).queue = cq.queue.filter (cq.path · ≠ path)
      ∧ Exact limit (cq.cancelPath path) := by
  have hpath := funext (path_markCanceled cq ((cq.inFlight.get? path).toList ++ cq.queuedOf path))
  unfold CommitQueue.cancelPath
  dsimp only
  rw [hpath]
  split
  . next hnil =>
    have hqueue : cq.queue = cq.queue.filter (cq.path · ≠ path) := by
      refine (List.filter_eq_self.mpr fun e he => ?_).symm
      apply decide_eq_true
      intro heq
      have hmem := (h.index.mem path e).mpr ⟨he, heq⟩
      rw [show (cq.queuedByPath.get? path).getD [] = [] from hnil] at hmem
      contradiction
    exact ⟨hqueue, h.filter _ hqueue rfl rfl (hpath ▸ h.index)⟩
  . exact ⟨rfl, h.filter _ rfl rfl rfl (hpath ▸ h.index.del path)⟩

theorem cancelPrefix (dir)
    : (cq.cancelPrefix dir).queue = (cq.queue.filter fun e => !below dir (cq.path e))
      ∧ Exact limit (cq.cancelPrefix dir) := by
  unfold CommitQueue.cancelPrefix
  dsimp only
  generalize hmark : cq.markCanceled _ = marked
  have hpath : marked.path = cq.path := hmark ▸ funext (path_markCanceled cq _)
  rw [hpath, show marked.queue = cq.queue from hmark ▸ rfl]
  obtain ⟨queuedByPath, heq, hindex⟩ := rebuildQueuedIndexLocked_eq
    { marked with queue := cq.queue.filter fun e => !below dir (cq.path e) }
  rw [heq]
  subst hmark
  exact ⟨rfl, h.filter _ rfl rfl rfl hindex⟩

theorem run (op : Locked) : (op.run cq).queue = op.left cq ∧ Exact limit (op.run cq) := by
  cases op with
  | enqueue path => exact h.enqueue path
  | removeFromQueue entry => exact h.removeFromQueue entry
  | cancelPath path => exact h.cancelPath path
  | cancelPrefix dir => exact h.cancelPrefix dir

end Exact

theorem exact_newCommitQueue (numWorkers maxPending)
    : Exact (newCommitQueue numWorkers maxPending).maxPending (newCommitQueue numWorkers maxPending) := by
  refine ⟨List.nodup_nil, ?_, .empty, rfl, ?_⟩
  . intro e he
    contradiction
  . dsimp only [newCommitQueue, maxCommitQueuePending]
    grind

theorem queue_index_exact (numWorkers maxPending : Int) (ops : List Locked)
    : let cq := ops.foldl Locked.run (newCommitQueue numWorkers maxPending)
      (∀ p, match cq.queuedByPath.get? p with
        | some entries => entries ≠ [] ∧ ∀ e, e ∈ entries ↔ e ∈ cq.queue ∧ cq.path e = p
        | none => ∀ e ∈ cq.queue, cq.path e ≠ p)
      ∧ cq.queue.Nodup ∧ cq.queue.length ≤ (newCommitQueue numWorkers maxPending).maxPending
      ∧ ∀ op : Locked, (op.run cq).queue = op.left cq := by
  intro cq
  have h : Exact (newCommitQueue numWorkers maxPending).maxPending cq :=
    List.foldlRecOn (motive := Exact _) ops _ (exact_newCommitQueue numWorkers maxPending)
      fun _ h op _ => (h.run op).2
  refine ⟨?_, h.queue_nodup, h.room, fun op => (h.run op).1⟩
  intro p
  have hindex := h.index.mem p
  split
  . next entries hget =>
    rw [hget] at hindex
    exact ⟨(h.index.sets p entries hget).1, hindex⟩
  . next hget =>
    rw [hget] at hindex
    exact fun e he heq => List.not_mem_nil ((hindex e).mpr ⟨he, heq⟩)

end Dispatch
