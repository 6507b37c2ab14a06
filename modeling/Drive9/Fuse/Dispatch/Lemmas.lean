import Drive9.Fuse.Dispatch.Impl
import Drive9.Lib.Indexes
import Drive9.Lib.Lts

/-!
This module contains the invariant that relates the channel of the commit queue to its queue.
-/

namespace Dispatch

open Dispatch.CommitQueue List FMap

variable {cq : CommitQueue}

def stale (cq : CommitQueue) : Nat := cq.workCh.buf.countP cq.isEntryCanceled

def Taken (cq : CommitQueue) (entry : Nat) : Prop := entry < cq.nextEntry ∧ entry ∉ cq.workCh.buf

-- The queue and its index agree.
structure Indexed (cq : CommitQueue) : Prop where
  queue_nodup : cq.queue.Nodup
  queue_lt : ∀ e ∈ cq.queue, e < cq.nextEntry
  known : ∀ e, e < cq.nextEntry → ∃ entry, cq.entries.get? e = some entry
  indexed : ∀ e ∈ cq.queue, e ∈ cq.queuedOf (cq.path e)
  index_path : ∀ p, ∀ e ∈ cq.queuedOf p, e < cq.nextEntry ∧ cq.path e = p

structure Filed (cq : CommitQueue) : Prop extends Indexed cq where
  buf_lt : ∀ e ∈ cq.workCh.buf, e < cq.nextEntry
  inFlight : ∀ p e, cq.inFlight.get? p = some e → Taken cq e

-- An entry is in the channel or with a worker.
structure Carried (cq : CommitQueue) : Prop where
  sender : cq.workCh.sender = none
  buf_nodup : cq.workCh.buf.Nodup
  buf_lt : ∀ e ∈ cq.workCh.buf, e < cq.nextEntry
  held : ∀ phase ∈ cq.workers, ∀ e, phase.entry = some e → Taken cq e
  inFlight : ∀ p e, cq.inFlight.get? p = some e → Taken cq e

structure Inv (cq : CommitQueue) : Prop extends Indexed cq, Carried cq where
  room : (stale cq : Int) + cq.maxPending ≤ cq.workCh.cap
  queued : ∀ e ∈ cq.workCh.buf, cq.isEntryCanceled e = false → e ∈ cq.queue

theorem Inv.filed (h : Inv cq) : Filed cq := ⟨h.toIndexed, h.buf_lt, h.inFlight⟩

theorem Inv.length_buf_le (h : Inv cq) : cq.workCh.buf.length ≤ stale cq + cq.queue.length := by
  have hlive : (cq.workCh.buf.filter fun e => ¬ cq.isEntryCanceled e).length ≤ cq.queue.length := by
    apply List.Subperm.length_le
    apply subperm_of_subset (h.buf_nodup.filter _)
    intro e he
    rw [mem_filter] at he
    apply h.queued e he.1
    simpa using he.2
  rw [← countP_eq_length_filter] at hlive
  rw [length_eq_countP_add_countP cq.isEntryCanceled]
  exact Nat.add_le_add_left hlive _

theorem Inv.lt_cap (h : Inv cq) (hlen : cq.queue.length < cq.maxPending)
    : cq.workCh.buf.length < cq.workCh.cap := by
  have hroom := h.room
  have hbuf := h.length_buf_le
  omega

variable {e entry : Nat}

section Cancel

theorem get?_markCanceled (cq : CommitQueue) (entries : List Nat) (e)
    : (cq.markCanceled entries).entries.get? e
      = (cq.entries.get? e).map fun entry => { entry with canceled := entry.canceled || entries.contains e } := by
  unfold markCanceled
  generalize cq.entries = m
  induction entries generalizing m with
  | nil =>
    rw [foldl_nil]
    simp
  | cons x xs ih =>
    rw [foldl_cons, ih, get?_modify]
    by_cases heq : e = x
    . cases hm : m.get? x <;> simp [heq, hm]
    . simp [heq]

theorem path_markCanceled (cq : CommitQueue) (entries) (e)
    : (cq.markCanceled entries).path e = cq.path e := by
  unfold path
  rw [get?_markCanceled, Option.map_map]
  rfl

theorem isEntryCanceled_markCanceled (h : ∃ entry, cq.entries.get? e = some entry)
    (entries : List Nat)
    : (cq.markCanceled entries).isEntryCanceled e
      = (cq.isEntryCanceled e || entries.contains e) := by
  obtain ⟨entry, hentry⟩ := h
  unfold isEntryCanceled
  rw [get?_markCanceled, hentry]
  rfl

end Cancel

section Index

theorem queuedOf_addQueuedLocked (cq : CommitQueue) (entry) (p)
    : (cq.addQueuedLocked entry).queuedOf p
      = if p = cq.path entry then (cq.queuedOf p).insert entry else cq.queuedOf p := by
  unfold addQueuedLocked queuedOf
  rw [get?_set]
  split
  . next heq => rw [heq, Option.getD_some]
  . rfl

theorem mem_queuedOf_removeQueuedLocked (cq : CommitQueue)
    (h : e ∈ (cq.removeQueuedLocked entry).queuedOf p)
    : e ∈ cq.queuedOf p := by
  unfold removeQueuedLocked queuedOf at h
  dsimp only at h
  split at h
  . rw [get?_del] at h
    split at h
    . contradiction
    . exact h
  . rw [get?_set] at h
    split at h
    . next heq =>
      rw [heq]
      exact mem_of_mem_erase h
    . exact h

theorem mem_queuedOf_removeQueuedLocked_of_ne (h : e ∈ cq.queuedOf p) (hne : e ≠ entry)
    : e ∈ (cq.removeQueuedLocked entry).queuedOf p := by
  have herase : p = cq.path entry → e ∈ (cq.queuedOf (cq.path entry)).erase entry := by
    rintro rfl
    exact (mem_erase_of_ne hne).mpr h
  unfold removeQueuedLocked
  unfold queuedOf at h ⊢
  dsimp only
  split
  . next hnil =>
    rw [get?_del]
    split
    . next heq =>
      have hmem := herase heq
      unfold queuedOf at hmem
      rw [hnil] at hmem
      contradiction
    . exact h
  . rw [get?_set]
    split
    . next heq => exact herase heq
    . exact h

theorem foldl_addQueuedLocked {queue : List Nat} (h : Indexes cq.path queue cq.queuedByPath)
    (l : List Nat)
    : ∃ queuedByPath, l.foldl addQueuedLocked cq = { cq with queuedByPath }
      ∧ Indexes cq.path (queue ++ l) queuedByPath := by
  induction l generalizing cq queue with
  | nil =>
    rw [append_nil]
    exact ⟨cq.queuedByPath, rfl, h⟩
  | cons e l ih =>
    rw [append_cons]
    exact @ih (cq.addQueuedLocked e) _ (h.add e)

theorem rebuildQueuedIndexLocked_eq (cq : CommitQueue)
    : ∃ queuedByPath, cq.rebuildQueuedIndexLocked = { cq with queuedByPath }
      ∧ Indexes cq.path cq.queue queuedByPath :=
  @foldl_addQueuedLocked { cq with queuedByPath := .empty } [] .empty cq.queue

end Index

section Steps

theorem get?_newEntry (cq : CommitQueue) (path) (e)
    : (cq.newEntry path).entries.get? e
      = if e = cq.nextEntry then some ⟨path, false⟩ else cq.entries.get? e :=
  get?_set ..

theorem get?_newEntry_of_lt (path) (he : e < cq.nextEntry)
    : (cq.newEntry path).entries.get? e = cq.entries.get? e := by
  rw [get?_newEntry, if_neg (Nat.ne_of_lt he)]

theorem path_newEntry (path) (he : e < cq.nextEntry) : (cq.newEntry path).path e = cq.path e := by
  unfold CommitQueue.path
  rw [get?_newEntry_of_lt path he]

theorem isEntryCanceled_newEntry (path) (he : e < cq.nextEntry)
    : (cq.newEntry path).isEntryCanceled e = cq.isEntryCanceled e := by
  unfold isEntryCanceled
  rw [get?_newEntry_of_lt path he]

theorem Indexed.newEntry (h : Indexed cq) (path) : Indexed (cq.newEntry path) := by
  constructor
  case queue_nodup => exact h.queue_nodup
  case queue_lt => exact fun e he => Nat.lt_succ_of_lt (h.queue_lt e he)
  case known =>
    intro e he
    rw [get?_newEntry]
    split
    . exact ⟨_, rfl⟩
    . next hne => exact h.known e (Nat.lt_of_le_of_ne (Nat.le_of_lt_succ he) hne)
  case indexed =>
    intro e he
    rw [path_newEntry path (h.queue_lt e he)]
    exact h.indexed e he
  case index_path =>
    intro p e he
    have hold := h.index_path p e he
    exact ⟨Nat.lt_succ_of_lt hold.1, (path_newEntry path hold.1).trans hold.2⟩

theorem Inv.newEntry (h : Inv cq) (path) : Inv (cq.newEntry path) := by
  have htaken : ∀ e, Taken cq e → Taken (cq.newEntry path) e :=
    fun e he => ⟨Nat.lt_succ_of_lt he.1, he.2⟩
  constructor
  case toIndexed => exact h.toIndexed.newEntry path
  case toCarried =>
    exact { h with
      buf_lt := fun e he => Nat.lt_succ_of_lt (h.buf_lt e he)
      held := fun phase hphase e he => htaken e (h.held phase hphase e he)
      inFlight := fun p e he => htaken e (h.inFlight p e he) }
  case room =>
    have hstale : stale (cq.newEntry path) = stale cq :=
      countP_congr fun e he => by rw [isEntryCanceled_newEntry path (h.buf_lt e he)]
    rw [hstale]
    exact h.room
  case queued =>
    intro e he hc
    rw [isEntryCanceled_newEntry path (h.buf_lt e he)] at hc
    exact h.queued e he hc

-- What the locked sections leave alone.
structure Same (cq cq' : CommitQueue) : Prop where
  nextEntry : cq'.nextEntry = cq.nextEntry
  inFlight : cq'.inFlight = cq.inFlight
  maxPending : cq'.maxPending = cq.maxPending
  workers : cq'.workers = cq.workers

structure Enqueued (cq : CommitQueue) (entry : Nat)
    (cq' : CommitQueue) : Prop extends Same cq cq' where
  entries : cq'.entries = cq.entries
  queue : cq'.queue = cq.queue ++ [entry]
  index : ∀ p, cq'.queuedOf p = if p = cq.path entry then (cq.queuedOf p).insert entry else cq.queuedOf p
  workCh : cq'.workCh = { cq.workCh with buf := cq.workCh.buf ++ [entry] }

variable {cq' : CommitQueue}

-- What a send does to the channel depends on its room, the rest does not.
theorem enqueued_of_enqueue (henq : cq.enqueue entry = some cq')
    : cq.queue.length < cq.maxPending ∧ cq'.workCh = cq.workCh.send entry
      ∧ Enqueued cq entry { cq' with workCh := { cq.workCh with buf := cq.workCh.buf ++ [entry] } } := by
  unfold CommitQueue.enqueue at henq
  split at henq
  . contradiction
  . split at henq
    . contradiction
    . next hlen =>
      cases henq
      refine ⟨Int.not_le.mp hlen, rfl, ⟨rfl, rfl, rfl, rfl⟩, rfl, rfl, ?_, rfl⟩
      exact queuedOf_addQueuedLocked { cq with queue := cq.queue ++ [entry] } entry

theorem Inv.enqueued (h : Inv cq) (henq : cq.enqueue entry = some cq') : Enqueued cq entry cq' := by
  obtain ⟨hlen, hch, he⟩ := enqueued_of_enqueue henq
  rw [Chan.send_of_lt (h.lt_cap hlen)] at hch
  rw [← hch] at he
  exact he

section

variable (he : Enqueued cq entry cq')

include he

theorem Enqueued.path (e) : cq'.path e = cq.path e := by
  unfold CommitQueue.path
  rw [he.entries]

theorem Enqueued.isEntryCanceled : cq'.isEntryCanceled = cq.isEntryCanceled := by
  funext e
  unfold CommitQueue.isEntryCanceled
  rw [he.entries]

theorem Enqueued.keepsIndex (h : Indexed cq) (hlt : entry < cq.nextEntry)
    (hqueue : entry ∉ cq.queue)
    : Indexed cq' := by
  have hmemq : ∀ e, e ∈ cq'.queue ↔ e ∈ cq.queue ∨ e = entry := by
    intro e
    rw [he.queue, mem_append, mem_singleton]
  constructor
  case queue_nodup =>
    rw [he.queue, ← concat_eq_append]
    exact h.queue_nodup.concat hqueue
  case queue_lt =>
    intro e hq
    rw [he.nextEntry]
    rw [hmemq] at hq
    cases hq with
    | inl hq => exact h.queue_lt e hq
    | inr heq => exact heq ▸ hlt
  case known =>
    rw [he.nextEntry, he.entries]
    exact h.known
  case indexed =>
    intro e hq
    rw [he.index, he.path]
    rw [hmemq] at hq
    split
    . rw [mem_insert_iff]
      exact hq.symm.imp_right (h.indexed e)
    . next hne =>
      cases hq with
      | inl hq => exact h.indexed e hq
      | inr heq => exact absurd (congrArg cq.path heq) hne
  case index_path =>
    intro p e hp
    rw [he.nextEntry, he.path]
    rw [he.index] at hp
    split at hp
    . next heq =>
      rw [mem_insert_iff] at hp
      cases hp with
      | inl hentry => exact ⟨hentry ▸ hlt, by rw [hentry, heq]⟩
      | inr hp => exact h.index_path p e hp
    . exact h.index_path p e hp

theorem Enqueued.inv (h : Inv cq) (hlt : entry < cq.nextEntry)
    (hbuf : entry ∉ cq.workCh.buf) (hqueue : entry ∉ cq.queue)
    (hcanceled : cq.isEntryCanceled entry = false)
    (hheld : ∀ phase ∈ cq.workers, phase.entry ≠ some entry)
    (hflight : ∀ p, cq.inFlight.get? p ≠ some entry)
    : Inv cq' := by
  have hmem : ∀ e, e ∈ cq'.workCh.buf ↔ e ∈ cq.workCh.buf ∨ e = entry := by
    intro e
    rw [he.workCh, mem_append, mem_singleton]
  have hmemq : ∀ e, e ∈ cq'.queue ↔ e ∈ cq.queue ∨ e = entry := by
    intro e
    rw [he.queue, mem_append, mem_singleton]
  have htaken : ∀ e, Taken cq e → e ≠ entry → Taken cq' e := by
    intro e ht hne
    refine ⟨he.nextEntry ▸ ht.1, ?_⟩
    rw [hmem]
    exact not_or.mpr ⟨ht.2, hne⟩
  refine { he.keepsIndex h.toIndexed hlt hqueue with
    sender := ?sender, buf_nodup := ?buf_nodup, buf_lt := ?buf_lt, held := ?held, inFlight := ?inFlight
    room := ?room, queued := ?queued }
  case room =>
    have hstale : stale cq' = stale cq := by
      unfold stale
      rw [he.isEntryCanceled, he.workCh, countP_append, countP_singleton, hcanceled]
      rfl
    rw [hstale, he.maxPending, he.workCh]
    exact h.room
  case sender =>
    rw [he.workCh]
    exact h.sender
  case queued =>
    intro e hbuf hc
    rw [he.isEntryCanceled] at hc
    rw [hmem] at hbuf
    rw [hmemq]
    exact hbuf.imp_left fun hbuf => h.queued e hbuf hc
  case buf_nodup =>
    have hnd := h.buf_nodup.concat hbuf
    rw [concat_eq_append] at hnd
    rw [he.workCh]
    exact hnd
  case buf_lt =>
    intro e hbuf
    rw [he.nextEntry]
    rw [hmem] at hbuf
    cases hbuf with
    | inl hbuf => exact h.buf_lt e hbuf
    | inr heq => exact heq ▸ hlt
  case held =>
    intro phase hphase e hentry
    rw [he.workers] at hphase
    apply htaken e (h.held phase hphase e hentry)
    rintro rfl
    exact hheld phase hphase hentry
  case inFlight =>
    intro p e hp
    rw [he.inFlight] at hp
    apply htaken e (h.inFlight p e hp)
    rintro rfl
    exact hflight p hp

end

theorem Inv.step_enqueue (h : Inv cq) (path)
    : Inv (((cq.newEntry path).enqueue cq.nextEntry).getD (cq.newEntry path)) := by
  have hnew := h.newEntry path
  have hfresh : ∀ e, Taken cq e → e ≠ cq.nextEntry := fun e he => Nat.ne_of_lt he.1
  cases henq : (cq.newEntry path).enqueue cq.nextEntry with
  | none => exact hnew
  | some cq' =>
    apply (hnew.enqueued henq).inv hnew
    . exact Nat.lt_succ_self _
    . exact fun hbuf => Nat.lt_irrefl _ (h.buf_lt _ hbuf)
    . exact fun hqueue => Nat.lt_irrefl _ (h.queue_lt _ hqueue)
    . unfold isEntryCanceled CommitQueue.newEntry
      rw [get?_set_self]
      rfl
    . exact fun phase hphase heq => hfresh _ (h.held phase hphase _ heq) rfl
    . exact fun p hp => hfresh _ (h.inFlight p _ hp) rfl

structure SameChannel (cq cq' : CommitQueue) : Prop extends Same cq cq' where
  workCh : cq'.workCh = cq.workCh

section

variable (hs : SameChannel cq cq')

include hs

theorem SameChannel.taken (ht : Taken cq e) : Taken cq' e := by
  unfold Taken
  rw [hs.nextEntry, hs.workCh]
  exact ht

theorem SameChannel.carried (h : Carried cq) : Carried cq' := by
  constructor
  . rw [hs.workCh]
    exact h.sender
  . rw [hs.workCh]
    exact h.buf_nodup
  . rw [hs.workCh, hs.nextEntry]
    exact h.buf_lt
  . intro phase hphase e he
    rw [hs.workers] at hphase
    exact hs.taken (h.held phase hphase e he)
  . intro p e he
    rw [hs.inFlight] at he
    exact hs.taken (h.inFlight p e he)

end

structure Canceled (cq : CommitQueue) (gone : Nat → Bool)
    (cq' : CommitQueue) : Prop extends SameChannel cq cq' where
  known : ∀ e, (∃ entry, cq.entries.get? e = some entry) → ∃ entry, cq'.entries.get? e = some entry
  path : ∀ e, cq'.path e = cq.path e
  canceled_of : ∀ e ∈ cq.workCh.buf, cq'.isEntryCanceled e = true
    → cq.isEntryCanceled e = true ∨ gone e = true
  still : ∀ e, cq.isEntryCanceled e = true → cq'.isEntryCanceled e = true
  marked : ∀ e ∈ cq.queue, gone e = true → cq'.isEntryCanceled e = true
  queue : ∀ e, e ∈ cq'.queue ↔ e ∈ cq.queue ∧ gone e = false
  nodup : cq.queue.Nodup → cq'.queue.Nodup
  indexed : ∀ e ∈ cq'.queue, e ∈ cq'.queuedOf (cq.path e)
  index_path : ∀ p, ∀ e ∈ cq'.queuedOf p, e < cq.nextEntry ∧ cq.path e = p

-- What is then canceled in the channel still leaves room for a full queue.
def Spare (cq : CommitQueue) (gone : Nat → Bool) : Prop :=
  (cq.workCh.buf.countP fun e => cq.isEntryCanceled e || gone e : Nat) + cq.maxPending ≤ cq.workCh.cap

section

variable (hc : Canceled cq gone cq')

include hc

theorem Canceled.keepsIndex (h : Indexed cq) : Indexed cq' := by
  constructor
  case queue_nodup => exact hc.nodup h.queue_nodup
  case queue_lt =>
    intro e he
    rw [hc.nextEntry]
    exact h.queue_lt e ((hc.queue e).mp he).1
  case known =>
    intro e he
    rw [hc.nextEntry] at he
    exact hc.known e (h.known e he)
  case indexed =>
    intro e he
    rw [hc.path]
    exact hc.indexed e he
  case index_path =>
    intro p e he
    rw [hc.nextEntry, hc.path]
    exact hc.index_path p e he

theorem Canceled.live (hlive : cq.isEntryCanceled e = false → e ∈ cq.queue)
    (hcan : cq'.isEntryCanceled e = false)
    : e ∈ cq'.queue := by
  have hold : cq.isEntryCanceled e = false := by
    apply Bool.eq_false_iff.mpr
    intro hold
    rw [hc.still e hold] at hcan
    contradiction
  have hq := hlive hold
  refine (hc.queue e).mpr ⟨hq, Bool.eq_false_iff.mpr fun hgone => ?_⟩
  rw [hc.marked e hq hgone] at hcan
  contradiction

theorem Canceled.inv (h : Inv cq) (hspare : Spare cq gone) : Inv cq' := by
  constructor
  case toIndexed => exact hc.keepsIndex h.toIndexed
  case toCarried => exact hc.carried h.toCarried
  case room =>
    have hle : stale cq' ≤ cq.workCh.buf.countP fun e => cq.isEntryCanceled e || gone e := by
      unfold stale
      rw [hc.workCh]
      apply countP_mono_left
      intro e he hcan
      rw [Bool.or_eq_true]
      exact hc.canceled_of e he hcan
    unfold Spare at hspare
    rw [hc.maxPending, hc.workCh]
    omega
  case queued =>
    intro e he
    rw [hc.workCh] at he
    exact hc.live (h.queued e he)

end

theorem isEntryCanceled_markCanceled_of (entries) (h : cq.isEntryCanceled e = true)
    : (cq.markCanceled entries).isEntryCanceled e = true := by
  unfold isEntryCanceled at h ⊢
  rw [get?_markCanceled]
  cases hget : cq.entries.get? e with
  | none =>
    rw [hget] at h
    contradiction
  | some entry =>
    rw [hget] at h
    have hcan : entry.canceled = true := h
    simp [hcan]

theorem known_markCanceled (entries) (h : ∃ entry, cq.entries.get? e = some entry)
    : ∃ entry, (cq.markCanceled entries).entries.get? e = some entry := by
  obtain ⟨entry, hentry⟩ := h
  rw [get?_markCanceled, hentry]
  exact ⟨_, rfl⟩

theorem Filed.canceled (h : Filed cq) {inFlight queued queue : List Nat}
    (index : FMap String (List Nat))
    (hflight : ∀ e ∈ inFlight, e ∉ cq.workCh.buf) (hof : ∀ e ∈ queued, gone e = true)
    (hall : ∀ e ∈ cq.queue, gone e = true → e ∈ queued)
    (hqueue : ∀ e, e ∈ queue ↔ e ∈ cq.queue ∧ gone e = false)
    (hnodup : cq.queue.Nodup → queue.Nodup)
    (hindexed : ∀ e ∈ queue, e ∈ (index.get? (cq.path e)).getD [])
    (hindex_path : ∀ p, ∀ e ∈ (index.get? p).getD [], e < cq.nextEntry ∧ cq.path e = p)
    : Canceled cq gone { cq.markCanceled (inFlight ++ queued) with queue, queuedByPath := index } := by
  have hmark : ∀ e, e < cq.nextEntry → ((cq.markCanceled (inFlight ++ queued)).isEntryCanceled e = true
      ↔ cq.isEntryCanceled e = true ∨ e ∈ inFlight ∨ e ∈ queued) := by
    intro e he
    rw [isEntryCanceled_markCanceled (h.known e he), Bool.or_eq_true, contains_iff_mem, mem_append]
  refine ⟨⟨⟨rfl, rfl, rfl, rfl⟩, rfl⟩, fun e => known_markCanceled _, path_markCanceled cq _, ?_,
    fun e => isEntryCanceled_markCanceled_of _, ?_, hqueue, hnodup, hindexed, hindex_path⟩
  . intro e he hcan
    refine ((hmark e (h.buf_lt e he)).mp hcan).imp_right fun hmem => ?_
    cases hmem with
    | inl hin => exact absurd he (hflight e hin)
    | inr hin => exact hof e hin
  . exact fun e he hgone => (hmark e (h.queue_lt e he)).mpr (.inr (.inr (hall e he hgone)))

theorem Filed.canceled_cancelPath (h : Filed cq) (path)
    : Canceled cq (fun e => cq.path e == path) (cq.cancelPath path) := by
  have hflight : ∀ e ∈ (cq.inFlight.get? path).toList, e ∉ cq.workCh.buf :=
    fun e he => (h.inFlight path e (Option.mem_toList.mp he)).2
  have hof : ∀ e ∈ cq.queuedOf path, (cq.path e == path) = true :=
    fun e he => beq_of_eq (h.index_path path e he).2
  have hall : ∀ e ∈ cq.queue, (cq.path e == path) = true → e ∈ cq.queuedOf path :=
    fun e he heq => eq_of_beq heq ▸ h.indexed e he
  unfold cancelPath
  dsimp only
  split
  . next hnil =>
    refine h.canceled cq.queuedByPath hflight hof hall ?_ id h.indexed h.index_path
    intro e
    refine ⟨fun he => ⟨he, Bool.eq_false_iff.mpr fun heq => ?_⟩, And.left⟩
    -- an entry of the path would be in the index
    have hmem := hall e he heq
    rw [hnil] at hmem
    contradiction
  . have hqueue : ∀ e, e ∈ cq.queue.filter (fun e => decide ((cq.markCanceled
        ((cq.inFlight.get? path).toList ++ cq.queuedOf path)).path e ≠ path))
        ↔ e ∈ cq.queue ∧ (cq.path e == path) = false := by
      intro e
      rw [mem_filter, path_markCanceled, decide_eq_true_iff, beq_eq_false_iff_ne]
    refine h.canceled _ hflight hof hall hqueue (fun hnd => hnd.filter _) ?_ ?_
    . intro e he
      obtain ⟨hold, hne⟩ := (hqueue e).mp he
      rw [get?_del, if_neg (beq_eq_false_iff_ne.mp hne)]
      exact h.indexed e hold
    . intro p e he
      apply h.index_path p e
      rw [get?_del] at he
      split at he
      . contradiction
      . exact he

theorem Filed.canceled_cancelPrefix (h : Filed cq) (dir)
    : Canceled cq (fun e => below dir (cq.path e)) (cq.cancelPrefix dir) := by
  unfold cancelPrefix
  dsimp only
  have hpath :=
    funext (path_markCanceled cq ((cq.inFlight.keys.filter (below dir)).filterMap cq.inFlight.get?
    ++ cq.queue.filter fun e => below dir (cq.path e)))
  rw [hpath]
  obtain ⟨queuedByPath, heq, hindex⟩ := rebuildQueuedIndexLocked_eq _
  have hqueue : ∀ e, e ∈ cq.queue.filter (fun e => !below dir (cq.path e))
      ↔ e ∈ cq.queue ∧ below dir (cq.path e) = false := by
    intro e
    rw [mem_filter, Bool.not_eq_true']
  rw [heq]
  refine h.canceled queuedByPath ?_ (fun e he => (mem_filter.mp he).2)
    (fun e he hgone => mem_filter.mpr ⟨he, hgone⟩) hqueue (fun hnd => hnd.filter _) ?_ ?_
  . intro e he
    obtain ⟨p, _, hp⟩ := mem_filterMap.mp he
    exact (h.inFlight p e hp).2
  . intro e he
    exact (hindex.mem (cq.path e) e).mpr ⟨he, congrFun hpath e⟩
  . intro p e he
    obtain ⟨hmem, hp⟩ := (hindex.mem p e).mp he
    exact ⟨h.queue_lt e ((hqueue e).mp hmem).1, (congrFun hpath e).symm.trans hp⟩

structure Removed (cq : CommitQueue) (entry : Nat)
    (cq' : CommitQueue) : Prop extends SameChannel cq cq' where
  entries : cq'.entries = cq.entries
  queue : cq'.queue.Sublist cq.queue
  others : ∀ e ∈ cq.queue, e ≠ entry → e ∈ cq'.queue
  indexed : ∀ e ∈ cq'.queue, ∀ p, e ∈ cq.queuedOf p → e ∈ cq'.queuedOf p
  index_sub : ∀ p, ∀ e ∈ cq'.queuedOf p, e ∈ cq.queuedOf p

theorem Filed.removed (h : Filed cq) (entry) : Removed cq entry (cq.removeFromQueue entry) := by
  unfold CommitQueue.removeFromQueue
  split
  . refine ⟨⟨⟨rfl, rfl, rfl, rfl⟩, rfl⟩, rfl, erase_sublist,
      fun e he hne => (mem_erase_of_ne hne).mpr he, ?_, ?_⟩
    . intro e he p hp
      apply mem_queuedOf_removeQueuedLocked_of_ne hp
      rintro rfl
      exact h.queue_nodup.not_mem_erase he
    . exact fun p e he => mem_queuedOf_removeQueuedLocked { cq with queue := cq.queue.erase entry } he
  . exact ⟨⟨⟨rfl, rfl, rfl, rfl⟩, rfl⟩, rfl, List.Sublist.refl _, fun _ he _ => he,
      fun _ _ _ hp => hp, fun _ _ he => he⟩

section

variable (hr : Removed cq entry cq')

include hr

theorem Removed.path (e) : cq'.path e = cq.path e := by
  unfold CommitQueue.path
  rw [hr.entries]

theorem Removed.isEntryCanceled : cq'.isEntryCanceled = cq.isEntryCanceled := by
  funext e
  unfold CommitQueue.isEntryCanceled
  rw [hr.entries]

theorem Removed.keepsIndex (h : Indexed cq) : Indexed cq' := by
  constructor
  case queue_nodup => exact h.queue_nodup.sublist hr.queue
  case queue_lt =>
    intro e he
    rw [hr.nextEntry]
    exact h.queue_lt e (hr.queue.subset he)
  case known =>
    rw [hr.entries, hr.nextEntry]
    exact h.known
  case indexed =>
    intro e he
    rw [hr.path]
    exact hr.indexed e he _ (h.indexed e (hr.queue.subset he))
  case index_path =>
    intro p e he
    rw [hr.nextEntry, hr.path]
    exact h.index_path p e (hr.index_sub p e he)

theorem Removed.inv (h : Inv cq) (hentry : entry ∉ cq.workCh.buf) : Inv cq' := by
  constructor
  case toIndexed => exact hr.keepsIndex h.toIndexed
  case toCarried => exact hr.carried h.toCarried
  case room =>
    unfold stale
    rw [hr.isEntryCanceled, hr.workCh, hr.maxPending]
    exact h.room
  case queued =>
    intro e he hc
    rw [hr.workCh] at he
    rw [hr.isEntryCanceled] at hc
    apply hr.others e (h.queued e he hc)
    rintro rfl
    exact hentry he

end

theorem Inv.setWorker (h : Inv cq) (w) (hphase : ∀ e, phase.entry = some e → Taken cq e)
    : Inv (cq.setWorker w phase) := by
  refine { h with held := ?_ }
  intro phase' hmem e he
  cases mem_or_eq_of_mem_set hmem with
  | inl hold => exact h.held phase' hold e he
  | inr heq => exact hphase e (heq ▸ he)

theorem Inv.setInFlight (h : Inv cq) {inFlight : FMap String Nat}
    (hflight : ∀ p e, inFlight.get? p = some e → Taken cq e)
    : Inv { cq with inFlight } :=
  { h with inFlight := hflight }

theorem Inv.receive (h : Inv cq) {workCh : Chan Nat} (hr : cq.workCh.receive = some (entry, workCh))
    : Inv { cq with workCh } ∧ Taken { cq with workCh } entry := by
  obtain ⟨hbuf, hcap, hsender⟩ := Chan.receive_eq_some h.sender hr
  have hsub : ∀ e ∈ workCh.buf, e ∈ cq.workCh.buf := by
    intro e he
    rw [hbuf]
    exact mem_cons_of_mem _ he
  have hnd := h.buf_nodup
  rw [hbuf, nodup_cons] at hnd
  have htaken : ∀ e, Taken cq e → Taken { cq with workCh } e :=
    fun e ht => ⟨ht.1, fun he => ht.2 (hsub e he)⟩
  refine ⟨?_, h.buf_lt entry (by rw [hbuf]; exact mem_cons_self), hnd.1⟩
  refine { h with
    sender := hsender, buf_nodup := hnd.2, buf_lt := fun e he => h.buf_lt e (hsub e he)
    held := fun phase hphase e he => htaken e (h.held phase hphase e he)
    inFlight := fun p e he => htaken e (h.inFlight p e he)
    room := ?_, queued := fun e he hc => h.queued e (hsub e he) hc }
  have hstale : stale { cq with workCh } ≤ stale cq := by
    unfold stale
    rw [hbuf]
    exact List.Sublist.countP_le (sublist_cons_self ..)
  have hroom := h.room
  dsimp only
  rw [hcap]
  omega

theorem Inv.setWorker_entry (h : Inv cq) (w) (hphase : phase.entry = some entry)
    (ht : Taken cq entry)
    : Inv (cq.setWorker w phase) := by
  apply h.setWorker
  intro e he
  rw [hphase] at he
  exact Option.some.inj he ▸ ht

theorem Inv.workerStep (h : Inv cq) {step : WorkerStep} (hstep : workerStep cq w step = some cq')
    : Inv cq' := by
  have hheld : ∀ {phase e}, cq.workers[w]? = some phase → phase.entry = some e → Taken cq e :=
    fun hw he => h.held _ (mem_of_getElem? hw) _ he
  unfold Dispatch.workerStep at hstep
  split at hstep
  . split at hstep
    . contradiction
    . next entry workCh hr =>
      cases hstep
      obtain ⟨hinv, htaken⟩ := h.receive hr
      exact hinv.setWorker_entry w rfl htaken
  . next entry hw =>
    cases hstep
    split
    all_goals exact h.setWorker_entry w rfl (hheld hw rfl)
  . next entry hw =>
    cases hstep
    apply ((h.filed.removed entry).inv h (hheld hw rfl).2).setWorker
    intro e he
    contradiction
  . next entry hw =>
    cases hstep
    have hinv : Inv { cq with inFlight := cq.inFlight.set (cq.path entry) entry } := by
      apply h.setInFlight
      exact forall_set h.inFlight (hheld hw rfl)
    exact hinv.setWorker_entry w rfl (hheld hw rfl)
  . next entry hw =>
    cases hstep
    have hremoved := h.filed.removed entry
    exact (hremoved.inv h (hheld hw rfl).2).setWorker_entry w rfl (hremoved.taken (hheld hw rfl))
  . next entry hw =>
    cases hstep
    apply Inv.setWorker
    . apply h.setInFlight
      intro p e hp
      split at hp
      . exact h.inFlight p e (of_get?_del hp).2
      . exact h.inFlight p e hp
    . intro e he
      contradiction
  . contradiction

/--
The cancellations that leave room for a full queue.
-/
def CancelOk (cq : CommitQueue) : Label → Prop
  | .cancelPath path => Spare cq fun e => cq.path e == path
  | .cancelPrefix dir => Spare cq fun e => below dir (cq.path e)
  | _ => True

instance decidableSpare (cq : CommitQueue) (gone : Nat → Bool) : Decidable (Spare cq gone) :=
  inferInstanceAs (Decidable (_ ≤ _))

instance decidableCancelOk (cq : CommitQueue) (label : Label) : Decidable (CancelOk cq label) := by
  unfold CancelOk
  split <;> infer_instance

theorem Inv.step (h : Inv cq) (hok : CancelOk cq label) (hstep : step cq label = some cq')
    : Inv cq' := by
  unfold Dispatch.step at hstep
  split at hstep
  . exact h.workerStep hstep
  . split at hstep
    . contradiction
    . split at hstep
      . cases hstep
        exact h.step_enqueue _
      . cases hstep
        exact (h.filed.canceled_cancelPath _).inv h hok
      . cases hstep
        exact (h.filed.canceled_cancelPrefix _).inv h hok
      . cases hstep
        exact { h with }
      . exact h.workerStep hstep

theorem inv_newCommitQueue (numWorkers) {maxPending : Int} (hmax : maxPending < 2 ^ 62)
    : Inv (newCommitQueue numWorkers maxPending) := by
  constructor
  case room =>
    unfold newCommitQueue stale
    dsimp only
    rw [Chan.make, countP_nil]
    dsimp only
    have hi : ∀ m : Int, 0 < m → m < 2 ^ 62 → i64 (m * 2) = m * 2 := by
      intro m hpos hlt
      apply i64_eq
      . omega
      . unfold maxInt64
        omega
    split
    . decide
    . next hpos =>
      rw [hi maxPending (Int.not_le.mp hpos) hmax]
      split
      . omega
      . omega
  case toIndexed =>
    refine ⟨nodup_nil, ?_, fun e he => absurd he (Nat.not_lt_zero e), ?_, ?_⟩
    all_goals
      intros
      contradiction
  case toCarried =>
    refine ⟨rfl, nodup_nil, fun e he => absurd he not_mem_nil, ?_, ?_⟩
    . intro phase hphase e he
      rw [eq_of_mem_replicate hphase] at he
      contradiction
    . intros
      contradiction
  case queued =>
    intros
    contradiction

end Steps

theorem deadlock (hsender : cq.workCh.sender.isSome) (hworkers : .idle ∉ cq.workers) (label)
    : step cq label = none := by
  unfold step
  split
  . next w =>
    unfold workerStep
    split
    . next hw _ => exact absurd (mem_of_getElem? hw) hworkers
    all_goals
      first
      | contradiction
      | rfl
  . rw [if_pos hsender]

/--
For every number of workers and every bound whose double is an `int`, after any interleaving in
which the cancellations leave room for a full queue.
-/
theorem enqueue_never_blocks (numWorkers maxPending : Int) (hmax : maxPending < 2 ^ 62)
    (labels : List Label)
    (cq : CommitQueue) (hexec : Lts.exec step (newCommitQueue numWorkers maxPending) labels = some cq)
    (hok : Lts.Along step CancelOk (newCommitQueue numWorkers maxPending) labels)
    : cq.workCh.sender = none
      ∧ (cq.stopped = false → (cq.queue.length : Int) < cq.maxPending → cq.workCh.buf.length < cq.workCh.cap) := by
  have h : Inv cq :=
    Lts.exec_invariant CancelOk Inv (fun _ _ _ h hok hstep => h.step hok hstep) (inv_newCommitQueue numWorkers hmax)
      hok hexec
  exact ⟨h.sender, fun _ hlen => h.lt_cap hlen⟩

theorem enqueue_never_blocks_canceled
    : ∃ cq, Lts.exec step (newCommitQueue 1 1) [.enqueue "/a/x", .cancelPath "/a/x", .enqueue "/a/y",
          .worker 0 .receive, .worker 0 .check, .cancelPrefix "/a/"] = some cq
        ∧ cq.workCh.buf = [1] ∧ cq.workCh.sender = none ∧ cq.workCh.buf.length < cq.workCh.cap := by
  apply Lts.exists_of_any
    (fun cq => cq.workCh.buf = [1] ∧ cq.stopped = false ∧ (cq.queue.length : Int) < cq.maxPending)
    (by decide +kernel)
  intro cq hexec ⟨hbuf, hstopped, hlen⟩
  have hall := enqueue_never_blocks 1 1 (by decide) _ cq hexec (by decide +kernel)
  exact ⟨hbuf, hall.1, hall.2 hstopped hlen⟩

-- The entries of 256 canceled commits are still in the channel: the next `Enqueue` waits with the
-- lock that the only worker needs. In the second run no entry is canceled, but the capacity has
-- overflowed.
theorem canceled_entries_fill_channel
    : (∃ cq cq', Lts.exec step (newCommitQueue 1 1) ([.enqueue "/w", .worker 0 .receive, .cancelPath "/w"]
            ++ (List.replicate 256 [.enqueue "/p", .cancelPath "/p"]).flatten) = some cq
        ∧ cq.stopped = false ∧ (cq.queue.length : Int) < cq.maxPending
        ∧ ¬ cq.workCh.buf.length < cq.workCh.cap
        ∧ step cq (.enqueue "/p") = some cq' ∧ cq'.workCh.sender = some 257
        ∧ ∀ label, step cq' label = none)
      ∧ ∃ cq, Lts.exec step (newCommitQueue 1 (2 ^ 62)) (List.replicate 256 (.enqueue "/p"))
        = some cq
        ∧ cq.stopped = false ∧ (cq.queue.length : Int) < cq.maxPending
        ∧ ¬ cq.workCh.buf.length < cq.workCh.cap := by
  have hrun : (Lts.exec step (newCommitQueue 1 1) ([.enqueue "/w", .worker 0 .receive, .cancelPath "/w"]
      ++ (List.replicate 256 [.enqueue "/p", .cancelPath "/p"]).flatten)).any
      (fun cq => cq.stopped = false ∧ (cq.queue.length : Int) < cq.maxPending
        ∧ ¬ cq.workCh.buf.length < cq.workCh.cap ∧ (step cq (.enqueue "/p")).any
          fun cq' => cq'.workCh.sender = some 257 ∧ .idle ∉ cq'.workers) = true := by
    decide +kernel
  obtain ⟨cq, hexec, hcq⟩ := (Option.any_eq_true _ _).mp hrun
  obtain ⟨hstopped, hlen, hfull, hstep⟩ := of_decide_eq_true hcq
  obtain ⟨cq', hstep, hcq'⟩ := (Option.any_eq_true _ _).mp hstep
  obtain ⟨hsender, hworkers⟩ := of_decide_eq_true hcq'
  constructor
  . refine ⟨cq, cq', hexec, hstopped, hlen, hfull, hstep, hsender, ?_⟩
    exact deadlock (by rw [hsender]; rfl) hworkers
  . exact Lts.exists_of_any _ (by decide +kernel) fun _ _ h => h

end Dispatch
