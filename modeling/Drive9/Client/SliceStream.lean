import Drive9.Lib.Flat
import Drive9.Lib.Lts

/-!
This module contains `sliceStream` of the JavaScript client (`src/transfer.ts`), pulled by the
runtime for a consumer that keeps reading.
-/

open List

namespace SliceStream

variable {α : Type}

structure State (α : Type) where
  body : List (List α)
  skipped : Nat
  emitted : Nat
  -- the chunks enqueued; the consumer has got the first `reads` of them, or has asked for one more
  sent : List (List α)
  reads : Nat
  -- 1 while a pull is running, 2 if another one is remembered
  pulls : Nat
  closed : Bool

inductive Label where
  | pulled
  | read

def start (body : List (List α)) : State α := ⟨body, 0, 0, [], 0, 1, false⟩

namespace State

def callPull (s : State α) : State α :=
  if s.closed then s else { s with pulls := min 2 (s.pulls + 1) }

def enqueue (s : State α) (chunk : List α) : State α :=
  { s with sent := s.sent ++ [chunk] }.callPull

-- The callback of `reader.read()`.
def onRead (offset length : Nat) (s : State α) : State α :=
  match s.body with
  | [] => { s with closed := true }
  | value :: body =>
    let toSkip := if s.skipped < offset then min value.length (offset - s.skipped) else 0
    let buf := value.drop toSkip
    let s := { s with body, skipped := s.skipped + toSkip }
    let toEmit := if s.emitted < length then min buf.length (length - s.emitted) else 0
    let s := if toEmit > 0 then { s.enqueue (buf.take toEmit) with emitted := s.emitted + toEmit } else s
    if s.emitted ≥ length then { s with closed := true } else s

def settle (s : State α) : State α := { s with pulls := if s.closed then 0 else s.pulls - 1 }

def step (offset length : Nat) (s : State α) : Label → Option (State α)
  | .pulled => if s.pulls > 0 then some (s.onRead offset length).settle else none
  | .read => if s.reads ≤ s.sent.length then some { s with reads := s.reads + 1 }.callPull else none

end State

-- The consumer cannot go on for ever, and when nothing happens any more it has got `bytes` and the
-- end.
def Delivers (offset length : Nat) (body : List (List α)) (bytes : List α) : Prop :=
  (∃ n, ∀ labels s, Lts.exec (State.step offset length) (start body) labels = some s → labels.length ≤ n)
    ∧ ∀ labels s, Lts.exec (State.step offset length) (start body) labels = some s
      → (∀ label, s.step offset length label = none)
      → (s.sent.take s.reads).flatten = bytes ∧ s.closed = true ∧ s.sent.length < s.reads

-- The number of chunks that end at or before the offset.
def before (offset : Nat) : List (List α) → Nat
  | [] => 0
  | chunk :: body => if chunk.length ≤ offset then before (offset - chunk.length) body + 1 else 0

variable {offset length : Nat} {s s' : State α} {value : List α} {body : List (List α)}
  {bytes : List α}

def State.rest (offset length : Nat) (s : State α) : List α :=
  (s.body.flatten.drop (offset - s.skipped)).take (length - s.emitted)

def State.todo (s : State α) : Nat :=
  2 * s.body.length + (s.sent.length + 1 - s.reads) + (!s.closed).toNat

structure Ok (offset length : Nat) (bytes : List α) (s : State α) : Prop where
  chunks : ∀ chunk ∈ s.body, chunk ≠ []
  isOpen : s.closed = false → s.emitted < length
  isClosed : s.closed = true → s.pulls = 0 ∧ s.rest offset length = []
  bytes : s.sent.flatten ++ s.rest offset length = bytes
  before : before (offset - s.skipped) s.body ≤ 1
  -- one pull for each chunk to skip, and one for the chunk that the consumer waits for
  pulls : s.closed = false → SliceStream.before (offset - s.skipped) s.body + (s.reads - s.sent.length) ≤ s.pulls
  reads : s.reads ≤ s.sent.length + 1

theorem before_zero (h : ∀ chunk ∈ body, chunk ≠ []) : before 0 body = 0 := by
  cases body with
  | nil => rfl
  | cons chunk body =>
    have hpos := length_pos_iff.mpr (h chunk mem_cons_self)
    rw [before, if_neg (by omega)]

theorem onRead_skip (hbody : s.body = value :: body) (hopen : s.emitted < length)
    (hvalue : value.length ≤ offset - s.skipped)
    : s.onRead offset length = { s with body, skipped := s.skipped + value.length } := by
  have hskip : (if s.skipped < offset then min value.length (offset - s.skipped) else 0)
      = value.length := by
    split <;> omega
  unfold State.onRead
  rw [hbody]
  dsimp only
  rw [hskip, if_pos hopen, drop_length, length_nil, Nat.zero_min, if_neg (Nat.lt_irrefl 0),
    if_neg (Nat.not_le.mpr hopen)]

theorem onRead_emit (hbody : s.body = value :: body) (hopen : s.emitted < length)
    (hclosed : s.closed = false) (hvalue : offset - s.skipped < value.length)
    (hchunk : (value.drop (offset - s.skipped)).take (length - s.emitted) = chunk)
    : s.onRead offset length =
        { s with
          body
          skipped := s.skipped + (offset - s.skipped)
          emitted := s.emitted + chunk.length
          sent := s.sent ++ [chunk]
          pulls := min 2 (s.pulls + 1)
          closed := decide (length ≤ s.emitted + chunk.length) } := by
  have hskip : (if s.skipped < offset then min value.length (offset - s.skipped) else 0)
      = offset - s.skipped := by
    split <;> omega
  have hlen : min (value.drop (offset - s.skipped)).length (length - s.emitted) = chunk.length := by
    rw [← hchunk, length_take, Nat.min_comm]
  have htake : (value.drop (offset - s.skipped)).take chunk.length = chunk := by
    rw [← hlen, Nat.min_comm, ← take_eq_take_min, hchunk]
  have hpos : chunk.length > 0 := by
    rw [← hlen, length_drop]
    omega
  unfold State.onRead State.enqueue State.callPull
  rw [hbody]
  dsimp only
  rw [hskip, if_pos hopen, hlen, if_pos hpos, htake, hclosed]
  by_cases hge : length ≤ s.emitted + chunk.length <;> simp [hge]

section

variable (h : Ok offset length bytes s)

include h

section

variable (hclosed : s.closed = false)

include hclosed

theorem Ok.skip (hbody : s.body = value :: body) (hvalue : value.length ≤ offset - s.skipped)
    : Ok offset length bytes (s.onRead offset length).settle
      ∧ (s.onRead offset length).settle.todo < s.todo := by
  have hbefore : SliceStream.before (offset - s.skipped) s.body
      = SliceStream.before (offset - (s.skipped + value.length)) body + 1 := by
    rw [hbody, SliceStream.before, if_pos hvalue, Nat.sub_sub]
  have hrest : s.rest offset length
      = (body.flatten.drop (offset - (s.skipped + value.length))).take (length - s.emitted) := by
    unfold State.rest
    rw [hbody, flatten_cons, drop_append, drop_of_length_le hvalue, nil_append, Nat.sub_sub]
  have hone := h.before
  have hpulls := h.pulls hclosed
  rw [onRead_skip hbody (h.isOpen hclosed) hvalue]
  constructor
  . exact
      { chunks := (forall_mem_cons.mp (hbody ▸ h.chunks)).2
        isOpen := h.isOpen
        isClosed := by simp [State.settle, hclosed]
        bytes := by rw [← h.bytes, hrest]; rfl
        before := by simp only [State.settle]; omega
        pulls := by simp [State.settle, hclosed]; omega
        reads := h.reads }
  . simp only [State.todo, State.settle, hbody, length_cons]
    omega

theorem Ok.emit (hbody : s.body = value :: body) (hvalue : offset - s.skipped < value.length)
    : Ok offset length bytes (s.onRead offset length).settle
      ∧ (s.onRead offset length).settle.todo < s.todo := by
  have hchunks := (forall_mem_cons.mp (hbody ▸ h.chunks)).2
  have hreads := h.reads
  have hskip : offset - (s.skipped + (offset - s.skipped)) = 0 := by omega
  generalize hchunk : (value.drop (offset - s.skipped)).take (length - s.emitted) = chunk
  have hrest : s.rest offset length = chunk ++ body.flatten.take (length - (s.emitted + chunk.length)) := by
    unfold State.rest
    rw [hbody, flatten_cons, drop_append_of_le_length (Nat.le_of_lt hvalue), take_append, hchunk]
    congr 2
    rw [← hchunk, length_take]
    omega
  rw [onRead_emit hbody (h.isOpen hclosed) hclosed hvalue hchunk]
  constructor
  . constructor
    case chunks => exact hchunks
    case isOpen => simp [State.settle]
    case isClosed =>
      intro hc
      have hzero := Nat.sub_eq_zero_of_le (of_decide_eq_true hc)
      simp only [State.settle] at hc ⊢
      rw [if_pos hc, State.rest, hzero, take_zero]
      exact ⟨rfl, rfl⟩
    case bytes =>
      rw [← h.bytes, hrest]
      simp [State.settle, State.rest, hskip]
    case before => simp [State.settle, hskip, before_zero hchunks]
    case pulls => simp [State.settle, hskip, before_zero hchunks, hreads]
    case reads =>
      simp [State.settle]
      omega
  . have := Bool.toNat_le (!decide (length ≤ s.emitted + chunk.length))
    simp only [State.todo, State.settle, hbody, length_cons, hclosed, length_append, length_nil,
      Bool.not_false, Bool.toNat_true]
    omega

theorem Ok.close (hbody : s.body = [])
    : Ok offset length bytes (s.onRead offset length).settle
      ∧ (s.onRead offset length).settle.todo < s.todo := by
  have hread : s.onRead offset length = { s with closed := true } := by
    unfold State.onRead
    rw [hbody]
  rw [hread]
  constructor
  . exact
      { h with
        isOpen := by simp [State.settle]
        isClosed := by simp [State.settle, State.rest, hbody]
        pulls := by simp [State.settle] }
  . simp [State.todo, State.settle, hclosed]

end

theorem Ok.read (hread : s.reads ≤ s.sent.length)
    : Ok offset length bytes { s with reads := s.reads + 1 }.callPull
      ∧ { s with reads := s.reads + 1 }.callPull.todo < s.todo := by
  unfold State.callPull
  split
  . next hclosed =>
    exact ⟨{ h with pulls := by simp_all, reads := by simpa using hread },
      by simp only [State.todo]; omega⟩
  . next hclosed =>
    have hone := h.before
    have hpulls := h.pulls (by simpa using hclosed)
    constructor
    . exact
        { h with
          isClosed := fun hc => absurd hc hclosed
          pulls := by dsimp only; omega
          reads := by simpa using hread }
    . simp only [State.todo]
      omega

theorem Ok.step (hstep : s.step offset length label = some s')
    : Ok offset length bytes s' ∧ s'.todo < s.todo := by
  unfold State.step at hstep
  split at hstep
  . split at hstep
    . next hpulls =>
      cases hstep
      have hclosed : s.closed = false := by
        apply Bool.eq_false_iff.mpr
        intro hc
        have := (h.isClosed hc).1
        omega
      cases hbody : s.body with
      | nil => exact h.close hclosed hbody
      | cons value body =>
        cases Nat.lt_or_ge (offset - s.skipped) value.length with
        | inl hvalue => exact h.emit hclosed hbody hvalue
        | inr hvalue => exact h.skip hclosed hbody hvalue
    . contradiction
  . split at hstep
    . next hread =>
      cases hstep
      exact h.read hread
    . contradiction

theorem Ok.delivered (hstuck : ∀ label, s.step offset length label = none)
    : (s.sent.take s.reads).flatten = bytes ∧ s.closed = true ∧ s.sent.length < s.reads := by
  have hpull : s.pulls = 0 := by simpa [State.step] using hstuck .pulled
  have hread : s.sent.length < s.reads := by simpa [State.step] using hstuck .read
  have hclosed : s.closed = true := by
    cases hc : s.closed with
    | true => rfl
    | false =>
      have := h.pulls hc
      omega
  refine ⟨?_, hclosed, hread⟩
  rw [← h.bytes, (h.isClosed hclosed).2, append_nil, take_of_length_le (Nat.le_of_lt hread)]

end

theorem ok_start (hbody : ∀ chunk ∈ body, chunk ≠ []) (hlength : 0 < length)
    (hone : before offset body ≤ 1)
    : Ok offset length (Flat.slice body.flatten offset (min (offset + length) body.flatten.length)) (start body) := by
  constructor
  case chunks => exact hbody
  case bytes =>
    change (body.flatten.drop offset).take length = (body.flatten.drop offset).take _
    rw [take_eq_take_iff, length_drop]
    omega
  all_goals simp [start, hlength, hone]

-- The pull at the start and the one for the read enqueue nothing, and no other follows.
theorem not_delivers (hlength : 0 < length) (hfirst : first.length ≤ offset)
    (hsecond : second.length ≤ offset - first.length)
    : ¬ Delivers offset length (first :: second :: body) bytes := by
  intro hdelivers
  have hread : ∀ value body skipped pulls, value.length ≤ offset - skipped
      → State.onRead offset length ⟨value :: body, skipped, 0, ([] : List (List α)), 1, pulls, false⟩
        = ⟨body, skipped + value.length, 0, [], 1, pulls, false⟩ := by
    intro _ _ _ _ hvalue
    exact onRead_skip rfl hlength hvalue
  have hexec : Lts.exec (State.step offset length) (start (first :: second :: body)) [.read, .pulled, .pulled]
      = some ⟨body, first.length + second.length, 0, [], 1, 0, false⟩ := by
    simp [Lts.exec, State.step, start, State.callPull, State.settle, hread, hfirst, hsecond]
  obtain ⟨_, hclosed, _⟩ := hdelivers.2 _ _ hexec fun label => by cases label <;> rfl
  contradiction

theorem slice_is_delivered_iff (body : List (List α)) (hbody : ∀ chunk ∈ body, chunk ≠ [])
    (offset length : Nat) (hlength : 0 < length)
    : Delivers offset length body (Flat.slice body.flatten offset (min (offset + length) body.flatten.length))
        ↔
      before offset body ≤ 1 := by
  constructor
  . intro hdelivers
    match body, hdelivers with
    | [], _ => exact Nat.zero_le 1
    | [first], _ =>
      rw [before]
      split <;> simp [before]
    | first :: second :: body, hdelivers =>
      rw [before]
      split
      . next hfirst =>
        apply Nat.le_of_eq
        rw [before, if_neg fun hsecond => not_delivers hlength hfirst hsecond hdelivers]
      . exact Nat.zero_le 1
  . intro hone
    have hruns : ∀ labels s, Lts.exec (State.step offset length) (start body) labels = some s → _ :=
      fun labels s => Lts.exec_length_le _ State.todo (fun _ _ _ h => h.step) (ok_start hbody hlength hone)
    refine ⟨⟨(start body).todo, ?_⟩, fun labels s hexec hstuck => (hruns labels s hexec).1.delivered hstuck⟩
    intro labels s hexec
    have := (hruns labels s hexec).2
    omega

theorem slice_is_delivered_iff_short
    : Delivers 2 3 [[1, 2], [3], [4, 5, 6]] [3, 4, 5]
      ∧ ¬ Delivers 3 3 [[1, 2], [3], [4, 5, 6]] [4, 5, 6] :=
  ⟨(slice_is_delivered_iff [[1, 2], [3], [4, 5, 6]] (by decide) 2 3 (by decide)).mpr (by decide),
    (slice_is_delivered_iff [[1, 2], [3], [4, 5, 6]] (by decide) 3 3 (by decide)).not.mpr (by decide)⟩

-- Both pulls skip a chunk, and the consumer waits for ever.
theorem skipped_chunks_stop_the_stream
    : ∃ s, Lts.exec (State.step 2 1) (start [[1], [2], [3]]) [.read, .pulled, .pulled] = some s
        ∧ (∀ label, s.step 2 1 label = none) ∧ s.sent = [] ∧ s.closed = false :=
  ⟨_, rfl, fun label => by cases label <;> rfl, rfl, rfl⟩

end SliceStream
