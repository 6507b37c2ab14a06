import Drive9.Server.Events.Impl

/-!
This module contains that a connection streams the events of the bus without a gap and without a
repetition.
-/

open List Option FMap

namespace Events

inductive Moves (events : List ChangeEvent) : Nat → Message → Nat → Prop where
  -- the next event
  | event {cursor ev} (hget : events[cursor]? = some ev) (hseq : ev.seq = cursor + 1)
      : Moves events cursor (sendSSEEvent ev) (cursor + 1)
  -- a reset stands for all events up to its number
  | reset {cursor seq reason} (hcursor : cursor ≤ seq) (hseq : seq ≤ events.length)
      : Moves events cursor (sendSSEReset seq reason) seq
  -- a cursor that is ahead of the bus is taken back
  | restart {cursor seq} (hcursor : seq < cursor) (hseq : seq ≤ events.length)
      : Moves events cursor (sendSSEReset seq .serverRestart) seq
  | heartbeat {cursor} : Moves events cursor (.heartbeat cursor) cursor

inductive Streams (events : List ChangeEvent) : Nat → List Message → Nat → Prop where
  | nil {cursor} : Streams events cursor [] cursor
  | cons {c c1 c' m ms} (hm : Moves events c m c1) (hms : Streams events c1 ms c')
      : Streams events c (m :: ms) c'

inductive Pending (events : List ChangeEvent) : Nat → List (Nat × Message) → Nat → Prop where
  | nil {cursor} : Pending events cursor [] cursor
  | cons {c c1 c' m ms} (hm : Moves events c m c1)
      (hms : Pending events c1 ms c')
      : Pending events c ((c1, m) :: ms) c'

section

variable {events : List ChangeEvent} {c c1 c' : Nat} {m : Message} {ms ms' : List Message}
  {rest : List (Nat × Message)}

variable {later : List ChangeEvent}

theorem Moves.append (h : Moves events c m c') (later) : Moves (events ++ later) c m c' := by
  cases h with
  | event hget hseq =>
    apply Moves.event _ hseq
    rw [List.getElem?_append_left (List.getElem?_eq_some_iff.mp hget).1]
    exact hget
  | reset hcursor hseq =>
    apply Moves.reset hcursor
    rw [List.length_append]
    omega
  | restart hcursor hseq =>
    apply Moves.restart hcursor
    rw [List.length_append]
    omega
  | heartbeat => exact .heartbeat

theorem Streams.append (h : Streams events c ms c') (later)
    : Streams (events ++ later) c ms c' := by
  induction h with
  | nil => exact .nil
  | cons hm _ ih => exact .cons (hm.append later) ih

theorem Pending.append (h : Pending events c rest c') (later)
    : Pending (events ++ later) c rest c' := by
  induction h with
  | nil => exact .nil
  | cons hm _ ih => exact .cons (hm.append later) ih

theorem Streams.concat (h : Streams events c ms c1) (hm : Moves events c1 m c')
    : Streams events c (ms ++ [m]) c' := by
  induction h with
  | nil => exact .cons hm .nil
  | cons hm' _ ih => exact .cons hm' (ih hm)

end

-- The events have the numbers of their places.
def Numbered (events : List ChangeEvent) : Prop :=
  ∀ (i : Nat) (ev : ChangeEvent), events[i]? = some ev → ev.seq = i + 1

structure EventBus.Ok (size : Nat) (events : List ChangeEvent) (eb : EventBus) : Prop where
  seq : eb.seq = events.length
  window : eb.ring.Window size events
  numbered : Numbered events

section

variable {size : Nat} {events : List ChangeEvent} {eb : EventBus}

theorem Numbered.filter_drop (h : Numbered events) (hle : k ≤ since)
    : ((events.drop k).filter fun ev => ev.seq > since) = events.drop since := by
  have hsplit : events.drop k = (events.drop k).take (since - k) ++ events.drop since := by
    have hadd : since = k + (since - k) := by omega
    rw [hadd, ← drop_drop, Nat.add_sub_cancel_left, take_append_drop]
  have hfirst : ((events.drop k).take (since - k)).filter (fun ev => ev.seq > since) = [] := by
    rw [filter_eq_nil_iff]
    intro ev hev
    obtain ⟨i, hi⟩ := mem_iff_getElem?.mp hev
    rw [getElem?_take] at hi
    split at hi
    . next hlt =>
      rw [getElem?_drop] at hi
      have hseq := h _ ev hi
      simp
      omega
    . contradiction
  have hlast : (events.drop since).filter (fun ev => ev.seq > since) = events.drop since := by
    rw [filter_eq_self]
    intro ev hev
    obtain ⟨i, hi⟩ := mem_iff_getElem?.mp hev
    rw [getElem?_drop] at hi
    have hseq := h _ ev hi
    simp
    omega
  rw [hsplit, filter_append, hfirst, hlast, nil_append]

theorem Numbered.seq_getD (h : Numbered events) (hi : i < events.length)
    : (events[i]?.getD .zero).seq = i + 1 := by
  rw [getElem?_eq_getElem hi, getD_some]
  exact h i _ (getElem?_eq_getElem hi)

theorem EventBus.Ok.eventsSince (h : eb.Ok size events) (hsize : 0 < size) (since)
    : (eb.eventsSince size since).headSeq = events.length
      ∧ ((eb.eventsSince size since).ok = true →
          0 < since ∧ since ≤ events.length ∧ events.length ≤ since + size
          ∧ (eb.eventsSince size since).events = events.drop since) := by
  unfold EventBus.eventsSince
  have hcount := h.window.count
  split
  . exact ⟨h.seq, fun hok => absurd hok Bool.false_ne_true⟩
  . next hzero =>
    split
    . exact ⟨h.seq, fun hok => absurd hok Bool.false_ne_true⟩
    . next hnone =>
      have hlength : 0 < events.length := by omega
      have hold : ((eb.ring.oldest? size).getD .zero).seq = events.length - eb.ring.count + 1 := by
        rw [h.window.oldest? hsize (by omega)]
        exact h.numbered.seq_getD (by omega)
      have hnew : ((eb.ring.newest? size).getD .zero).seq = events.length := by
        rw [h.window.newest? hsize hlength, h.numbered.seq_getD (by omega)]
        omega
      dsimp only
      rw [hold, hnew]
      split
      . exact ⟨h.seq, fun hok => absurd hok Bool.false_ne_true⟩
      . split
        . exact ⟨h.seq, fun hok => absurd hok Bool.false_ne_true⟩
        . split
          . next heq =>
            refine ⟨h.seq, fun _ => ⟨by omega, by omega, by omega, ?_⟩⟩
            rw [heq, drop_length]
          . refine ⟨h.seq, fun _ => ⟨by omega, by omega, by omega, ?_⟩⟩
            rw [h.window.walk]
            exact h.numbered.filter_drop (by omega)

theorem EventBus.Ok.publish (h : eb.Ok size events) (hsize : 0 < size) (path) (op) (actor) (ts)
    : (eb.publish size path op actor ts).Ok size (events ++ [⟨events.length + 1, path, op, actor, ts⟩]) where
  seq := by
    unfold EventBus.publish
    rw [length_append, length_singleton, h.seq]
  window := by
    unfold EventBus.publish
    rw [h.seq]
    exact h.window.push hsize _
  numbered := by
    intro i ev hget
    rw [getElem?_append] at hget
    split at hget
    . exact h.numbered i ev hget
    . next hge =>
      rw [getElem?_singleton] at hget
      obtain ⟨_, rfl⟩ := Lts.of_guard hget
      dsimp only
      omega

theorem pending_drop (h : Numbered events) (hle : cursor ≤ events.length)
    : Pending events cursor ((events.drop cursor).map fun ev => (ev.seq, sendSSEEvent ev)) events.length := by
  generalize hn : events.length - cursor = n
  induction n generalizing cursor with
  | zero =>
    have heq : cursor = events.length := by omega
    rw [heq, drop_length]
    exact .nil
  | succ n ih =>
    have hlt : cursor < events.length := by omega
    have hget : events[cursor]? = some events[cursor] := getElem?_eq_getElem hlt
    have hseq := h cursor _ hget
    rw [drop_eq_getElem_cons hlt, map_cons, hseq]
    exact .cons (.event hget hseq) (ih (by omega) (by omega))

theorem EventBus.Ok.answer (h : eb.Ok size events) (hsize : 0 < size)
    (hreason : cursor ≤ events.length ∨ reason = .serverRestart)
    : Pending events cursor (Conn.answer (eb.eventsSince size cursor) reason) events.length := by
  obtain ⟨hhead, hok⟩ := h.eventsSince hsize cursor
  unfold Conn.answer
  split
  . next htrue =>
    obtain ⟨_, hle, _, hevents⟩ := hok htrue
    rw [hevents]
    exact pending_drop h.numbered hle
  . rw [hhead]
    by_cases hle : cursor ≤ events.length
    . exact .cons (.reset hle (Nat.le_refl _)) .nil
    . rcases hreason with hle' | rfl
      . exact absurd hle' hle
      . exact .cons (.restart (by omega) (Nat.le_refl _)) .nil

end

def Message.isRestart (m : Message) : Bool :=
  match m with
  | .reset _ .serverRestart _ => true
  | _ => false

namespace Conn

def unsent (conn : Conn) : List Message :=
  match conn.phase with
  | .sending rest => rest.map Prod.snd
  | _ => []

def AtPhase (events : List ChangeEvent) (signal : Prop) (conn : Conn) : Prop :=
  match conn.phase with
  | .subscribed => conn.sent = [] ∧ conn.lastSeen = conn.since
  | .sending rest => ∃ cursor, Pending events conn.lastSeen rest cursor
      ∧ cursor ≤ events.length ∧ (cursor = events.length ∨ signal)
  | .waiting => conn.lastSeen ≤ events.length ∧ (conn.lastSeen = events.length ∨ signal)
  | .notified => conn.lastSeen ≤ events.length

structure Ok (events : List ChangeEvent) (signal : Prop) (conn : Conn) : Prop where
  streams : Streams events conn.since conn.sent conn.lastSeen
  restarts : ∀ m ∈ (conn.sent ++ conn.unsent).tail, m.isRestart = false
  phase : conn.AtPhase events signal

variable {size : Nat} {events : List ChangeEvent} {signal : Prop} {conn conn' : Conn}
  {eb : EventBus}

theorem Ok.publish (h : conn.Ok events signal) (later) : conn.Ok (events ++ later) True where
  streams := h.streams.append later
  restarts := h.restarts
  phase := by
    have hphase := h.phase
    have hlength : events.length ≤ (events ++ later).length := by
      rw [length_append]
      omega
    unfold AtPhase at hphase ⊢
    cases hp : conn.phase with
    | subscribed =>
      rw [hp] at hphase
      exact hphase
    | sending rest =>
      rw [hp] at hphase
      obtain ⟨cursor, hpending, hle, _⟩ := hphase
      exact ⟨cursor, hpending.append later, Nat.le_trans hle hlength, .inr trivial⟩
    | waiting =>
      rw [hp] at hphase
      exact ⟨Nat.le_trans hphase.1 hlength, .inr trivial⟩
    | notified =>
      rw [hp] at hphase
      exact Nat.le_trans hphase hlength

theorem answer_not_restart (h : m ∈ answer r .seqTooOld) : m.2.isRestart = false := by
  unfold answer at h
  split at h
  . obtain ⟨ev, _, rfl⟩ := mem_map.mp h
    unfold sendSSEEvent
    split
    . rfl
    . rfl
  . rw [mem_singleton.mp h]
    rfl

theorem answer_tail (r) (reason) (h : m ∈ ((answer r reason).map Prod.snd).tail)
    : m.isRestart = false := by
  unfold answer at h
  split at h
  . obtain ⟨p, hp, rfl⟩ := mem_map.mp (mem_of_mem_tail h)
    obtain ⟨ev, _, rfl⟩ := mem_map.mp hp
    unfold sendSSEEvent
    split
    . rfl
    . rfl
  . contradiction

section

variable (h : conn.Ok events signal)

include h

theorem Ok.eventsSince (hsize : 0 < size) (heb : eb.Ok size events)
    (hstep : conn.eventsSince size eb = some conn')
    : conn'.Ok events signal ∧ conn'.subID = conn.subID := by
  have hphase := h.phase
  have hstreams := h.streams
  have hrestarts := h.restarts
  obtain ⟨hhead, _⟩ := heb.eventsSince hsize conn.since
  unfold Conn.eventsSince at hstep
  unfold AtPhase at hphase
  cases hp : conn.phase with
  | subscribed =>
    rw [hp] at hstep hphase
    cases hstep
    obtain ⟨hsent, hlast⟩ := hphase
    rw [hlast] at hstreams
    refine ⟨⟨hstreams, ?_, events.length, ?_, Nat.le_refl _, .inl rfl⟩, rfl⟩
    . intro m hm
      rw [hsent, nil_append] at hm
      exact answer_tail _ _ hm
    . apply heb.answer hsize
      rw [hhead]
      unfold resetReason
      by_cases hle : conn.since ≤ events.length
      . exact .inl hle
      . right
        rw [if_pos (by omega), if_pos (by omega)]
  | sending rest | waiting =>
    rw [hp] at hstep
    contradiction
  | notified =>
    rw [hp] at hstep hphase
    cases hstep
    refine ⟨⟨hstreams, ?_, events.length, ?_, Nat.le_refl _, .inl rfl⟩, rfl⟩
    . intro m hm
      unfold unsent at hm hrestarts
      rw [hp, append_nil] at hrestarts
      cases hsent : conn.sent with
      | nil =>
        rw [hsent, nil_append] at hm
        exact answer_tail _ _ hm
      | cons m0 ms =>
        rw [hsent] at hm hrestarts
        rcases mem_append.mp hm with hold | hnew
        . exact hrestarts m hold
        . obtain ⟨p, hp, rfl⟩ := mem_map.mp hnew
          exact answer_not_restart hp
    . exact heb.answer hsize (.inl hphase)

theorem Ok.send (hstep : conn.send = some conn')
    : conn'.Ok events signal ∧ conn'.subID = conn.subID := by
  have hphase := h.phase
  have hstreams := h.streams
  have hrestarts := h.restarts
  unfold Conn.send at hstep
  unfold AtPhase at hphase
  unfold unsent at hrestarts
  cases hp : conn.phase with
  | sending rest =>
    rw [hp] at hstep hphase hrestarts
    obtain ⟨cursor, hpending, hle, hsignal⟩ := hphase
    cases rest with
    | nil =>
      cases hstep
      cases hpending with
      | nil => exact ⟨⟨hstreams, hrestarts, hle, hsignal⟩, rfl⟩
    | cons m rest =>
      cases hstep
      cases hpending with
      | cons hm hms =>
        refine ⟨⟨hstreams.concat hm, ?_, cursor, hms, hle, hsignal⟩, rfl⟩
        intro m' hm'
        apply hrestarts
        rw [append_assoc, singleton_append] at hm'
        exact hm'
  | subscribed | waiting | notified =>
    rw [hp] at hstep
    contradiction

theorem Ok.sendHeartbeat (hstep : conn.sendHeartbeat = some conn')
    : conn'.Ok events signal ∧ conn'.subID = conn.subID := by
  have hphase := h.phase
  have hrestarts := h.restarts
  unfold Conn.sendHeartbeat at hstep
  obtain ⟨hp, rfl⟩ := Lts.of_guard hstep
  unfold AtPhase at hphase
  unfold unsent at hrestarts
  rw [hp] at hphase hrestarts
  refine ⟨⟨h.streams.concat .heartbeat, ?_, ?_⟩, rfl⟩
  . intro m hm
    unfold unsent at hm
    rw [hp, append_nil] at hm
    rw [append_nil] at hrestarts
    cases hsent : conn.sent with
    | nil =>
      rw [hsent] at hm
      contradiction
    | cons m0 ms =>
      rw [hsent] at hm hrestarts
      rcases mem_append.mp hm with hold | hnew
      . exact hrestarts m hold
      . rw [mem_singleton.mp hnew]
        rfl
  . rw [hp]
    exact hphase

end

end Conn

namespace EventSystem

structure Ok (size : Nat) (events : List ChangeEvent) (s : EventSystem) : Prop where
  bus : s.bus.Ok size events
  listening : ∀ c conn, s.conns.get? c = some conn →
    conn.subID < s.bus.nextID ∧ (s.bus.listeners.get? conn.subID).isSome
  distinct : ∀ c c' conn conn', s.conns.get? c = some conn → s.conns.get? c' = some conn' →
    conn.subID = conn'.subID → c = c'
  conns : ∀ c conn, s.conns.get? c = some conn
    → conn.Ok events (s.bus.listeners.get? conn.subID = some true)

variable {size : Nat} {events : List ChangeEvent} {s s' : EventSystem}

theorem ok_init (size) : Ok size [] (.init size) where
  bus := ⟨rfl, .empty size _, fun i ev h => absurd h (by simp)⟩
  listening := by
    intro c conn h
    contradiction
  distinct := by
    intro c c' conn conn' h
    contradiction
  conns := by
    intro c conn h
    contradiction

section

variable (h : Ok size events s)

include h

theorem Ok.setConn (hget : s.conns.get? c = some conn) (hid : conn'.subID = conn.subID)
    (hok : conn'.Ok events (s.bus.listeners.get? conn.subID = some true))
    : Ok size events (s.setConn c conn') where
  bus := h.bus
  listening := by
    apply forall_set h.listening
    rw [hid]
    exact h.listening c conn hget
  distinct := by
    intro c1 c2 conn1 conn2 hget1 hget2 heq
    rcases of_get?_set hget1 with ⟨rfl, rfl⟩ | ⟨_, hold1⟩
    . rcases of_get?_set hget2 with ⟨rfl, _⟩ | ⟨_, hold2⟩
      . rfl
      . exact h.distinct _ _ conn conn2 hget hold2 (hid ▸ heq)
    . rcases of_get?_set hget2 with ⟨rfl, rfl⟩ | ⟨_, hold2⟩
      . exact h.distinct _ _ conn1 conn hold1 hget (hid ▸ heq)
      . exact h.distinct _ _ conn1 conn2 hold1 hold2 heq
  conns := by
    apply forall_set h.conns
    rw [hid]
    exact hok

theorem Ok.publish (hsize : 0 < size) (path) (op) (actor) (ts)
    : Ok size (events ++ [⟨events.length + 1, path, op, actor, ts⟩])
        { s with bus := s.bus.publish size path op actor ts } where
  bus := h.bus.publish hsize path op actor ts
  listening := by
    intro c conn hget
    obtain ⟨hlt, hsome⟩ := h.listening c conn hget
    refine ⟨hlt, ?_⟩
    unfold EventBus.publish
    rw [get?_mapValues, isSome_map]
    exact hsome
  distinct := h.distinct
  conns := by
    intro c conn hget
    obtain ⟨_, hsome⟩ := h.listening c conn hget
    obtain ⟨b, hb⟩ := isSome_iff_exists.mp hsome
    have hsignal : (s.bus.publish size path op actor ts).listeners.get? conn.subID = some true := by
      unfold EventBus.publish
      rw [get?_mapValues, hb, map_some]
    rw [hsignal]
    have hok := (h.conns c conn hget).publish [⟨events.length + 1, path, op, actor, ts⟩]
    rw [eq_self]
    exact hok

theorem Ok.subscribe (hnone : s.conns.get? c = none) (since)
    : Ok size events { s.setConn c ⟨since, s.bus.nextID, since, .subscribed, []⟩ with bus := s.bus.subscribe } where
  bus := ⟨h.bus.seq, h.bus.window, h.bus.numbered⟩
  listening := by
    intro c1 conn1 hget1
    unfold EventBus.subscribe
    rw [get?_set]
    rcases of_get?_set hget1 with ⟨_, rfl⟩ | ⟨_, hold⟩
    . rw [if_pos rfl]
      exact ⟨Nat.lt_succ_self _, rfl⟩
    . obtain ⟨hlt, hsome⟩ := h.listening c1 conn1 hold
      rw [if_neg (by omega)]
      exact ⟨Nat.lt_succ_of_lt hlt, hsome⟩
  distinct := by
    intro c1 c2 conn1 conn2 hget1 hget2 heq
    rcases of_get?_set hget1 with ⟨rfl, rfl⟩ | ⟨_, hold1⟩
    . rcases of_get?_set hget2 with ⟨rfl, _⟩ | ⟨_, hold2⟩
      . rfl
      . have hlt := (h.listening c2 conn2 hold2).1
        rw [← heq] at hlt
        exact absurd hlt (Nat.lt_irrefl _)
    . rcases of_get?_set hget2 with ⟨rfl, rfl⟩ | ⟨_, hold2⟩
      . have hlt := (h.listening c1 conn1 hold1).1
        rw [heq] at hlt
        exact absurd hlt (Nat.lt_irrefl _)
      . exact h.distinct _ _ conn1 conn2 hold1 hold2 heq
  conns := by
    intro c1 conn1 hget1
    unfold EventBus.subscribe
    rw [get?_set]
    rcases of_get?_set hget1 with ⟨_, rfl⟩ | ⟨_, hold⟩
    . exact ⟨.nil, fun m hm => absurd hm not_mem_nil, rfl, rfl⟩
    . obtain ⟨hlt, _⟩ := h.listening c1 conn1 hold
      rw [if_neg (by omega)]
      exact h.conns c1 conn1 hold

theorem Ok.receive (hget : s.conns.get? c = some conn) (hstep : s.receive c conn = some s')
    : Ok size events s' := by
  unfold EventSystem.receive at hstep
  obtain ⟨hguard, rfl⟩ := Lts.of_guard hstep
  obtain ⟨hp, hsignal⟩ := hguard
  have hold := h.conns c conn hget
  have hphase := hold.phase
  have hrestarts := hold.restarts
  unfold Conn.AtPhase at hphase
  unfold Conn.unsent at hrestarts
  rw [hp] at hphase hrestarts
  have hset : Ok size events (s.setConn c { conn with phase := .notified }) :=
    h.setConn hget rfl ⟨hold.streams, hrestarts, hphase.1⟩
  refine ⟨⟨h.bus.seq, h.bus.window, h.bus.numbered⟩, ?_, hset.distinct, ?_⟩
  . intro c1 conn1 hget1
    obtain ⟨hlt, hsome⟩ := hset.listening c1 conn1 hget1
    unfold EventBus.receive
    rw [get?_set]
    split
    . exact ⟨hlt, rfl⟩
    . exact ⟨hlt, hsome⟩
  . intro c1 conn1 hget1
    unfold EventBus.receive
    rw [get?_set]
    rcases of_get?_set hget1 with ⟨_, rfl⟩ | ⟨hne, hold1⟩
    . exact ⟨hold.streams, hrestarts, hphase.1⟩
    . rw [if_neg]
      . exact h.conns c1 conn1 hold1
      . intro heq
        exact hne (h.distinct c1 c conn1 conn hold1 hget heq)

theorem Ok.close (hget : s.conns.get? c = some conn)
    : Ok size events { s with bus := s.bus.unsubscribe conn.subID, conns := s.conns.del c } := by
  have hothers : ∀ c1 conn1, (s.conns.del c).get? c1 = some conn1 →
      s.conns.get? c1 = some conn1 ∧ conn1.subID ≠ conn.subID := by
    intro c1 conn1 hget1
    obtain ⟨hne, hold⟩ := of_get?_del hget1
    exact ⟨hold, fun heq => hne (h.distinct c1 c conn1 conn hold hget heq)⟩
  refine ⟨⟨h.bus.seq, h.bus.window, h.bus.numbered⟩, ?_, ?_, ?_⟩
  . intro c1 conn1 hget1
    obtain ⟨hold, hne⟩ := hothers c1 conn1 hget1
    unfold EventBus.unsubscribe
    rw [get?_del, if_neg hne]
    exact h.listening c1 conn1 hold
  . intro c1 c2 conn1 conn2 hget1 hget2 heq
    exact h.distinct c1 c2 conn1 conn2 (hothers c1 conn1 hget1).1 (hothers c2 conn2 hget2).1 heq
  . intro c1 conn1 hget1
    obtain ⟨hold, hne⟩ := hothers c1 conn1 hget1
    unfold EventBus.unsubscribe
    rw [get?_del, if_neg hne]
    exact h.conns c1 conn1 hold

theorem Ok.step (hsize : 0 < size) (hstep : s.step size l = some s')
    : Ok size (events ++ published events.length [l]) s' := by
  unfold EventSystem.step at hstep
  cases l with
  | publish path op actor ts =>
    cases hstep
    exact h.publish hsize path op actor ts
  | subscribe c since =>
    obtain ⟨hnone, rfl⟩ := Lts.of_guard hstep
    have hok := h.subscribe (isNone_iff_eq_none.mp hnone) since
    unfold published published
    rw [append_nil]
    exact hok
  | eventsSince c =>
    obtain ⟨conn, hget, hstep⟩ := bind_eq_some_iff.mp hstep
    obtain ⟨conn', hconn, rfl⟩ := map_eq_some_iff.mp hstep
    obtain ⟨hok, hid⟩ := (h.conns c conn hget).eventsSince hsize h.bus hconn
    unfold published published
    rw [append_nil]
    exact h.setConn hget hid hok
  | send c =>
    obtain ⟨conn, hget, hstep⟩ := bind_eq_some_iff.mp hstep
    obtain ⟨conn', hconn, rfl⟩ := map_eq_some_iff.mp hstep
    obtain ⟨hok, hid⟩ := (h.conns c conn hget).send hconn
    unfold published published
    rw [append_nil]
    exact h.setConn hget hid hok
  | receive c =>
    obtain ⟨conn, hget, hstep⟩ := bind_eq_some_iff.mp hstep
    unfold published published
    rw [append_nil]
    exact h.receive hget hstep
  | heartbeat c =>
    obtain ⟨conn, hget, hstep⟩ := bind_eq_some_iff.mp hstep
    obtain ⟨conn', hconn, rfl⟩ := map_eq_some_iff.mp hstep
    obtain ⟨hok, hid⟩ := (h.conns c conn hget).sendHeartbeat hconn
    unfold published published
    rw [append_nil]
    exact h.setConn hget hid hok
  | close c =>
    obtain ⟨conn, hget, rfl⟩ := map_eq_some_iff.mp hstep
    unfold published published
    rw [append_nil]
    exact h.close hget

end

theorem published_cons (n) (l) (ls)
    : published n (l :: ls) = published n [l] ++ published (n + (published n [l]).length) ls := by
  cases l with
  | publish path op actor ts | _ => rfl

theorem Ok.run (h : Ok size events s) (hsize : 0 < size)
    (hexec : Lts.exec (EventSystem.step size) s labels = some s')
    : Ok size (events ++ published events.length labels) s' := by
  induction labels generalizing s events with
  | nil =>
    cases hexec
    unfold published
    rw [append_nil]
    exact h
  | cons l ls ih =>
    obtain ⟨s1, hstep, hexec1⟩ := Lts.of_exec_cons hexec
    have hrun := ih (h.step hsize hstep) hexec1
    rw [length_append, append_assoc, ← published_cons] at hrun
    exact hrun

theorem Ok.conn (h : Ok size events s) {conn : Conn} (hget : s.conns.get? c = some conn)
    : Streams events conn.since conn.sent conn.lastSeen
      ∧ (∀ m ∈ conn.sent.tail, m.isRestart = false)
      ∧ (conn.phase = .waiting → s.bus.listeners.get? conn.subID ≠ some true → conn.lastSeen = events.length) := by
  have hconn := h.conns c conn hget
  refine ⟨hconn.streams, ?_, ?_⟩
  . intro m hm
    apply hconn.restarts
    cases hsent : conn.sent with
    | nil =>
      rw [hsent] at hm
      contradiction
    | cons m0 ms =>
      rw [hsent] at hm
      exact mem_append_left _ hm
  . intro hwaiting hsignal
    have hphase := hconn.phase
    unfold Conn.AtPhase at hphase
    rw [hwaiting] at hphase
    exact hphase.2.resolve_right hsignal

/--
For every size of the ring and every interleaving, `EventsSince` returns the events after its cursor
or refuses, a connection sends the events from its cursor on one by one or resets the cursor to the
head of the bus (back only at its very beginning), and it is at the head when it waits and no signal
is there.
-/
theorem events_are_streamed_without_gaps {size : Nat} (hsize : 1 ≤ size) {labels : List EventLabel}
    {s : EventSystem} (hexec : Lts.exec (step size) (.init size) labels = some s)
    : s.bus.seq = (published 0 labels).length ∧ Numbered (published 0 labels)
      ∧ (∀ since, (s.bus.eventsSince size since).ok = true →
          since ≤ s.bus.seq ∧ (s.bus.eventsSince size since).events = (published 0 labels).drop since)
      ∧ ∀ c conn, s.conns.get? c = some conn →
          Streams (published 0 labels) conn.since conn.sent conn.lastSeen
          ∧ (∀ m ∈ conn.sent.tail, m.isRestart = false)
          ∧ (conn.phase = .waiting → s.bus.listeners.get? conn.subID ≠ some true → conn.lastSeen = s.bus.seq) := by
  have hok := (ok_init size).run hsize hexec
  rw [List.nil_append, List.length_nil] at hok
  refine ⟨hok.bus.seq, hok.bus.numbered, ?_, ?_⟩
  . intro since htrue
    obtain ⟨_, hevents⟩ := hok.bus.eventsSince hsize since
    obtain ⟨_, hle, _, heq⟩ := hevents htrue
    rw [hok.bus.seq]
    exact ⟨hle, heq⟩
  . intro c conn hget
    rw [hok.bus.seq]
    exact hok.conn hget

def wrappedAround : List EventLabel :=
  [.publish ['/', 'a'] .write [] 0, .publish ['/', 'b'] .write [] 0, .publish ['/', 'c'] .write [] 0, .subscribe 0 1,
    .eventsSince 0, .send 0, .send 0, .send 0, .publish ['/', 'd'] .write [] 0, .publish ['/', 'e'] .write [] 0,
    .publish ['/', 'f'] .write [] 0, .receive 0, .eventsSince 0, .send 0, .send 0]

theorem events_are_streamed_without_gaps_wrapped
    : ∃ s conn, Lts.exec (step 2) (.init 2) wrappedAround = some s ∧ s.conns.get? 0 = some conn
      ∧ conn.sent = [.fileChanged ⟨2, ['/', 'b'], .write, [], 0⟩, .fileChanged ⟨3, ['/', 'c'], .write, [], 0⟩,
        .reset 6 .seqTooOld none]
      ∧ Streams (published 0 wrappedAround) conn.since conn.sent conn.lastSeen
      ∧ conn.lastSeen = s.bus.seq := by
  apply Lts.exists₂_of_any (fun s conn =>
      conn.sent = [.fileChanged ⟨2, ['/', 'b'], .write, [], 0⟩, .fileChanged ⟨3, ['/', 'c'], .write, [], 0⟩,
        .reset 6 .seqTooOld none]
      ∧ conn.phase = .waiting ∧ s.bus.listeners.get? conn.subID ≠ some true) (by decide +kernel)
  intro s conn hexec hget ⟨hsent, hwaiting, hsignal⟩
  have hsize : 1 ≤ 2 := by decide
  obtain ⟨_, _, _, hstream⟩ := events_are_streamed_without_gaps hsize hexec
  obtain ⟨hstreams, _, hhead⟩ := hstream 0 conn hget
  exact ⟨hsent, hstreams, hhead hwaiting hsignal⟩

end EventSystem

end Events
