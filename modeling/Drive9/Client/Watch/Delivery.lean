import Drive9.Client.Watch.Impl
import Drive9.Server.Events.Stream

/-!
This module contains that a watching client misses no event as long as its cursor is only answered
by the server process that it is from, or refused.
-/

open List Option

namespace Events

variable {ev : ChangeEvent} {c cursor' e : Nat} {m : Message}

section

variable {handled handled' : List (Nat × Message)} {due : List (Nat × ChangeEvent)}
  {events : List ChangeEvent}
  {epoch cursor : Nat}

theorem Covered.append (h : Covered handled epoch ev) (later)
    : Covered (handled ++ later) epoch ev := by
  rcases h with hdelivered | ⟨epoch', seq, reason, hreset, hlater⟩
  . exact .inl (mem_append_left _ hdelivered)
  . exact .inr ⟨epoch', seq, reason, mem_append_left _ hreset, hlater⟩

def Reached (due : List (Nat × ChangeEvent)) (handled : List (Nat × Message)) (epoch cursor : Nat)
    : Prop :=
  ∀ e ev, (e, ev) ∈ due → (e < epoch ∨ e = epoch ∧ ev.seq ≤ cursor) → Covered handled e ev

theorem Reached.append (h : Reached due handled epoch cursor) (later)
    : Reached due (handled ++ later) epoch cursor :=
  fun e ev hmem hle => (h e ev hmem hle).append later

theorem Reached.publish (h : Reached due handled epoch cursor)
    (hnew : epoch < e ∨ epoch = e ∧ cursor < ev.seq)
    : Reached (due ++ [(e, ev)]) handled epoch cursor := by
  intro e' ev' hmem hle
  rcases mem_append.mp hmem with hold | hlast
  . exact h e' ev' hold hle
  . cases mem_singleton.mp hlast
    omega

theorem reached_of_reset (h : (epoch, .reset seq reason none) ∈ handled)
    : Reached due handled epoch seq := by
  intro e ev _ hle
  exact .inr ⟨epoch, seq, reason, h, hle⟩

def DueFrom (due : List (Nat × ChangeEvent)) (epoch : Nat) (events : List ChangeEvent) : Prop :=
  ∀ ev, (epoch, ev) ∈ due → ∃ i, ev.seq = i + 1 ∧ (events[i]? = some ev ∨ events.length ≤ i)

def Resumes (due : List (Nat × ChangeEvent)) (handled : List (Nat × Message)) (epoch : Nat)
    (events : List ChangeEvent) (cursor : Nat) (ms : List Message) : Prop :=
  Reached due handled epoch cursor ∧ cursor ≤ events.length ∨ ∃ seq reason ms', ms = .reset seq reason none :: ms'

variable {ms : List Message}

theorem Resumes.append (h : Resumes due handled epoch events cursor ms) (later)
    : Resumes due handled epoch events cursor (ms ++ later) := by
  rcases h with hreached | ⟨seq, reason, ms', rfl⟩
  . exact .inl hreached
  . exact .inr ⟨seq, reason, ms' ++ later, rfl⟩

theorem Resumes.publish (h : Resumes due handled epoch events cursor ms)
    (hnew : epoch < e ∨ epoch = e ∧ events.length < ev.seq) (later)
    : Resumes (due ++ [(e, ev)]) handled epoch (events ++ later) cursor ms := by
  rcases h with ⟨hreached, hle⟩ | hreset
  . left
    rw [length_append]
    exact ⟨hreached.publish (by omega), by omega⟩
  . exact .inr hreset

def dispatched (epoch : Nat) (m : Message) : List (Nat × Message) :=
  match m.seq? with
  | none => []
  | some _ => [(epoch, m)]

theorem sendSSEEvent_ne_reset (ev) (seq) (reason) : sendSSEEvent ev ≠ .reset seq reason none := by
  unfold sendSSEEvent
  split
  . simp
  . simp

theorem seq?_sendSSEEvent (ev) : (sendSSEEvent ev).seq? = some ev.seq := by
  unfold sendSSEEvent
  split
  . rfl
  . rfl

theorem Resumes.deliver (h : Resumes due handled epoch events cursor (m :: ms))
    (hdue : DueFrom due epoch events) (hm : Moves events cursor m cursor')
    : Reached due (handled ++ dispatched epoch m) epoch cursor' ∧ cursor' ≤ events.length := by
  cases hm with
  | event hget hseq =>
    next ev =>
    have hlt := (List.getElem?_eq_some_iff.mp hget).1
    rcases h with ⟨hreached, _⟩ | ⟨seq, reason, ms', heq⟩
    . refine ⟨?_, hlt⟩
      intro e ev' hmem hle
      by_cases hold : e < epoch ∨ e = epoch ∧ ev'.seq ≤ cursor
      . exact (hreached e ev' hmem hold).append _
      . have he : e = epoch := by omega
        subst he
        obtain ⟨i, hi, hwhere⟩ := hdue ev' hmem
        have hicursor : i = cursor := by omega
        subst hicursor
        rcases hwhere with hget' | hge
        . rw [hget] at hget'
          cases hget'
          left
          apply List.mem_append_right
          unfold dispatched
          rw [seq?_sendSSEEvent]
          exact List.mem_singleton_self _
        . omega
    . exact absurd (List.cons.inj heq).1 (sendSSEEvent_ne_reset ev seq reason)
  | reset hcursor hle | restart hcursor hle =>
    exact ⟨reached_of_reset (List.mem_append_right _ (List.mem_singleton_self _)), hle⟩
  | heartbeat =>
    rcases h with ⟨hreached, hle⟩ | ⟨seq, reason, ms', heq⟩
    . exact ⟨hreached.append _, hle⟩
    . cases heq

theorem Moves.seq? (h : Moves events cursor m cursor') : m.seq? = some cursor' ∨ m.seq? = none := by
  cases h with
  | event hget hseq =>
    left
    rw [seq?_sendSSEEvent, hseq]
  | reset | restart => exact .inl rfl
  | heartbeat => exact .inr rfl

theorem DueFrom.publish (h : DueFrom due epoch events)
    (hnew : epoch = e → ∃ i, ev.seq = i + 1 ∧ events.length ≤ i)
    : DueFrom (due ++ [(e, ev)]) epoch events := by
  intro ev' hmem
  rcases mem_append.mp hmem with hold | hlast
  . exact h ev' hold
  . cases mem_singleton.mp hlast
    obtain ⟨i, hi, hle⟩ := hnew rfl
    exact ⟨i, hi, .inr hle⟩

end

structure Reading (events : List ChangeEvent) (due : List (Nat × ChangeEvent))
    (handled : List (Nat × Message))
    (epoch lastSeq : Nat) (conn : Conn) (read : Nat) : Prop where
  bound : read ≤ conn.sent.length
  since : conn.phase = .subscribed → conn.since = lastSeq
  resumes : ∃ cursor, Streams events cursor (conn.sent.drop read) conn.lastSeen
    ∧ (conn.phase = .subscribed ∨ Resumes due handled epoch events cursor (conn.sent.drop read ++ conn.unsent))

namespace Reading

variable {size : Nat} {events : List ChangeEvent} {due : List (Nat × ChangeEvent)}
  {handled : List (Nat × Message)}
  {epoch lastSeq : Nat} {conn conn' : Conn} {read : Nat} {signal : Prop} {eb : EventBus}

section

variable (h : Reading events due handled epoch lastSeq conn read)

include h

theorem eventsSince (hsize : 0 < size) (hconn : conn.Ok events signal) (heb : eb.Ok size events)
    (hcursor : conn.phase = .subscribed → (eb.eventsSince size conn.since).ok = true →
      Reached due handled epoch conn.since)
    (hstep : conn.eventsSince size eb = some conn')
    : Reading events due handled epoch lastSeq conn' read := by
  obtain ⟨cursor, hstreams, hresumes⟩ := h.resumes
  have hphase := hconn.phase
  unfold Conn.eventsSince at hstep
  unfold Conn.AtPhase at hphase
  cases hp : conn.phase with
  | subscribed =>
    rw [hp] at hstep hphase
    obtain ⟨hsent, hlast⟩ := hphase
    cases hstep
    refine ⟨h.bound, fun hsub => absurd hsub (by simp), conn.since, ?_, .inr ?_⟩
    . rw [hsent, drop_nil]
      exact .nil
    . unfold Conn.unsent Conn.answer
      dsimp only
      rw [hsent, drop_nil, nil_append]
      split
      . next htrue =>
        obtain ⟨_, hok⟩ := heb.eventsSince hsize conn.since
        exact .inl ⟨hcursor hp htrue, (hok htrue).2.1⟩
      . exact .inr ⟨_, _, [], rfl⟩
  | notified =>
    rw [hp] at hstep hresumes
    cases hstep
    unfold Conn.unsent at hresumes
    rw [hp, append_nil] at hresumes
    have hresumes := hresumes.resolve_left (by simp)
    exact ⟨h.bound, fun hsub => absurd hsub (by simp), cursor, hstreams, .inr (hresumes.append _)⟩
  | sending rest | waiting =>
    rw [hp] at hstep
    contradiction

theorem send (hconn : conn.Ok events signal) (hstep : conn.send = some conn')
    : Reading events due handled epoch lastSeq conn' read := by
  obtain ⟨cursor, hstreams, hresumes⟩ := h.resumes
  have hphase := hconn.phase
  unfold Conn.send at hstep
  unfold Conn.AtPhase at hphase
  unfold Conn.unsent at hresumes
  cases hp : conn.phase with
  | sending rest =>
    rw [hp] at hstep hphase hresumes
    have hresumes := hresumes.resolve_left (by simp)
    obtain ⟨_, hpending, _⟩ := hphase
    cases rest with
    | nil =>
      cases hstep
      exact ⟨h.bound, fun hsub => absurd hsub (by simp), cursor, hstreams, .inr hresumes⟩
    | cons m rest =>
      cases hstep
      cases hpending with
      | cons hm hms =>
        have hread := h.bound
        refine ⟨?_, fun hsub => absurd hsub (by simp), cursor, ?_, .inr ?_⟩
        . rw [length_append]
          omega
        . rw [drop_append_of_le_length hread]
          exact hstreams.concat hm
        . rw [drop_append_of_le_length hread, append_assoc, singleton_append]
          exact hresumes
  | subscribed | waiting | notified =>
    rw [hp] at hstep
    contradiction

theorem sendHeartbeat (hstep : conn.sendHeartbeat = some conn')
    : Reading events due handled epoch lastSeq conn' read := by
  obtain ⟨cursor, hstreams, hresumes⟩ := h.resumes
  unfold Conn.sendHeartbeat at hstep
  unfold Conn.unsent at hresumes
  split at hstep
  . next hp =>
    rw [hp, append_nil] at hresumes
    cases hstep
    have hresumes := hresumes.resolve_left (by simp)
    have hread := h.bound
    refine ⟨?_, ?_, cursor, ?_, .inr ?_⟩
    . rw [length_append]
      omega
    . intro hsub
      rw [hp] at hsub
      contradiction
    . rw [drop_append_of_le_length hread]
      exact hstreams.concat .heartbeat
    . unfold Conn.unsent
      rw [hp, append_nil, drop_append_of_le_length hread]
      exact hresumes.append _
  . contradiction

theorem notified (hp : conn.phase = .waiting)
    : Reading events due handled epoch lastSeq { conn with phase := .notified } read := by
  obtain ⟨cursor, hstreams, hresumes⟩ := h.resumes
  unfold Conn.unsent at hresumes
  rw [hp] at hresumes
  exact ⟨h.bound, fun hsub => absurd hsub (by simp), cursor, hstreams,
    .inr (hresumes.resolve_left (by simp))⟩

theorem publish (hnew : events.length < ev.seq)
    : Reading (events ++ [ev]) (due ++ [(epoch, ev)]) handled epoch lastSeq conn read := by
  obtain ⟨cursor, hstreams, hresumes⟩ := h.resumes
  refine ⟨h.bound, h.since, cursor, hstreams.append _, ?_⟩
  rcases hresumes with hsub | hresumes
  . exact .inl hsub
  . exact .inr (hresumes.publish (.inr ⟨rfl, hnew⟩) _)

end

end Reading

structure Broken (events : List ChangeEvent) (due : List (Nat × ChangeEvent))
    (handled : List (Nat × Message))
    (epoch : Nat) (rest : List Message) : Prop where
  dueFrom : DueFrom due epoch events
  resumes : ∃ cursor last, Streams events cursor rest last
    ∧ (rest = [] ∨ Resumes due handled epoch events cursor rest)

namespace WatchSystem

def LinkOk (events : List ChangeEvent) (due : List (Nat × ChangeEvent)) (s : WatchSystem) : Prop :=
  match s.link with
  | .none => True
  | .connected c read =>
    ∃ conn, s.server.conns.get? c = some conn ∧ Reading events due s.handled s.epoch s.lastSeq conn read
  | .broken epoch rest =>
    epoch ≤ s.epoch ∧ ∃ past, (epoch = s.epoch → past.length ≤ events.length) ∧ Broken past due s.handled epoch rest

structure Ok (size : Nat) (events : List ChangeEvent) (due : List (Nat × ChangeEvent))
    (s : WatchSystem) : Prop where
  server : s.server.Ok size events
  epochs : ∀ e ev, (e, ev) ∈ due → e ≤ s.epoch
  current : ∀ ev, (s.epoch, ev) ∈ due → ∃ i, ev.seq = i + 1 ∧ events[i]? = some ev
  cursorEpoch : s.cursorEpoch ≤ s.epoch
  lastSeq : s.cursorEpoch = s.epoch → s.lastSeq ≤ events.length
  reached : Reached due s.handled s.cursorEpoch s.lastSeq
  link : s.LinkOk events due

variable {size : Nat} {events : List ChangeEvent} {due : List (Nat × ChangeEvent)}
  {s s' : WatchSystem}

theorem ok_init (size) : Ok size [] [] (.init size) where
  server := EventSystem.ok_init size
  epochs := fun _ _ h => absurd h not_mem_nil
  current := fun _ h => absurd h not_mem_nil
  cursorEpoch := Nat.le_refl _
  lastSeq := fun _ => Nat.le_refl _
  reached := fun _ _ h => absurd h not_mem_nil
  link := trivial

theorem Ok.dueFrom (h : Ok size events due s) : DueFrom due s.epoch events := by
  intro ev hmem
  obtain ⟨i, hi, hget⟩ := h.current ev hmem
  exact ⟨i, hi, .inl hget⟩

variable {link : Link}

theorem Ok.dispatch (h : Ok size events due s) {epoch cursor : Nat} (hepoch : epoch ≤ s.epoch)
    (hpast : epoch = s.epoch → past.length ≤ events.length) (hm : Moves past cursor m cursor')
    (hreached : Reached due (s.handled ++ dispatched epoch m) epoch cursor')
    (hle : cursor' ≤ past.length)
    (hlink : LinkOk events due { s.dispatch epoch m with link := link })
    : Ok size events due { s.dispatch epoch m with link := link } := by
  unfold WatchSystem.dispatch at hlink ⊢
  unfold dispatched at hreached
  rcases hm.seq? with hseq | hseq
  . rw [hseq] at hreached hlink ⊢
    refine ⟨h.server, h.epochs, h.current, ?_, ?_, ?_, hlink⟩
    . dsimp only
      split
      . exact hepoch
      . exact h.cursorEpoch
    . dsimp only
      intro heq
      split at heq
      . next hgt =>
        rw [if_pos hgt]
        exact Nat.le_trans hle (hpast heq)
      . next hgt =>
        rw [if_neg hgt]
        exact h.lastSeq heq
    . dsimp only
      split
      . exact hreached
      . exact h.reached.append _
  . rw [hseq] at hlink ⊢
    exact { h with link := hlink }

theorem dispatch_handled (s : WatchSystem) (epoch) (m)
    : (s.dispatch epoch m).handled = s.handled ++ dispatched epoch m := by
  unfold dispatch dispatched
  cases m.seq? with
  | none => exact (append_nil _).symm
  | some seq => rfl

theorem dispatch_server (s : WatchSystem) (epoch) (m)
    : (s.dispatch epoch m).server = s.server ∧ (s.dispatch epoch m).epoch = s.epoch := by
  unfold dispatch
  split
  . exact ⟨rfl, rfl⟩
  . exact ⟨rfl, rfl⟩

theorem Ok.deliver (h : Ok size events due s) (hstep : s.deliver = some s')
    : Ok size events due s' := by
  have hlink := h.link
  unfold WatchSystem.deliver at hstep
  unfold LinkOk at hlink
  cases hl : s.link with
  | none =>
    rw [hl] at hstep
    contradiction
  | connected c read =>
    rw [hl] at hstep hlink
    obtain ⟨conn, hget, hreading⟩ := hlink
    dsimp only at hstep
    unfold WatchSystem.unread at hstep
    rw [hget] at hstep
    dsimp only at hstep
    cases hrest : conn.sent.drop read with
    | nil =>
      rw [hrest] at hstep
      contradiction
    | cons m rest =>
      rw [hrest] at hstep
      cases hstep
      obtain ⟨cursor, hstreams, hresumes⟩ := hreading.resumes
      rw [hrest] at hstreams hresumes
      cases hstreams with
      | cons hm hms =>
        have hlt : read < conn.sent.length := by
          by_contra hge
          rw [drop_eq_nil_of_le (by omega)] at hrest
          contradiction
        have hnext : conn.sent.drop (read + 1) = rest := by
          rw [drop_eq_getElem_cons hlt] at hrest
          exact (List.cons.inj hrest).2
        -- a connection that has sent something has looked at the bus
        have hsub : conn.phase ≠ .subscribed := by
          intro hsub
          have hphase := (h.server.conns c conn hget).phase
          unfold Conn.AtPhase at hphase
          rw [hsub] at hphase
          rw [hphase.1] at hlt
          exact absurd hlt (Nat.not_lt_zero _)
        obtain ⟨hreached, hle⟩ := (hresumes.resolve_left hsub).deliver h.dueFrom hm
        apply h.dispatch (Nat.le_refl _) (fun _ => Nat.le_refl _) hm hreached hle
        unfold LinkOk
        obtain ⟨hserver, hepoch⟩ := dispatch_server s s.epoch m
        rw [hserver, hepoch, dispatch_handled]
        refine ⟨conn, hget, hlt, fun hs => absurd hs hsub, _, ?_, .inr (.inl ⟨hreached, hle⟩)⟩
        rw [hnext]
        exact hms
  | broken epoch rest =>
    rw [hl] at hstep hlink
    obtain ⟨hepoch, past, hpast, hbroken⟩ := hlink
    cases rest with
    | nil => contradiction
    | cons m rest =>
      cases hstep
      obtain ⟨cursor, last, hstreams, hresumes⟩ := hbroken.resumes
      cases hstreams with
      | cons hm hms =>
        obtain ⟨hreached, hle⟩ := (hresumes.resolve_left (by simp)).deliver hbroken.dueFrom hm
        apply h.dispatch hepoch hpast hm hreached hle
        unfold LinkOk
        obtain ⟨_, hepoch'⟩ := dispatch_server s epoch m
        rw [hepoch', dispatch_handled]
        exact ⟨hepoch, past, hpast, hbroken.dueFrom, _, last, hms, .inr (.inl ⟨hreached, hle⟩)⟩

theorem Ok.breakLink (h : Ok size events due s)
    : LinkOk events due { s with link := s.breakLink } := by
  have hlink := h.link
  unfold LinkOk at hlink
  unfold WatchSystem.breakLink
  cases hl : s.link with
  | none =>
    trivial
  | connected c read =>
    rw [hl] at hlink
    obtain ⟨conn, hget, hreading⟩ := hlink
    unfold LinkOk WatchSystem.unread
    dsimp only
    rw [hget]
    obtain ⟨cursor, hstreams, hresumes⟩ := hreading.resumes
    refine ⟨Nat.le_refl _, events, fun _ => Nat.le_refl _, h.dueFrom, cursor, conn.lastSeen,
      hstreams, ?_⟩
    dsimp only
    rcases hresumes with hsub | hreached | ⟨seq, reason, ms', heq⟩
    . have hphase := (h.server.conns c conn hget).phase
      unfold Conn.AtPhase at hphase
      rw [hsub] at hphase
      left
      rw [hphase.1, drop_nil]
    . exact .inr (.inl hreached)
    . cases hrest : conn.sent.drop read with
      | nil => exact .inl rfl
      | cons m rest =>
        rw [hrest] at heq
        exact .inr (.inr ⟨seq, reason, rest, by rw [(List.cons.inj heq).1]⟩)
  | broken epoch rest =>
    rw [hl] at hlink
    exact hlink

variable {server : EventSystem}

section

variable (h : Ok size events due s)

include h

theorem Ok.publish
    (hserver : server.Ok size (events ++ [⟨events.length + 1, path, op, actor, ts⟩]))
    (hconns : server.conns = s.server.conns)
    : Ok size (events ++ [⟨events.length + 1, path, op, actor, ts⟩])
        (due ++ [(s.epoch, ⟨events.length + 1, path, op, actor, ts⟩)]) { s with server := server } := by
  have hepoch := h.cursorEpoch
  refine ⟨hserver, ?_, ?_, h.cursorEpoch, ?_, ?_, ?_⟩
  . intro e ev hmem
    rcases List.mem_append.mp hmem with hold | hlast
    . exact h.epochs e ev hold
    . cases List.mem_singleton.mp hlast
      exact Nat.le_refl _
  . intro ev hmem
    rcases List.mem_append.mp hmem with hold | hlast
    . obtain ⟨i, hi, hget⟩ := h.current ev hold
      refine ⟨i, hi, ?_⟩
      rw [List.getElem?_append_left (List.getElem?_eq_some_iff.mp hget).1]
      exact hget
    . cases List.mem_singleton.mp hlast
      exact ⟨events.length, rfl, List.getElem?_concat_length⟩
  . intro heq
    rw [List.length_append]
    exact Nat.le_add_right_of_le (h.lastSeq heq)
  . apply h.reached.publish
    rcases Nat.lt_or_eq_of_le hepoch with hlt | heq
    . exact .inl hlt
    . exact .inr ⟨heq, Nat.lt_succ_of_le (h.lastSeq heq)⟩
  . have hlink := h.link
    unfold LinkOk at hlink ⊢
    cases hl : s.link with
    | none => trivial
    | connected c read =>
      rw [hl] at hlink
      obtain ⟨conn, hget, hreading⟩ := hlink
      rw [hconns]
      exact ⟨conn, hget, hreading.publish (Nat.lt_succ_self _)⟩
    | broken epoch rest =>
      rw [hl] at hlink
      obtain ⟨hle, past, hpast, hbroken⟩ := hlink
      obtain ⟨cursor, last, hstreams, hresumes⟩ := hbroken.resumes
      refine ⟨hle, past, ?_, ?_, cursor, last, hstreams, ?_⟩
      . intro heq
        rw [List.length_append]
        exact Nat.le_add_right_of_le (hpast heq)
      . apply hbroken.dueFrom.publish
        intro heq
        exact ⟨events.length, rfl, hpast heq⟩
      . rcases hresumes with hnil | hresumes
        . exact .inl hnil
        . right
          have hnew : epoch < s.epoch ∨ epoch = s.epoch ∧ past.length < events.length + 1 := by
            rcases Nat.lt_or_eq_of_le hle with hlt | heq
            . exact .inl hlt
            . exact .inr ⟨heq, Nat.lt_succ_of_le (hpast heq)⟩
          have hpublish : Resumes (due ++ [(s.epoch, ⟨events.length + 1, path, op, actor, ts⟩)])
              s.handled epoch (past ++ []) cursor rest :=
            hresumes.publish hnew []
          rw [List.append_nil] at hpublish
          exact hpublish

theorem Ok.serverStep (hserver : server.Ok size events)
    (hlink : LinkOk events due { s with server := server, link := link })
    : Ok size events due { s with server := server, link := link } :=
  { h with server := hserver, link := hlink }

theorem Ok.linkOk
    (hconn : ∀ c read conn, s.link = .connected c read → s.server.conns.get? c = some conn →
      Reading events due s.handled s.epoch s.lastSeq conn read →
      ∃ conn', server.conns.get? c = some conn' ∧ Reading events due s.handled s.epoch s.lastSeq conn' read)
    : LinkOk events due { s with server := server } := by
  have hlink := h.link
  unfold LinkOk at hlink ⊢
  cases hl : s.link with
  | none => trivial
  | connected c read =>
    rw [hl] at hlink
    obtain ⟨conn, hget, hreading⟩ := hlink
    exact hconn c read conn hl hget hreading
  | broken epoch rest =>
    rw [hl] at hlink
    exact hlink

end

theorem get?_setConn (s : EventSystem) (c c') (conn)
    : (s.setConn c conn).conns.get? c' = if c' = c then some conn else s.conns.get? c' := by
  exact FMap.get?_set _ _ _ _

section

variable (h : Ok size events due s)

include h

theorem Ok.setConn (hget : s.server.conns.get? c = some conn)
    (hconn : ∀ read, s.link = .connected c read → Reading events due s.handled s.epoch s.lastSeq conn read →
      Reading events due s.handled s.epoch s.lastSeq conn' read)
    (hserver : server.conns = (s.server.setConn c conn').conns)
    : LinkOk events due { s with server := server } := by
  apply h.linkOk
  intro c1 read conn1 hl hget1 hreading
  rw [hserver, get?_setConn]
  split
  . next heq =>
    subst heq
    rw [hget] at hget1
    cases hget1
    exact ⟨conn', rfl, hconn read hl hreading⟩
  . exact ⟨conn1, hget1, hreading⟩

theorem Ok.quiet (hserver : server.Ok size (events ++ EventSystem.published n [l]))
    (hquiet : EventSystem.published n [l] = [])
    (hlink : LinkOk events due { s with server := server, link := link })
    : Ok size (events ++ EventSystem.published n [l])
        (due ++ (EventSystem.published n [l]).map fun ev => (s.epoch, ev))
        { s with server := server, link := link } := by
  rw [hquiet, append_nil] at hserver ⊢
  rw [map_nil, append_nil]
  exact h.serverStep hserver hlink

theorem Ok.reachedSince (hsize : 0 < size) {read : Nat}
    (hl : s.cursorIsCurrent size (.server (.eventsSince c)) = true)
    (hlink : s.link = .connected c read)
    (hget : s.server.conns.get? c = some conn) (hsub : conn.phase = .subscribed)
    (hsince : conn.since = s.lastSeq) (hok : (s.server.bus.eventsSince size conn.since).ok = true)
    : Reached due s.handled s.epoch conn.since := by
  obtain ⟨_, hbounds⟩ := h.server.bus.eventsSince hsize conn.since
  obtain ⟨hpos, hle, hwindow, _⟩ := hbounds hok
  unfold cursorIsCurrent at hl
  rw [hlink] at hl
  dsimp only at hl
  rw [hget] at hl
  have hseq := h.server.bus.seq
  simp [hsub] at hl
  have hcurrent : s.cursorEpoch = s.epoch := by
    rcases hl with (((hepoch | hzero) | hahead) | hold)
    . exact hepoch
    . omega
    . omega
    . omega
  rw [← hcurrent, hsince]
  exact h.reached

theorem Ok.onServer (hsize : 0 < size) (hl : s.cursorIsCurrent size (.server l) = true)
    (hstep : s.server.step size l = some server)
    : Ok size (events ++ EventSystem.published events.length [l])
        (due ++ (EventSystem.published events.length [l]).map fun ev => (s.epoch, ev))
        { s with server := server, link := s.afterServer l } := by
  have hserver := h.server.step hsize hstep
  unfold EventSystem.step at hstep
  cases l with
  | publish path op actor ts =>
    cases hstep
    exact h.publish hserver rfl
  | subscribe c since =>
    obtain ⟨hnone, rfl⟩ := Lts.of_guard hstep
    refine h.quiet hserver rfl (h.linkOk ?_)
    intro c1 read conn hlink hget hreading
    refine ⟨conn, ?_, hreading⟩
    rw [get?_setConn, if_neg]
    . exact hget
    . rintro rfl
      rw [hget] at hnone
      contradiction
  | eventsSince c =>
    obtain ⟨conn, hget, hstep⟩ := bind_eq_some_iff.mp hstep
    obtain ⟨conn', hconn, rfl⟩ := map_eq_some_iff.mp hstep
    refine h.quiet hserver rfl (h.setConn hget ?_ rfl)
    intro read hlink hreading
    apply hreading.eventsSince hsize (h.server.conns c conn hget) h.server.bus _ hconn
    intro hsub hok
    exact h.reachedSince hsize hl hlink hget hsub (hreading.since hsub) hok
  | send c =>
    obtain ⟨conn, hget, hstep⟩ := bind_eq_some_iff.mp hstep
    obtain ⟨conn', hconn, rfl⟩ := map_eq_some_iff.mp hstep
    refine h.quiet hserver rfl (h.setConn hget ?_ rfl)
    intro read hlink hreading
    exact hreading.send (h.server.conns c conn hget) hconn
  | receive c =>
    obtain ⟨conn, hget, hstep⟩ := bind_eq_some_iff.mp hstep
    unfold EventSystem.receive at hstep
    obtain ⟨hguard, rfl⟩ := Lts.of_guard hstep
    refine h.quiet hserver rfl (h.setConn hget ?_ rfl)
    intro read hlink hreading
    exact hreading.notified hguard.1
  | heartbeat c =>
    obtain ⟨conn, hget, hstep⟩ := bind_eq_some_iff.mp hstep
    obtain ⟨conn', hconn, rfl⟩ := map_eq_some_iff.mp hstep
    refine h.quiet hserver rfl (h.setConn hget ?_ rfl)
    intro read hlink hreading
    exact hreading.sendHeartbeat hconn
  | close c =>
    obtain ⟨conn, hget, rfl⟩ := map_eq_some_iff.mp hstep
    apply h.quiet hserver rfl
    have hlinkOk := h.link
    have hbreak := h.breakLink
    unfold LinkOk at hlinkOk
    unfold LinkOk afterServer
    unfold LinkOk WatchSystem.breakLink at hbreak
    unfold WatchSystem.breakLink
    cases hlink : s.link with
    | none => trivial
    | connected c1 read =>
      rw [hlink] at hlinkOk hbreak
      dsimp only at hbreak ⊢
      by_cases heq : c = c1
      . rw [if_pos heq]
        exact hbreak
      . rw [if_neg heq]
        obtain ⟨conn1, hget1, hreading⟩ := hlinkOk
        refine ⟨conn1, ?_, hreading⟩
        rw [FMap.get?_del, if_neg]
        . exact hget1
        . exact fun hc => heq hc.symm
    | broken epoch rest =>
      rw [hlink] at hlinkOk
      exact hlinkOk

theorem Ok.connect (hsize : 0 < size)
    (hstep : s.server.step size (.subscribe c s.lastSeq) = some server)
    : Ok size events due { s with server := server, link := .connected c 0 } := by
  have hserver := h.server.step hsize hstep
  unfold EventSystem.published EventSystem.published at hserver
  rw [append_nil] at hserver
  unfold EventSystem.step at hstep
  obtain ⟨_, rfl⟩ := Lts.of_guard hstep
  apply h.serverStep hserver
  refine ⟨⟨s.lastSeq, s.server.bus.nextID, s.lastSeq, .subscribed, []⟩, ?_, ?_⟩
  . exact FMap.get?_set_self _ _ _
  . exact ⟨Nat.le_refl _, fun _ => rfl, s.lastSeq, .nil, .inl rfl⟩

theorem Ok.restart : Ok size [] due
    { s with server := .init size, epoch := s.epoch + 1, link := s.breakLink } := by
  have hepoch := h.cursorEpoch
  refine ⟨EventSystem.ok_init size, ?_, ?_, ?_, ?_, h.reached, ?_⟩
  . intro e ev hmem
    exact Nat.le_succ_of_le (h.epochs e ev hmem)
  . intro ev hmem
    have hle := h.epochs _ ev hmem
    dsimp only at hle
    omega
  . exact Nat.le_succ_of_le hepoch
  . intro heq
    dsimp only at heq
    omega
  . have hbreak := h.breakLink
    unfold LinkOk at hbreak ⊢
    unfold WatchSystem.breakLink at hbreak ⊢
    dsimp only at hbreak ⊢
    cases hlink : s.link with
    | none => trivial
    | connected c read | broken epoch rest =>
      rw [hlink] at hbreak
      obtain ⟨hle, past, _, hbroken⟩ := hbreak
      refine ⟨Nat.le_succ_of_le hle, past, ?_, hbroken⟩
      intro heq
      omega

end

theorem history_server (epoch n) (l) (ls)
    : history epoch n (.server l :: ls)
      = (EventSystem.published n [l]).map (fun ev => (epoch, ev))
        ++ history epoch (n + (EventSystem.published n [l]).length) ls := by
  cases l with
  | publish path op actor ts | _ => rfl

theorem epoch_of_deliver (hstep : s.deliver = some s') : s'.epoch = s.epoch := by
  unfold WatchSystem.deliver at hstep
  cases hlink : s.link with
  | none =>
    rw [hlink] at hstep
    contradiction
  | connected c read =>
    rw [hlink] at hstep
    dsimp only at hstep
    split at hstep
    . contradiction
    . cases hstep
      exact (dispatch_server s s.epoch _).2
  | broken epoch rest =>
    rw [hlink] at hstep
    cases rest with
    | nil => contradiction
    | cons m rest =>
      cases hstep
      exact (dispatch_server s epoch m).2

theorem Ok.run (h : Ok size events due s) (hsize : 0 < size)
    (hok : Lts.Along (WatchSystem.step size) (fun s l => s.cursorIsCurrent size l = true) s labels)
    (hexec : Lts.exec (WatchSystem.step size) s labels = some s')
    : ∃ events', Ok size events' (due ++ history s.epoch events.length labels) s' := by
  induction labels generalizing s events due with
  | nil =>
    cases hexec
    refine ⟨events, ?_⟩
    unfold history
    rw [append_nil]
    exact h
  | cons l ls ih =>
    obtain ⟨s1, hstep, hexec1⟩ := Lts.of_exec_cons hexec
    obtain ⟨hl, hls⟩ := hok
    rw [hstep] at hls
    unfold WatchSystem.step at hstep
    cases l with
    | server l =>
      obtain ⟨server, hserver, rfl⟩ := map_eq_some_iff.mp hstep
      have hrun := ih (h.onServer hsize hl hserver) hls hexec1
      rw [history_server, ← append_assoc, ← length_append]
      exact hrun
    | connect c =>
      dsimp only at hstep
      split at hstep
      . obtain ⟨server, hserver, rfl⟩ := map_eq_some_iff.mp hstep
        have hrun := ih (h.connect hsize hserver) hls hexec1
        exact hrun
      . contradiction
    | deliver =>
      have hrun := ih (h.deliver hstep) hls hexec1
      rw [epoch_of_deliver hstep] at hrun
      exact hrun
    | drop =>
      cases hstep
      have hnext : Ok size events due { s with link := s.breakLink } :=
        h.serverStep h.server h.breakLink
      have hrun := ih hnext hls hexec1
      exact hrun
    | disconnect =>
      cases hstep
      have hnext : Ok size events due { s with link := .none } := h.serverStep h.server trivial
      have hrun := ih hnext hls hexec1
      exact hrun
    | restart =>
      cases hstep
      have hrun := ih h.restart hls hexec1
      exact hrun

theorem Ok.upToDate (h : Ok size events due s) (hup : s.upToDate = true) (hmem : (e, ev) ∈ due)
    : Covered s.handled e ev := by
  have hlink := h.link
  unfold LinkOk at hlink
  unfold WatchSystem.upToDate at hup
  cases hl : s.link with
  | none | broken epoch rest =>
    rw [hl] at hup
    contradiction
  | connected c read =>
    rw [hl] at hup hlink
    obtain ⟨conn, hget, hreading⟩ := hlink
    dsimp only at hup
    rw [hget, Option.any_some] at hup
    simp only [ne_eq, Bool.and_eq_true, decide_eq_true_eq, decide_not, Bool.not_eq_eq_eq_not,
      Bool.not_true, decide_eq_false_iff_not] at hup
    obtain ⟨⟨hwaiting, hsignal⟩, hread⟩ := hup
    -- nothing is left to read, so the connection is where the client is
    obtain ⟨_, _, hhead⟩ := h.server.conn hget
    obtain ⟨cursor, hstreams, hresumes⟩ := hreading.resumes
    unfold Conn.unsent at hresumes
    rw [hread, List.drop_length] at hstreams hresumes
    rw [hwaiting] at hresumes
    cases hstreams
    rcases hresumes with hsub | ⟨hreached, _⟩ | ⟨_, _, _, heq⟩
    . contradiction
    . apply hreached e ev hmem
      rcases Nat.lt_or_eq_of_le (h.epochs e ev hmem) with hlt | heq
      . exact .inl hlt
      . right
        refine ⟨heq, ?_⟩
        rw [heq] at hmem
        obtain ⟨i, hi, hget'⟩ := h.current ev hmem
        have hlt := (List.getElem?_eq_some_iff.mp hget').1
        rw [hhead hwaiting hsignal]
        omega
    . contradiction

/--
In every run in which the client's cursor is only answered by the server process it is from, or
refused, a client that is up to date has got every event of the run or a reset after it.
-/
theorem watcher_misses_nothing {size : Nat} (hsize : 1 ≤ size) {labels : List WatchLabel}
    {s : WatchSystem}
    (hok : Lts.Along (step size) (fun s l => s.cursorIsCurrent size l = true) (.init size) labels)
    (hexec : Lts.exec (step size) (.init size) labels = some s) (hup : s.upToDate = true)
    : ∀ e ev, (e, ev) ∈ history 0 0 labels → Covered s.handled e ev := by
  obtain ⟨events, h⟩ := (ok_init size).run hsize hok hexec
  intro e ev hmem
  exact h.upToDate hup hmem

def restartedOnce : List WatchLabel :=
  [.connect 0, .server (.eventsSince 0), .server (.send 0), .server (.send 0), .deliver,
    .server (.publish ['/', 'a'] .write [] 0), .server (.receive 0), .server (.eventsSince 0), .server (.send 0),
    .deliver, .restart, .disconnect, .connect 0, .server (.eventsSince 0), .server (.send 0), .server (.send 0),
    .deliver, .server (.publish ['/', 'b'] .delete [] 0), .server (.receive 0), .server (.eventsSince 0),
    .server (.send 0), .server (.send 0), .deliver]

theorem watcher_misses_nothing_restarted
    : ∃ s, Lts.exec (step 4) (.init 4) restartedOnce = some s ∧ s.upToDate = true
      ∧ Covered s.handled 0 ⟨1, ['/', 'a'], .write, [], 0⟩
      ∧ Covered s.handled 1 ⟨1, ['/', 'b'], .delete, [], 0⟩ := by
  have hok : Lts.Along (step 4) (fun s l => s.cursorIsCurrent 4 l = true) (.init 4) restartedOnce := by
    decide +kernel
  apply Lts.exists_of_any (·.upToDate = true) (by decide +kernel)
  intro s hexec hup
  have hsize : 1 ≤ 4 := by decide
  have hcovered := watcher_misses_nothing hsize hok hexec hup
  refine ⟨hup, hcovered 0 _ ?_, hcovered 1 _ ?_⟩
  . decide
  . decide

def cursorOfOldProcess : List WatchLabel :=
  [.server (.publish ['/', 'a'] .write [] 0), .server (.publish ['/', 'b'] .write [] 0), .connect 0,
    .server (.eventsSince 0), .server (.send 0), .server (.send 0), .deliver, .restart, .disconnect,
    .server (.publish ['/', 'x'] .write [] 0), .server (.publish ['/', 'y'] .write [] 0),
    .server (.publish ['/', 'z'] .write [] 0), .connect 0, .server (.eventsSince 0), .server (.send 0),
    .server (.send 0), .deliver]

theorem watcher_misses_events_of_new_process
    : ∃ s, Lts.exec (step 4) (.init 4) cursorOfOldProcess = some s ∧ s.upToDate = true
      ∧ (1, ⟨1, ['/', 'x'], .write, [], 0⟩) ∈ history 0 0 cursorOfOldProcess
      ∧ ¬ Covered s.handled 1 ⟨1, ['/', 'x'], .write, [], 0⟩ := by
  apply Lts.exists_of_any
    (fun s => s.upToDate = true
      ∧ s.handled = [(0, .reset 2 .initialSync none), (1, .fileChanged ⟨3, ['/', 'z'], .write, [], 0⟩)])
    (by decide +kernel)
  intro s _ ⟨hup, hhandled⟩
  refine ⟨hup, by decide, ?_⟩
  rw [hhandled]
  rintro (hdelivered | ⟨epoch', seq, reason, hreset, hlater⟩)
  . revert hdelivered
    decide
  . simp at hreset
    omega

end WatchSystem

end Events
