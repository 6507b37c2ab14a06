import Drive9.Server.Events.Impl

/-!
This module contains `WatchEvents` of `pkg/client/events.go` together with the server that it
connects to.
-/

namespace Events

def Message.seq? (m : Message) : Option Nat :=
  match m with
  | .fileChanged ev => some ev.seq
  | .reset seq _ _ => some seq
  | .heartbeat _ => none

inductive Link where
  | none
  | connected (c read : Nat)
  | broken (epoch : Nat) (rest : List Message)
  deriving DecidableEq

structure WatchSystem where
  server : EventSystem
  epoch : Nat
  lastSeq : Nat
  cursorEpoch : Nat
  link : Link
  handled : List (Nat × Message)

inductive WatchLabel where
  | server (l : EventLabel)
  | connect (c : Nat)
  | deliver
  | drop
  | disconnect
  | restart

namespace WatchSystem

def init (size : Nat) : WatchSystem := ⟨.init size, 0, 0, 0, .none, []⟩

def unread (s : WatchSystem) (c read : Nat) : List Message :=
  match s.server.conns.get? c with
  | none => []
  | some conn => conn.sent.drop read

def breakLink (s : WatchSystem) : Link :=
  match s.link with
  | .connected c read => .broken s.epoch (s.unread c read)
  | link => link

def dispatch (s : WatchSystem) (epoch : Nat) (m : Message) : WatchSystem :=
  match m.seq? with
  | none => s
  | some seq =>
    { s with
      lastSeq := if seq > s.lastSeq then seq else s.lastSeq
      cursorEpoch := if seq > s.lastSeq then epoch else s.cursorEpoch
      handled := s.handled ++ [(epoch, m)] }

def deliver (s : WatchSystem) : Option WatchSystem :=
  match s.link with
  | .none => none
  | .connected c read =>
    match s.unread c read with
    | [] => none
    | m :: _ => some { s.dispatch s.epoch m with link := .connected c (read + 1) }
  | .broken _ [] => none
  | .broken epoch (m :: rest) => some { s.dispatch epoch m with link := .broken epoch rest }

def afterServer (s : WatchSystem) (l : EventLabel) : Link :=
  match l, s.link with
  | .close c', .connected c _ => if c' = c then s.breakLink else s.link
  | _, link => link

def step (size : Nat) (s : WatchSystem) (l : WatchLabel) : Option WatchSystem :=
  match l with
  | .server l =>
    (s.server.step size l).map fun server => { s with server := server, link := s.afterServer l }
  | .connect c =>
    if s.link = .none then
      (s.server.step size (.subscribe c s.lastSeq)).map fun server =>
        { s with server := server, link := .connected c 0 }
    else
      none
  | .deliver => s.deliver
  | .drop => some { s with link := s.breakLink }
  | .disconnect => some { s with link := .none }
  | .restart => some { s with server := .init size, epoch := s.epoch + 1, link := s.breakLink }

def history (epoch n : Nat) (labels : List WatchLabel) : List (Nat × ChangeEvent) :=
  match labels with
  | [] => []
  | .server (.publish path op actor ts) :: labels =>
    (epoch, ⟨n + 1, path, op, actor, ts⟩) :: history epoch (n + 1) labels
  | .restart :: labels => history (epoch + 1) 0 labels
  | _ :: labels => history epoch n labels

def upToDate (s : WatchSystem) : Bool :=
  match s.link with
  | .connected c read =>
    (s.server.conns.get? c).any fun conn =>
      conn.phase = .waiting && s.server.bus.listeners.get? conn.subID ≠ some true && read = conn.sent.length
  | _ => false

/--
A new connection of the client is answered with the events after a cursor that is from the running
server process. A cursor from another one is refused, since it is ahead of the bus or older than the
ring.
-/
def cursorIsCurrent (size : Nat) (s : WatchSystem) (l : WatchLabel) : Bool :=
  match l, s.link with
  | .server (.eventsSince c), .connected c' _ =>
    c ≠ c' || (s.server.conns.get? c).all fun conn =>
      conn.phase ≠ .subscribed || s.cursorEpoch = s.epoch || conn.since = 0 || s.server.bus.seq < conn.since
        || conn.since + size < s.server.bus.seq
  | _, _ => true

end WatchSystem

/--
The event was delivered, or a reset that was made after it.
-/
def Covered (handled : List (Nat × Message)) (epoch : Nat) (ev : ChangeEvent) : Prop :=
  (epoch, sendSSEEvent ev) ∈ handled
    ∨ ∃ epoch' seq reason, (epoch', .reset seq reason none) ∈ handled
      ∧ (epoch < epoch' ∨ epoch = epoch' ∧ ev.seq ≤ seq)

end Events
