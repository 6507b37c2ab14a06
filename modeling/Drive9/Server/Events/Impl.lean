import Drive9.Lib.FMap
import Drive9.Lib.Lts
import Drive9.Lib.RingBuffer
import Drive9.Datastore.Path

/-!
This module contains the event bus of a tenant, `pkg/server/eventbus.go`, and the connections that
stream its events, `handleEvents` of `pkg/server/sse.go`.
-/

namespace Events

inductive ChangeOp where
  | write
  | create
  | delete
  | rename
  | mkdir
  | copy
  | uploadComplete
  deriving DecidableEq

structure ChangeEvent where
  seq : Nat
  path : Str
  op : ChangeOp
  actor : Str
  ts : Int
  deriving DecidableEq

def ChangeEvent.zero : ChangeEvent := ⟨0, [], .write, [], 0⟩

structure EventBus where
  seq : Nat
  ring : RingBuffer ChangeEvent
  listeners : FMap Nat Bool
  nextID : Nat

namespace EventBus

def new (size : Nat) : EventBus := ⟨0, .empty size .zero, .empty, 0⟩

def publish (size : Nat) (eb : EventBus) (path : Str) (op : ChangeOp) (actor : Str) (ts : Int)
    : EventBus :=
  { eb with
    seq := eb.seq + 1
    ring := eb.ring.push size ⟨eb.seq + 1, path, op, actor, ts⟩
    listeners := eb.listeners.mapValues fun _ _ => true }

def subscribe (eb : EventBus) : EventBus :=
  { eb with nextID := eb.nextID + 1, listeners := eb.listeners.set eb.nextID false }

def unsubscribe (eb : EventBus) (id : Nat) : EventBus :=
  { eb with listeners := eb.listeners.del id }

def receive (eb : EventBus) (id : Nat) : EventBus :=
  { eb with listeners := eb.listeners.set id false }

structure Since where
  events : List ChangeEvent
  headSeq : Nat
  ok : Bool

def eventsSince (size : Nat) (eb : EventBus) (since : Nat) : Since :=
  if since = 0 then
    ⟨[], eb.seq, false⟩
  else if eb.ring.count = 0 then
    ⟨[], eb.seq, false⟩
  else
    let oldestSeq := ((eb.ring.oldest? size).getD .zero).seq
    let newestSeq := ((eb.ring.newest? size).getD .zero).seq
    if since + 1 < oldestSeq then
      ⟨[], eb.seq, false⟩
    else if since > newestSeq then
      ⟨[], eb.seq, false⟩
    else if since = newestSeq then
      ⟨[], eb.seq, true⟩
    else
      ⟨(eb.ring.walk size).filter fun ev => ev.seq > since, eb.seq, true⟩

end EventBus

inductive ResetReason where
  | initialSync
  | seqTooOld
  | serverRestart
  | structuralChange
  deriving DecidableEq

inductive Message where
  | fileChanged (ev : ChangeEvent)
  -- with `path`, `op` and `actor` of the event for a structural change
  | reset (seq : Nat) (reason : ResetReason) (ev : Option ChangeEvent)
  | heartbeat (seq : Nat)
  deriving DecidableEq

def isStructuralOp (op : ChangeOp) : Bool :=
  match op with
  | .rename => true
  | .delete => true
  | .mkdir => true
  | .copy => true
  | _ => false

def sendSSEEvent (ev : ChangeEvent) : Message :=
  if isStructuralOp ev.op then .reset ev.seq .structuralChange (some ev) else .fileChanged ev

def sendSSEReset (seq : Nat) (reason : ResetReason) : Message := .reset seq reason none

inductive Phase where
  | subscribed
  | sending (rest : List (Nat × Message))
  | waiting
  | notified
  deriving DecidableEq

structure Conn where
  since : Nat
  subID : Nat
  lastSeen : Nat
  phase : Phase
  sent : List Message

namespace Conn

def answer (r : EventBus.Since) (reason : ResetReason) : List (Nat × Message) :=
  if r.ok then r.events.map fun ev => (ev.seq, sendSSEEvent ev) else [(r.headSeq, sendSSEReset r.headSeq reason)]

def resetReason (since headSeq : Nat) : ResetReason :=
  if since > 0 then if since > headSeq then .serverRestart else .seqTooOld else .initialSync

def eventsSince (size : Nat) (eb : EventBus) (c : Conn) : Option Conn :=
  match c.phase with
  | .subscribed =>
    let r := eb.eventsSince size c.since
    some { c with lastSeen := c.since, phase := .sending (answer r (resetReason c.since r.headSeq)) }
  | .notified =>
    some { c with phase := .sending (answer (eb.eventsSince size c.lastSeen) .seqTooOld) }
  | _ => none

def send (c : Conn) : Option Conn :=
  match c.phase with
  | .sending [] => some { c with phase := .waiting }
  | .sending (m :: rest) =>
    some { c with lastSeen := m.1, sent := c.sent ++ [m.2], phase := .sending rest }
  | _ => none

def sendHeartbeat (c : Conn) : Option Conn :=
  if c.phase = .waiting then some { c with sent := c.sent ++ [.heartbeat c.lastSeen] } else none

end Conn

structure EventSystem where
  bus : EventBus
  conns : FMap Nat Conn

inductive EventLabel where
  | publish (path : Str) (op : ChangeOp) (actor : Str) (ts : Int)
  | subscribe (c since : Nat)
  | eventsSince (c : Nat)
  | send (c : Nat)
  | receive (c : Nat)
  | heartbeat (c : Nat)
  -- the client is gone or a write has failed
  | close (c : Nat)

namespace EventSystem

def init (size : Nat) : EventSystem := ⟨.new size, .empty⟩

def setConn (s : EventSystem) (c : Nat) (conn : Conn) : EventSystem :=
  { s with conns := s.conns.set c conn }

def receive (s : EventSystem) (c : Nat) (conn : Conn) : Option EventSystem :=
  if conn.phase = .waiting ∧ s.bus.listeners.get? conn.subID = some true then
    some { s.setConn c { conn with phase := .notified } with bus := s.bus.receive conn.subID }
  else
    none

def step (size : Nat) (s : EventSystem) (l : EventLabel) : Option EventSystem :=
  match l with
  | .publish path op actor ts => some { s with bus := s.bus.publish size path op actor ts }
  | .subscribe c since =>
    if (s.conns.get? c).isNone then
      some { s.setConn c ⟨since, s.bus.nextID, since, .subscribed, []⟩ with bus := s.bus.subscribe }
    else
      none
  | .eventsSince c =>
    (s.conns.get? c).bind fun conn => (conn.eventsSince size s.bus).map (s.setConn c)
  | .send c => (s.conns.get? c).bind fun conn => conn.send.map (s.setConn c)
  | .receive c => (s.conns.get? c).bind (s.receive c)
  | .heartbeat c => (s.conns.get? c).bind fun conn => conn.sendHeartbeat.map (s.setConn c)
  | .close c =>
    (s.conns.get? c).map fun conn => { s with bus := s.bus.unsubscribe conn.subID, conns := s.conns.del c }

def published (n : Nat) (labels : List EventLabel) : List ChangeEvent :=
  match labels with
  | [] => []
  | .publish path op actor ts :: labels => ⟨n + 1, path, op, actor, ts⟩ :: published (n + 1) labels
  | _ :: labels => published n labels

end EventSystem

end Events
