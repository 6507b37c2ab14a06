import Drive9.Lib.FMap
import Drive9.Lib.Lts
import Drive9.Meta.Tenants

/-!
This module contains the tenant pool of `pkg/tenant`: a bounded cache of backends, one for each
tenant, that are pinned while they are in use.
-/

namespace TenantPool

open Meta

abbrev BackendID := Nat

structure Tenant where
  id : TenantID
  status : TenantStatus
  s3EncryptionPolicy : S3EncryptionPolicy
  storageNamespaceID : Str

structure Entry where
  tenantID : TenantID
  storageNamespaceID : Str
  s3EncryptionPolicy : S3EncryptionPolicy
  refs : Nat
  retired : Bool

def Entry.fits (e : Entry) (t : Tenant) : Bool :=
  e.s3EncryptionPolicy = t.s3EncryptionPolicy
    && (t.storageNamespaceID = [] || e.storageNamespaceID = t.storageNamespaceID)

structure Pool where
  maxSize : Nat
  items : FMap TenantID BackendID
  order : List BackendID
  entries : FMap BackendID Entry

namespace Pool

def removeLocked (p : Pool) (b : BackendID) : Pool × List BackendID :=
  match p.entries.get? b with
  | none => (p, [])
  | some e =>
    let p :=
      { p with
        order := p.order.erase b, items := p.items.del e.tenantID,
        entries := p.entries.set b { e with retired := true } }
    (p, if e.refs = 0 then [b] else [])

def moveToFront (p : Pool) (b : BackendID) : Pool := { p with order := b :: p.order.erase b }

def pin (p : Pool) (b : BackendID) : Pool :=
  { p with entries := p.entries.modify b fun e => { e with refs := e.refs + 1 } }

def pushFront (p : Pool) (t : Tenant) (b : BackendID) (refs : Nat) : Pool :=
  { p with
    order := b :: p.order, items := p.items.set t.id b,
    entries := p.entries.set b ⟨t.id, t.storageNamespaceID, t.s3EncryptionPolicy, refs, false⟩ }

def shrink (bound : Nat) (fuel : Nat) (p : Pool) (toClose : List BackendID)
    : Pool × List BackendID :=
  match fuel with
  | 0 => (p, toClose)
  | fuel + 1 =>
    if bound < p.order.length then
      match p.order.getLast? with
      | none => (p, toClose)
      | some oldest =>
        let (p, removed) := p.removeLocked oldest
        shrink bound fuel p (toClose ++ removed)
    else
      (p, toClose)

def entry? (p : Pool) (tenantID : TenantID) : Option (BackendID × Entry) :=
  (p.items.get? tenantID).bind fun b => (p.entries.get? b).map fun e => (b, e)

def invalidate (p : Pool) (tenantID : TenantID) : Pool × List BackendID :=
  match p.entry? tenantID with
  | none => (p, [])
  | some (b, _) => p.removeLocked b

def insert (p : Pool) (t : Tenant) (b : BackendID) (refs : Nat) : Pool × List BackendID :=
  let (p, toClose) := p.invalidate t.id
  let p := p.pushFront t b refs
  p.shrink p.maxSize p.order.length toClose

def closeAll (p : Pool) : Pool × List BackendID := p.shrink 0 p.order.length []

def releaseEntry (p : Pool) (b : BackendID) : Pool × List BackendID :=
  match p.entries.get? b with
  | none => (p, [])
  | some e =>
    let e := { e with refs := e.refs - 1 }
    ({ p with entries := p.entries.set b e }, if e.refs = 0 && e.retired then [b] else [])

end Pool

inductive CallKind where
  | get
  | acquire

def CallKind.refs : CallKind → Nat
  | .get => 0
  | .acquire => 1

inductive Call where
  | creating (kind : CallKind) (t : Tenant)
  | created (kind : CallKind) (t : Tenant) (b : BackendID)
  | draining (tenantID : TenantID) (retired : BackendID) (since : Nat)
  | idling (tenantID : TenantID) (since : Nat)

structure Handle where
  tenantID : TenantID
  backend : BackendID
  released : Bool
  deriving DecidableEq

structure PoolSystem where
  pool : Pool
  calls : FMap Nat Call
  handles : List Handle
  created : Nat
  closing : List BackendID
  closed : List BackendID
  drained : List (TenantID × Nat)

inductive PoolLabel where
  | lookup (call : Nat) (kind : CallKind) (t : Tenant)
  | createBackend (call : Nat) (storageNamespaceID : Option Str)
  | insert (call : Nat)
  | release (handle : Nat)
  | invalidate (tenantID : TenantID)
  | invalidateAndWait (call : Nat) (tenantID : TenantID)
  | waitTenantIdle (call : Nat) (tenantID : TenantID)
  | poll (call : Nat)
  | giveUp (call : Nat)
  | closeAll
  | closeEntry (b : BackendID)

namespace PoolSystem

variable (s : PoolSystem)

def init (maxSize : Nat) : PoolSystem :=
  ⟨⟨maxSize, FMap.empty, [], FMap.empty⟩, FMap.empty, [], 0, [], [], []⟩

def commit (r : Pool × List BackendID) : PoolSystem :=
  { s with pool := r.1, closing := s.closing ++ r.2 }

def hand (kind : CallKind) (tenantID : TenantID) (b : BackendID) : PoolSystem :=
  match kind with
  | .get => s
  | .acquire => { s with handles := s.handles ++ [⟨tenantID, b, false⟩] }

def hit (kind : CallKind) (tenantID : TenantID) (b : BackendID) : PoolSystem :=
  let pool :=
    match kind with
    | .get => s.pool
    | .acquire => s.pool.pin b
  { s with pool := pool.moveToFront b }.hand kind tenantID b

def lookup (call : Nat) (kind : CallKind) (t : Tenant) : PoolSystem :=
  if t.status = .active then
    match s.pool.entry? t.id with
    | none => { s with calls := s.calls.set call (.creating kind t) }
    | some (b, e) =>
      if e.fits t then
        s.hit kind t.id b
      else
        { s.commit (s.pool.removeLocked b) with calls := s.calls.set call (.creating kind t) }
  else
    s.commit (s.pool.invalidate t.id)

def insert (s : PoolSystem) (call : Nat) (kind : CallKind) (t : Tenant) (b : BackendID)
    : PoolSystem :=
  let s := { s with calls := s.calls.del call }
  match (s.pool.entry? t.id).filter (·.2.fits t) with
  | some (cached, _) =>
    match kind with
    | .get => { s with closed := b :: s.closed }.hit kind t.id cached
    | .acquire => { s with closing := s.closing ++ [b] }.hit kind t.id cached
  | none => (s.commit (s.pool.insert t b kind.refs)).hand kind t.id b

def release (i : Nat) : Option PoolSystem :=
  match s.handles[i]? with
  | none => none
  | some h =>
    if h.released then
      some s
    else
      some { s.commit (s.pool.releaseEntry h.backend) with handles := s.handles.set i { h with released := true } }

def invalidateAndWait (call : Nat) (tenantID : TenantID) : PoolSystem :=
  let r := s.pool.invalidate tenantID
  let since := s.handles.length
  match s.pool.entry? tenantID with
  | none => { s with drained := (tenantID, since) :: s.drained }
  | some (b, _) =>
    if r.2.isEmpty then
      { s.commit r with calls := s.calls.set call (.draining tenantID b since) }
    else
      { s.commit r with drained := (tenantID, since) :: s.drained }

def poll (call : Nat) : Option PoolSystem :=
  match s.calls.get? call with
  | some (.draining tenantID retired since) =>
    if (s.pool.entries.get? retired).all (·.refs = 0) then
      some { s with calls := s.calls.del call, drained := (tenantID, since) :: s.drained }
    else
      some s
  | some (.idling tenantID since) =>
    if (s.pool.entry? tenantID).all (·.2.refs = 0) then
      some { s with calls := s.calls.del call, drained := (tenantID, since) :: s.drained }
    else
      some s
  | _ => none

def free (call : Nat) : Bool := (s.calls.get? call).isNone

def step (label : PoolLabel) : Option PoolSystem :=
  match label with
  | .lookup call kind t => if s.free call then some (s.lookup call kind t) else none
  | .createBackend call storageNamespaceID =>
    match s.calls.get? call with
    | some (.creating kind t) =>
      match storageNamespaceID with
      -- `createBackend` failed
      | none => some { s with calls := s.calls.del call }
      | some storageNamespaceID =>
        some { s with
          calls := s.calls.set call (.created kind { t with storageNamespaceID } s.created), created := s.created + 1 }
    | _ => none
  | .insert call =>
    match s.calls.get? call with
    | some (.created kind t b) => some (s.insert call kind t b)
    | _ => none
  | .release i => s.release i
  | .invalidate tenantID => some (s.commit (s.pool.invalidate tenantID))
  | .invalidateAndWait call tenantID =>
    if s.free call then some (s.invalidateAndWait call tenantID) else none
  | .waitTenantIdle call tenantID =>
    if s.free call then some { s with calls := s.calls.set call (.idling tenantID s.handles.length) } else none
  | .poll call => s.poll call
  | .giveUp call =>
    match s.calls.get? call with
    | some (.draining ..) | some (.idling ..) => some { s with calls := s.calls.del call }
    | _ => none
  | .closeAll => some (s.commit s.pool.closeAll)
  | .closeEntry b =>
    if s.closing.any (· = b) then
      some { s with closing := s.closing.erase b, closed := b :: s.closed }
    else
      none

end PoolSystem

end TenantPool
