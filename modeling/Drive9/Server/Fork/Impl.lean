import Drive9.Lib.FMap
import Drive9.Lib.Lts
import Drive9.Meta.Tenants

/-!
This module contains the life of one fork tenant in `pkg/server`: how it is provisioned, how its
deletion is requested and how it is cleaned up.
-/

namespace Fork

open Meta

structure Branch where
  clusterID : Str
  branchID : Str
  dbHost : Str
  dbPort : Nat
  dbUser : Str
  deriving DecidableEq

def Branch.reachable (b : Branch) : Bool := b.dbHost ≠ [] && b.dbPort ≠ 0 && b.dbUser ≠ []

structure ForkTenant where
  kind : TenantKind
  status : TenantStatus
  branch : Branch

inductive ProvisionStage where
  | getSource
  | expireReservations
  | hasReservations
  | connectBranch
  -- `InitSchema`, `HasActiveUploads` and `SanitizeForkRuntimeState`, on the branch
  | prepareBranch
  | copyQuotaConfig
  | backfillQuota
  | updateSchemaVersion
  | activate

inductive CleanupStage where
  | drainPool
  | abortReservations
  | enqueueConfirmedRefs
  | enqueueFileGCRefs
  | sanitize
  | deleteBranch
  | markDeleted

inductive ForkCall where
  | provision (t : ForkTenant) (stage : ProvisionStage)
  | delete (t : ForkTenant)
  | revokeKeys
  | cleanup (t : ForkTenant) (stage : CleanupStage)

inductive Outcome where
  | ok
  | error
  | branch (b : Branch)
  | branchLeft (clusterID branchID : Str)
  deriving DecidableEq

structure ForkSystem where
  tenant : ForkTenant
  calls : FMap Nat ForkCall

inductive ForkLabel where
  | provisionForkTenantOnce (call : Nat)
  | handleForkDelete (call : Nat)
  | cleanupForkTenant (call : Nat)
  | next (call : Nat) (outcome : Outcome)

namespace ForkSystem

variable (s : ForkSystem)

def init (t : ForkTenant) : ForkSystem := ⟨t, FMap.empty⟩

def goto (call : Nat) (c : ForkCall) : ForkSystem := { s with calls := s.calls.set call c }

def finish (call : Nat) : ForkSystem := { s with calls := s.calls.del call }

def setStatus (status : TenantStatus) : ForkSystem := { s with tenant := { s.tenant with status } }

def provisionForkTenantOnce (call : Nat) : ForkSystem :=
  match s.tenant.kind, s.tenant.status with
  | .fork, .provisioning => s.goto call (.provision s.tenant .getSource)
  | _, _ => s

def handleForkDelete (call : Nat) : ForkSystem :=
  match s.tenant.kind, s.tenant.status with
  | .live, _ => s
  | .fork, .deleted => s
  | .fork, .deleting => s
  | .fork, _ => s.goto call (.delete s.tenant)

def cleanupForkTenant (call : Nat) : ForkSystem :=
  match s.tenant.kind with
  | .live => s
  | .fork => s.goto call (.cleanup s.tenant .drainPool)

def connectBranch (call : Nat) (t : ForkTenant) (outcome : Outcome) : ForkSystem :=
  match outcome with
  | .error => s.finish call
  -- `deleteForkBranchOrPersist`
  | .branchLeft clusterID branchID =>
    { s with tenant := { s.tenant with branch := { s.tenant.branch with clusterID, branchID } } }.finish call
  | .ok =>
    if t.branch.branchID ≠ [] && t.branch.reachable then
      s.goto call (.provision t .prepareBranch)
    else
      s.finish call
  | .branch b =>
    let s := { s with tenant := { s.tenant with branch := b } }
    if t.branch.branchID ≠ [] || b.reachable then
      s.goto call (.provision t .prepareBranch)
    else
      s.finish call

def provisionNext (call : Nat) (t : ForkTenant) (stage : ProvisionStage) (outcome : Outcome)
    : ForkSystem :=
  match stage with
  | .connectBranch => s.connectBranch call t outcome
  | _ =>
    if outcome ≠ .ok then
      s.finish call
    else
      match stage with
      | .getSource => s.goto call (.provision t .expireReservations)
      | .expireReservations => s.goto call (.provision t .hasReservations)
      | .hasReservations => s.goto call (.provision t .connectBranch)
      | .connectBranch => s
      | .prepareBranch => s.goto call (.provision t .copyQuotaConfig)
      | .copyQuotaConfig => s.goto call (.provision t .backfillQuota)
      | .backfillQuota => s.goto call (.provision t .updateSchemaVersion)
      | .updateSchemaVersion => s.goto call (.provision t .activate)
      -- `UpdateTenantStatus`
      | .activate => (s.setStatus .active).finish call

def deleteNext (call : Nat) (t : ForkTenant) (outcome : Outcome) : ForkSystem :=
  if outcome ≠ .ok then
    s.finish call
  else if s.tenant.status = t.status then
    (s.setStatus .deleting).goto call .revokeKeys
  else
    s.finish call

def cleanupNext (call : Nat) (t : ForkTenant) (stage : CleanupStage) (outcome : Outcome)
    : ForkSystem :=
  match stage with
  -- An error of `AbortActiveUploadReservations` is ignored.
  | .abortReservations =>
    if t.branch.branchID = [] then
      s.finish call
    else if t.status ≠ .deleting then
      s.goto call (.cleanup t .deleteBranch)
    else
      s.goto call (.cleanup t .enqueueConfirmedRefs)
  | _ =>
    if outcome ≠ .ok then
      s.finish call
    else
      match stage with
      | .drainPool => s.goto call (.cleanup t .abortReservations)
      | .abortReservations => s
      | .enqueueConfirmedRefs => s.goto call (.cleanup t .enqueueFileGCRefs)
      | .enqueueFileGCRefs => s.goto call (.cleanup t .sanitize)
      | .sanitize => s.goto call (.cleanup t .deleteBranch)
      | .deleteBranch => s.goto call (.cleanup t .markDeleted)
      -- `UpdateTenantStatus`
      | .markDeleted => (s.setStatus .deleted).finish call

def step (label : ForkLabel) : Option ForkSystem :=
  match label with
  | .provisionForkTenantOnce call =>
    if (s.calls.get? call).isNone then some (s.provisionForkTenantOnce call) else none
  | .handleForkDelete call =>
    if (s.calls.get? call).isNone then some (s.handleForkDelete call) else none
  | .cleanupForkTenant call =>
    if (s.calls.get? call).isNone then some (s.cleanupForkTenant call) else none
  | .next call outcome =>
    match s.calls.get? call with
    | none => none
    | some (.provision t stage) => some (s.provisionNext call t stage outcome)
    | some (.delete t) => some (s.deleteNext call t outcome)
    -- `RevokeTenantAPIKeys`, then the cleanup is started
    | some .revokeKeys => some (s.finish call)
    | some (.cleanup t stage) => some (s.cleanupNext call t stage outcome)

end ForkSystem

end Fork
