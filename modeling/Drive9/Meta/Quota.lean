import Drive9.Lib.FMap
import Drive9.Lib.Transaction
import Drive9.Datastore.Path
import Mathlib.Data.Char
import Mathlib.Data.List.Lex
import Mathlib.Data.List.Sort

/-!
This module contains the quota tables of the server database, `pkg/meta/quota.go`.
-/

namespace Quota

open Transaction (require)

abbrev TenantID := Str
abbrev FileID := Str
abbrev UploadID := Str

structure QuotaUsage where
  storageBytes : Int
  reservedBytes : Int
  mediaFileCount : Int
  deriving DecidableEq

structure FileMeta where
  sizeBytes : Int
  isMedia : Bool

inductive ReservationStatus where
  | active
  | completed
  | aborted
  deriving DecidableEq

structure UploadReservation where
  reservedBytes : Int
  targetPath : Str
  status : ReservationStatus
  expiresAt : Int
  deriving DecidableEq

structure LLMUsageRecord where
  tenantID : TenantID
  taskType : Str
  taskID : Str
  costMillicents : Int
  rawUnits : Int
  rawUnitType : Str

inductive QuotaError where
  -- `tenant_quota_usage row missing`
  | usageRowMissing
  | storageQuotaExceeded
  | reservationAlreadyExists
  -- `mutation already applied or not pending`
  | notPending
  | unmarshal
  deriving DecidableEq

structure QuotaState where
  usage : FMap TenantID QuotaUsage
  maxStorageBytes : FMap TenantID Int
  fileMeta : FMap (TenantID × FileID) FileMeta
  reservations : FMap (TenantID × UploadID) UploadReservation
  llmUsage : List LLMUsageRecord
  monthlyLLMCost : FMap (TenantID × Int) Int

abbrev QuotaTx := StateT QuotaState (Except QuotaError)

namespace QuotaState

def empty : QuotaState := ⟨.empty, .empty, .empty, .empty, [], .empty⟩

def getQuotaUsage (s : QuotaState) (tenantID : TenantID) : QuotaUsage :=
  (s.usage.get? tenantID).getD ⟨0, 0, 0⟩

def ensureQuotaUsageRow (s : QuotaState) (tenantID : TenantID) : QuotaState :=
  if (s.usage.get? tenantID).isSome then s else { s with usage := s.usage.set tenantID ⟨0, 0, 0⟩ }

def defaultMaxStorageBytes : Int := 53687091200

def storageLimit (s : QuotaState) (tenantID : TenantID) : Int :=
  (s.maxStorageBytes.get? tenantID).getD defaultMaxStorageBytes

end QuotaState

variable (tenantID : TenantID)

def updateUsageTx (g : QuotaUsage → QuotaUsage) : QuotaTx Unit := do
  match (← get).usage.get? tenantID with
  | none => throw .usageRowMissing
  | some u => do
    require (g u ≠ u) .usageRowMissing
    modify fun s => { s with usage := s.usage.set tenantID (g u) }

def incrStorageBytesTx (delta : Int) : QuotaTx Unit :=
  updateUsageTx tenantID fun u => { u with storageBytes := u.storageBytes + delta }

def incrReservedBytesTx (delta : Int) : QuotaTx Unit :=
  updateUsageTx tenantID fun u => { u with reservedBytes := u.reservedBytes + delta }

def incrMediaFileCountTx (delta : Int) : QuotaTx Unit :=
  updateUsageTx tenantID fun u => { u with mediaFileCount := u.mediaFileCount + delta }

def transferReservedToConfirmedTx (reservedDelta storageDelta : Int) : QuotaTx Unit :=
  updateUsageTx tenantID fun u =>
    { u with reservedBytes := u.reservedBytes + reservedDelta, storageBytes := u.storageBytes + storageDelta }

def atomicReserveAndInsertUpload (uploadID : UploadID) (reservedBytes : Int) (targetPath : Str)
    (expiresAt : Int) : QuotaTx Unit := do
  let s ← get
  match s.usage.get? tenantID with
  | none => throw .storageQuotaExceeded
  | some u => do
    require (u.storageBytes + u.reservedBytes + reservedBytes ≤ s.storageLimit tenantID ∧ reservedBytes ≠ 0)
      .storageQuotaExceeded
    modify fun s =>
      { s with usage := s.usage.set tenantID { u with reservedBytes := u.reservedBytes + reservedBytes } }
    require ((s.reservations.get? (tenantID, uploadID)).isNone) .reservationAlreadyExists
    modify fun s =>
      { s with
        reservations := s.reservations.set (tenantID, uploadID) ⟨reservedBytes, targetPath, .active, expiresAt⟩ }

def upsertFileMetaTx (fileID : FileID) (fm : FileMeta) : QuotaTx Unit :=
  modify fun s => { s with fileMeta := s.fileMeta.set (tenantID, fileID) fm }

def deleteFileMetaIfExistsTx (fileID : FileID) : QuotaTx Bool := do
  let s ← get
  set { s with fileMeta := s.fileMeta.del (tenantID, fileID) }
  pure (s.fileMeta.get? (tenantID, fileID)).isSome

def UploadReservation.settle (status : ReservationStatus) (r : UploadReservation)
    : UploadReservation :=
  if r.status = .active then { r with status := status } else r

def updateUploadReservationStatusTx (uploadID : UploadID) (status : ReservationStatus)
    : QuotaTx Unit :=
  modify fun s => { s with reservations := s.reservations.modify (tenantID, uploadID) (.settle status) }

def settleActiveReservationTx (uploadID : UploadID) (status : ReservationStatus)
    : QuotaTx Bool := do
  let s ← get
  updateUploadReservationStatusTx tenantID uploadID status
  pure ((s.reservations.get? (tenantID, uploadID)).any (·.status = .active))

namespace QuotaState

def reservedSum (s : QuotaState) (tenantID : TenantID) (p : UploadReservation → Bool) : Int :=
  s.reservations.sumOn fun key r => if key.1 = tenantID ∧ p r then r.reservedBytes else 0

def settleAll (s : QuotaState) (p : TenantID → UploadReservation → Bool) : QuotaState :=
  { s with
    reservations := s.reservations.mapValues fun key r => if p key.1 r then { r with status := .aborted } else r }

end QuotaState

def abortActiveUploadReservations : QuotaTx Unit := do
  let total := (← get).reservedSum tenantID (·.status = .active)
  if total ≠ 0 then
    updateUsageTx tenantID fun u => { u with reservedBytes := max (u.reservedBytes - total) 0 }
  modify fun s => s.settleAll fun t r => t = tenantID && r.status = .active

def UploadReservation.expired (now : Int) (r : UploadReservation) : Bool :=
  r.status = .active && r.expiresAt < now

def releaseExpiredTx (now : Int) : List TenantID → QuotaTx Unit
  | [] => pure ()
  | tenantID :: tenants => do
    let released := (← get).reservedSum tenantID (·.expired now)
    incrReservedBytesTx tenantID (-released)
    releaseExpiredTx now tenants

def expireActiveReservations (now : Int) : QuotaTx Unit := do
  let s ← get
  let expired := s.reservations.keys.filter fun key => (s.reservations.get? key).any (·.expired now)
  releaseExpiredTx now (expired.map Prod.fst).dedup
  modify fun s => s.settleAll fun _ r => r.expired now

def insertCentralLLMUsageTx (r : LLMUsageRecord) : QuotaTx Unit :=
  modify fun s => { s with llmUsage := s.llmUsage ++ [r] }

def incrMonthlyLLMCostTx (month costMC : Int) : QuotaTx Unit :=
  modify fun s =>
    { s with
      monthlyLLMCost :=
        s.monthlyLLMCost.set (tenantID, month) ((s.monthlyLLMCost.get? (tenantID, month)).getD 0 + costMC) }

inductive MutationType where
  | fileCreate
  | fileOverwrite
  | fileDelete
  | uploadComplete
  | llmCostRecord
  | other (name : Str)
  deriving DecidableEq

inductive MutationStatus where
  | pending
  | applied
  | failed
  deriving DecidableEq

structure MutationLogEntry (J : Type) where
  tenantID : TenantID
  mutationType : MutationType
  mutationData : J
  status : MutationStatus
  retryCount : Int
  createdAt : Int

structure QuotaStore (J : Type) where
  state : QuotaState
  mutationLog : List (MutationLogEntry J)

namespace QuotaStore

variable {J : Type}

def empty : QuotaStore J := ⟨.empty, []⟩

def insertMutationLog (s : QuotaStore J) (tenantID : TenantID) (mutationType : MutationType)
    (mutationData : J)
    (now : Int) : QuotaStore J :=
  { s with mutationLog := s.mutationLog ++ [⟨tenantID, mutationType, mutationData, .pending, 0, now⟩] }

def setStatus (s : QuotaStore J) (id : Nat) (status : MutationStatus) : QuotaStore J :=
  { s with mutationLog := s.mutationLog.modify id fun e => { e with status := status } }

def applied (s : QuotaStore J) (id : Nat) (x : QuotaTx Unit) : Except QuotaError (QuotaStore J) :=
  match x s.state with
  | .error err => .error err
  | .ok (_, state) =>
    if (s.mutationLog[id]?).any (·.status = .pending) then
      .ok ({ s with state := state }.setStatus id .applied)
    else
      .error .notPending

def incrMutationRetry (s : QuotaStore J) (id : Nat) (maxRetries : Int) : QuotaStore J :=
  { s with
    mutationLog := s.mutationLog.modify id fun e =>
      if e.status = .pending then
        { e with
          retryCount := e.retryCount + 1
          status := if e.retryCount + 1 ≥ maxRetries then .failed else .pending }
      else
        e }

def listPendingMutations (s : QuotaStore J) (cutoff : Int) (limit : Nat)
    : List (Nat × MutationLogEntry J) :=
  let pending := (s.mutationLog.zipIdx.map Prod.swap).filter fun e => e.2.status = .pending && e.2.createdAt < cutoff
  (pending.insertionSort fun a b => a.2.tenantID ≤ b.2.tenantID).take limit

end QuotaStore

end Quota
