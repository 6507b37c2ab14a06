import Drive9.Lib.Lts
import Drive9.Meta.Quota

/-!
This module contains the quota mutations of `pkg/backend`.
-/

namespace Quota

open Transaction (require)

structure FileCreateMutationData where
  fileID : FileID
  sizeBytes : Int
  isMedia : Bool
  deriving DecidableEq

structure FileOverwriteMutationData where
  fileID : FileID
  oldSizeBytes : Int
  oldIsMedia : Bool
  newSizeBytes : Int
  newIsMedia : Bool
  deriving DecidableEq

structure FileDeleteMutationData where
  fileID : FileID
  sizeBytes : Int
  isMedia : Bool

structure UploadCompleteMutationData where
  uploadID : UploadID
  fileID : FileID
  reservedBytes : Int
  oldSizeBytes : Int
  oldIsMedia : Bool
  newSizeBytes : Int
  newIsMedia : Bool
  deriving DecidableEq

structure LLMCostMutationData where
  taskType : Str
  taskID : Str
  costMillicents : Int
  rawUnits : Int
  rawUnitType : Str
  deriving DecidableEq

structure Codec (J α : Type) where
  marshal : α → J
  unmarshal : J → Option α
  unmarshal_marshal : ∀ a, unmarshal (marshal a) = some a

structure MutationCodec (J : Type) where
  fileCreate : Codec J FileCreateMutationData
  fileOverwrite : Codec J FileOverwriteMutationData
  fileDelete : Codec J FileDeleteMutationData
  uploadComplete : Codec J UploadCompleteMutationData
  llmCost : Codec J LLMCostMutationData

inductive PlainData where
  | fileCreate (data : FileCreateMutationData)
  | fileOverwrite (data : FileOverwriteMutationData)
  | fileDelete (data : FileDeleteMutationData)
  | uploadComplete (data : UploadCompleteMutationData)
  | llmCost (data : LLMCostMutationData)

def plainCodec : MutationCodec PlainData where
  fileCreate := ⟨.fileCreate, fun | .fileCreate data => some data | _ => none, fun _ => rfl⟩
  fileOverwrite := ⟨.fileOverwrite, fun | .fileOverwrite data => some data | _ => none, fun _ => rfl⟩
  fileDelete := ⟨.fileDelete, fun | .fileDelete data => some data | _ => none, fun _ => rfl⟩
  uploadComplete := ⟨.uploadComplete, fun | .uploadComplete data => some data | _ => none, fun _ => rfl⟩
  llmCost := ⟨.llmCost, fun | .llmCost data => some data | _ => none, fun _ => rfl⟩

def whenTx (c : Bool) (x : QuotaTx Unit) : QuotaTx Unit := if c then x else pure ()

def mediaDelta (oldIsMedia newIsMedia : Bool) : Int :=
  if !oldIsMedia && newIsMedia then 1 else if oldIsMedia && !newIsMedia then -1 else 0

variable (tenantID : TenantID)

def applyUploadCompleteTx (data : UploadCompleteMutationData) : QuotaTx Unit := do
  let mediaDelta := mediaDelta data.oldIsMedia data.newIsMedia
  let settled ← settleActiveReservationTx tenantID data.uploadID .completed
  if settled then
    transferReservedToConfirmedTx tenantID (-data.reservedBytes) data.reservedBytes
  else
    whenTx (data.newSizeBytes ≠ 0) (incrStorageBytesTx tenantID data.newSizeBytes)
  whenTx (data.oldSizeBytes ≠ 0) (incrStorageBytesTx tenantID (-data.oldSizeBytes))
  upsertFileMetaTx tenantID data.fileID ⟨data.newSizeBytes, data.newIsMedia⟩
  whenTx (mediaDelta ≠ 0) (incrMediaFileCountTx tenantID mediaDelta)

inductive Mutation where
  | fileCreate (data : FileCreateMutationData)
  | fileOverwrite (data : FileOverwriteMutationData)
  | uploadComplete (data : UploadCompleteMutationData)
  | llmCostRecord (data : LLMCostMutationData)
  deriving DecidableEq

namespace Mutation

def mutationType (m : Mutation) : MutationType :=
  match m with
  | .fileCreate _ => .fileCreate
  | .fileOverwrite _ => .fileOverwrite
  | .uploadComplete _ => .uploadComplete
  | .llmCostRecord _ => .llmCostRecord

def marshal {J : Type} (codec : MutationCodec J) (m : Mutation) : J :=
  match m with
  | .fileCreate data => codec.fileCreate.marshal data
  | .fileOverwrite data => codec.fileOverwrite.marshal data
  | .uploadComplete data => codec.uploadComplete.marshal data
  | .llmCostRecord data => codec.llmCost.marshal data

def logs (m : Mutation) (tenantID : TenantID) : Bool :=
  match m with
  | .uploadComplete _ => true
  | _ => tenantID ≠ []

end Mutation

def syncCentralFileCreateTx (fileID : FileID) (sizeBytes : Int) (isMedia : Bool) : QuotaTx Unit := do
  upsertFileMetaTx tenantID fileID ⟨sizeBytes, isMedia⟩
  whenTx (sizeBytes ≠ 0) (incrStorageBytesTx tenantID sizeBytes)
  whenTx isMedia (incrMediaFileCountTx tenantID 1)

def syncCentralFileOverwriteTx (fileID : FileID) (oldSize : Int) (oldIsMedia : Bool)
    (newSize : Int) (newIsMedia : Bool) : QuotaTx Unit := do
  let storageDelta := newSize - oldSize
  let mediaDelta := mediaDelta oldIsMedia newIsMedia
  upsertFileMetaTx tenantID fileID ⟨newSize, newIsMedia⟩
  whenTx (storageDelta ≠ 0) (incrStorageBytesTx tenantID storageDelta)
  whenTx (mediaDelta ≠ 0) (incrMediaFileCountTx tenantID mediaDelta)

def syncCentralLLMCostRecordTx (month : Int) (taskType taskID : Str) (costMillicents rawUnits : Int)
    (rawUnitType : Str) : QuotaTx Unit := do
  insertCentralLLMUsageTx ⟨tenantID, taskType, taskID, costMillicents, rawUnits, rawUnitType⟩
  incrMonthlyLLMCostTx tenantID month costMillicents

def inlineTx (month : Int) (m : Mutation) : QuotaTx Unit :=
  match m with
  | .fileCreate data => syncCentralFileCreateTx tenantID data.fileID data.sizeBytes data.isMedia
  | .fileOverwrite data =>
    syncCentralFileOverwriteTx tenantID data.fileID data.oldSizeBytes data.oldIsMedia data.newSizeBytes data.newIsMedia
  | .uploadComplete data => applyUploadCompleteTx tenantID data
  | .llmCostRecord data =>
    syncCentralLLMCostRecordTx tenantID month data.taskType data.taskID data.costMillicents data.rawUnits
      data.rawUnitType

section Replay

variable {J : Type}

def unmarshalTx {α : Type} (codec : Codec J α) (j : J) : QuotaTx α :=
  match codec.unmarshal j with
  | none => throw .unmarshal
  | some a => pure a

def replayFileCreateTx (data : FileCreateMutationData) : QuotaTx Unit := do
  upsertFileMetaTx tenantID data.fileID ⟨data.sizeBytes, data.isMedia⟩
  whenTx (data.sizeBytes ≠ 0) (incrStorageBytesTx tenantID data.sizeBytes)
  whenTx data.isMedia (incrMediaFileCountTx tenantID 1)

def replayFileOverwriteTx (data : FileOverwriteMutationData) : QuotaTx Unit := do
  upsertFileMetaTx tenantID data.fileID ⟨data.newSizeBytes, data.newIsMedia⟩
  let storageDelta := data.newSizeBytes - data.oldSizeBytes
  whenTx (storageDelta ≠ 0) (incrStorageBytesTx tenantID storageDelta)
  let mediaDelta := mediaDelta data.oldIsMedia data.newIsMedia
  whenTx (mediaDelta ≠ 0) (incrMediaFileCountTx tenantID mediaDelta)

def replayFileDeleteTx (data : FileDeleteMutationData) : QuotaTx Unit := do
  let deleted ← deleteFileMetaIfExistsTx tenantID data.fileID
  if !deleted then
    pure ()
  else do
    whenTx (data.sizeBytes ≠ 0) (incrStorageBytesTx tenantID (-data.sizeBytes))
    whenTx data.isMedia (incrMediaFileCountTx tenantID (-1))

def replayLLMCostRecordTx (month : Int) (data : LLMCostMutationData) : QuotaTx Unit := do
  insertCentralLLMUsageTx
    ⟨tenantID, data.taskType, data.taskID, data.costMillicents, data.rawUnits, data.rawUnitType⟩
  incrMonthlyLLMCostTx tenantID month data.costMillicents

def applyMutation (codec : MutationCodec J) (month : Int) (entry : MutationLogEntry J)
    : QuotaTx Unit :=
  match entry.mutationType with
  | .fileCreate =>
    do replayFileCreateTx entry.tenantID (← unmarshalTx codec.fileCreate entry.mutationData)
  | .fileOverwrite =>
    do replayFileOverwriteTx entry.tenantID (← unmarshalTx codec.fileOverwrite entry.mutationData)
  | .fileDelete =>
    do replayFileDeleteTx entry.tenantID (← unmarshalTx codec.fileDelete entry.mutationData)
  | .uploadComplete =>
    do applyUploadCompleteTx entry.tenantID (← unmarshalTx codec.uploadComplete entry.mutationData)
  | .llmCostRecord =>
    do replayLLMCostRecordTx entry.tenantID month (← unmarshalTx codec.llmCost entry.mutationData)
  | .other _ => pure ()

end Replay

def replayMinAge : Int := 5
def replayBatchLimit : Nat := 100
def replayMaxRetries : Int := 5

structure Inline where
  id : Nat
  tenantID : TenantID
  mutation : Mutation

structure Worker (J : Type) where
  entries : List (Nat × MutationLogEntry J)
  blockedTenants : List TenantID
  retry : Option Nat

structure QuotaSystem (J : Type) where
  store : QuotaStore J
  inlines : FMap Nat Inline
  workers : FMap Nat (Worker J)

inductive QuotaLabel where
  | log (r : Nat) (tenantID : TenantID) (m : Mutation) (now : Int)
  | inline (r : Nat) (month : Int)
  | inlineFail (r : Nat)
  | list (w : Nat) (now : Int)
  | replay (w : Nat) (month : Int)
  | replayFail (w : Nat)
  | retry (w : Nat)
  | retryFail (w : Nat)
  | incrRetry (id : Nat) (maxRetries : Int)
  deriving DecidableEq

namespace Worker

variable {J : Type}

def idle : Worker J := ⟨[], [], none⟩

def finished (w : Worker J) : Bool := w.entries.isEmpty && w.retry.isNone

def next? (w : Worker J) : Option (Nat × MutationLogEntry J) :=
  if w.retry.isSome then none else w.entries.find? fun e => w.blockedTenants.all (· ≠ e.2.tenantID)

def dropSkipped (w : Worker J) : List (Nat × MutationLogEntry J) :=
  (w.entries.dropWhile fun e => !w.blockedTenants.all (· ≠ e.2.tenantID)).tail

def succeeded (w : Worker J) : Worker J := { w with entries := w.dropSkipped }

def failed (w : Worker J) (e : Nat × MutationLogEntry J) : Worker J :=
  ⟨w.dropSkipped, e.2.tenantID :: w.blockedTenants, some e.1⟩

end Worker

namespace QuotaSystem

variable {J : Type}

def init (store : QuotaStore J) : QuotaSystem J := ⟨store, .empty, .empty⟩

def worker (s : QuotaSystem J) (w : Nat) : Worker J := (s.workers.get? w).getD .idle

def setWorker (s : QuotaSystem J) (w : Nat) (wk : Worker J) : QuotaSystem J :=
  { s with workers := s.workers.set w wk }

def logMutation (codec : MutationCodec J) (s : QuotaSystem J) (r : Nat) (tenantID : TenantID)
    (m : Mutation) (now : Int)
    : Option (QuotaSystem J) :=
  if (s.inlines.get? r).isNone && m.logs tenantID then
    some { s with
      store := s.store.insertMutationLog tenantID m.mutationType (m.marshal codec) now
      inlines := s.inlines.set r ⟨s.store.mutationLog.length, tenantID, m⟩ }
  else
    none

def runInline (s : QuotaSystem J) (r : Nat) (i : Inline) (month : Int) : QuotaSystem J :=
  match s.store.applied i.id (inlineTx i.tenantID month i.mutation) with
  | .error _ => { s with inlines := s.inlines.del r }
  | .ok store => { s with store := store, inlines := s.inlines.del r }

def replayOne (codec : MutationCodec J) (s : QuotaSystem J) (w : Nat) (e : Nat × MutationLogEntry J)
    (month : Int)
    : QuotaSystem J :=
  match s.store.applied e.1 (applyMutation codec month e.2) with
  | .error _ => s.setWorker w ((s.worker w).failed e)
  | .ok store => { s.setWorker w (s.worker w).succeeded with store := store }

def step (codec : MutationCodec J) (s : QuotaSystem J) (l : QuotaLabel) : Option (QuotaSystem J) :=
  match l with
  | .log r tenantID m now => s.logMutation codec r tenantID m now
  | .inline r month => (s.inlines.get? r).map fun i => s.runInline r i month
  | .inlineFail r => (s.inlines.get? r).map fun _ => { s with inlines := s.inlines.del r }
  | .list w now =>
    if (s.worker w).finished then
      some (s.setWorker w ⟨s.store.listPendingMutations (now - replayMinAge) replayBatchLimit, [], none⟩)
    else
      none
  | .replay w month => (s.worker w).next?.map fun e => s.replayOne codec w e month
  | .replayFail w => (s.worker w).next?.map fun e => s.setWorker w ((s.worker w).failed e)
  | .retry w =>
    (s.worker w).retry.map fun id =>
      { s.setWorker w { s.worker w with retry := none } with
        store := s.store.incrMutationRetry id replayMaxRetries }
  | .retryFail w => (s.worker w).retry.map fun _ => s.setWorker w { s.worker w with retry := none }
  | .incrRetry id maxRetries => some { s with store := s.store.incrMutationRetry id maxRetries }

end QuotaSystem

end Quota
