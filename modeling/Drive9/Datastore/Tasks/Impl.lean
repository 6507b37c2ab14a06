import Drive9.Journal.Impl
import Drive9.Lib.FMap
import Drive9.Lib.Lts

/-!
This module contains the task queues of `pkg/datastore`: `semantic_tasks` and `file_gc_tasks`.
-/

namespace Tasks

open Journal (trimSpace)

abbrev TaskID := Str
abbrev Receipt := Str
abbrev TaskType := Str

inductive TaskStatus where
  | queued
  | processing
  | succeeded
  | failed
  | deadLettered
  deriving DecidableEq

structure Task (κ π : Type) where
  key : κ
  payload : π
  status : TaskStatus
  attemptCount : Nat
  maxAttempts : Int
  receipt : Option Receipt
  leasedAt : Option Int
  leaseUntil : Option Int
  availableAt : Int
  lastError : Option Str
  createdAt : Int
  updatedAt : Int
  completedAt : Option Int

structure NewTask (κ π : Type) where
  taskID : TaskID
  key : κ
  payload : π
  maxAttempts : Int
  availableAt : Option Int
  createdAt : Option Int
  updatedAt : Option Int

inductive TaskError where
  | taskNotFound
  | leaseMismatch
  | uniqueViolation
  -- `claim task type is required`
  | claimTypeRequired
  -- `file_id is required`
  | fileIDRequired
  deriving DecidableEq

abbrev TaskTable (κ π : Type) := FMap TaskID (Task κ π)

structure Queue (κ π : Type) where
  prepare : NewTask κ π → Except TaskError (NewTask κ π)
  defaultMaxAttempts : Int
  -- A `task_id` that is taken by a task with another key.
  onTakenID : Except TaskError Bool
  eligible : List TaskType → κ → Bool
  exhausted : Task κ π → Bool
  exhausted_iff : ∀ t, 0 < t.maxAttempts → (exhausted t = true ↔ t.maxAttempts ≤ t.attemptCount)
  -- Requeueing in place, renewing and dead-lettering are there for semantic tasks only.
  semantic : Bool
  payloadOr : π → π → π

structure SemanticKey where
  taskType : TaskType
  resourceID : Str
  resourceVersion : Int
  deriving DecidableEq

def semanticTasks : Queue SemanticKey Str where
  prepare := .ok
  defaultMaxAttempts := 5
  onTakenID := .error .uniqueViolation
  eligible := fun types key => types.isEmpty || types.any (· = key.taskType)
  exhausted := fun t => t.maxAttempts ≤ t.attemptCount
  exhausted_iff := by
    intro t _
    exact decide_eq_true_iff
  semantic := true
  payloadOr := fun new old => if new = [] then old else new

structure FileGCData where
  storageType : Str
  storageRef : Str
  sizeBytes : Int
  contentType : Str

def prepareFileGCTask (task : NewTask Str FileGCData) : Except TaskError (NewTask Str FileGCData) :=
  let task := if trimSpace task.taskID = [] then { task with taskID := task.key } else task
  if trimSpace task.key = [] then .error .fileIDRequired else .ok task

def fileGCTasks : Queue Str FileGCData where
  prepare := prepareFileGCTask
  defaultMaxAttempts := 0
  onTakenID := .ok false
  eligible := fun _ _ => true
  exhausted := fun t => 0 < t.maxAttempts && t.maxAttempts ≤ t.attemptCount
  exhausted_iff := by
    intro t h
    rw [decide_eq_true h, Bool.true_and]
    exact decide_eq_true_iff
  semantic := false
  payloadOr := fun new _ => new

def leaseOr (leaseDuration : Int) : Int := if leaseDuration ≤ 0 then 30 else leaseDuration

namespace Task

variable {κ π : Type}

variable (t : Task κ π)

def holds (receipt : Receipt) (now : Int) : Bool :=
  t.status = .processing && t.receipt = some receipt && t.leaseUntil.any (now < ·)

def holdsScanned (receipt : Receipt) (now : Int) : Bool :=
  t.status = .processing && t.receipt.getD [] = receipt && t.leaseUntil.any (now < ·)

def expired (now : Int) : Bool :=
  t.status = .processing && t.leaseUntil.any (· < now)

def free : Task κ π := { t with receipt := none, leasedAt := none, leaseUntil := none }

def claimed (receipt : Receipt) (now leaseUntil : Int) : Task κ π :=
  { t with
    status := .processing, attemptCount := t.attemptCount + 1, receipt := some receipt, leasedAt := some now,
    leaseUntil := some leaseUntil, updatedAt := now }

def acked (now : Int) : Task κ π :=
  { t.free with status := .succeeded, completedAt := some now, updatedAt := now }

def dead (lastErr : Option Str) (now : Int) : Task κ π :=
  { t.free with status := .deadLettered, lastError := lastErr, completedAt := some now, updatedAt := now }

def renewed (now leaseUntil : Int) : Task κ π :=
  { t with leaseUntil := some leaseUntil, updatedAt := now }

def retried (retryAt : Int) (lastErr : Option Str) (now : Int) : Task κ π :=
  { t.free with
    status := .queued, availableAt := retryAt, lastError := lastErr, completedAt := none, updatedAt := now }

def recovered (now : Int) : Task κ π :=
  { t.free with status := .queued, availableAt := now, updatedAt := now }

end Task

variable {κ π : Type} [DecidableEq κ]

def newRow (q : Queue κ π) (now : Int) (task : NewTask κ π) : Task κ π :=
  let createdAt := task.createdAt.getD now
  { key := task.key, payload := task.payload, status := .queued, attemptCount := 0,
    maxAttempts := if task.maxAttempts ≤ 0 then q.defaultMaxAttempts else task.maxAttempts,
    receipt := none, leasedAt := none, leaseUntil := none, availableAt := task.availableAt.getD now,
    lastError := none, createdAt, updatedAt := task.updatedAt.getD createdAt, completedAt := none }

def byKey? (table : TaskTable κ π) (key : κ) : Option (TaskID × Task κ π) :=
  table.toList.find? fun row => row.2.key = key

def enqueueTask (q : Queue κ π) (now : Int) (task : NewTask κ π) (table : TaskTable κ π)
    : Except TaskError (Bool × TaskTable κ π) := do
  let task ← q.prepare task
  if (byKey? table task.key).isSome then
    pure (false, table)
  else if (table.get? task.taskID).isSome then
    pure (← q.onTakenID, table)
  else
    pure (true, table.set task.taskID (newRow q now task))

def requeue (q : Queue κ π) (now : Int) (task : NewTask κ π) (t : Task κ π) : Task κ π :=
  { t.free with
    status := .queued, availableAt := task.availableAt.getD now, payload := q.payloadOr task.payload t.payload,
    lastError := none, maxAttempts := if 0 < task.maxAttempts then task.maxAttempts else t.maxAttempts,
    completedAt := none, updatedAt := now }

def ensureTaskQueued (q : Queue κ π) (now : Int) (task : NewTask κ π) (table : TaskTable κ π)
    : Except TaskError (Bool × TaskTable κ π) := do
  let (created, table) ← enqueueTask q now task table
  if created then
    pure (true, table)
  else
    match byKey? table task.key with
    | none => .error .taskNotFound
    | some (taskID, t) =>
      if t.status = .processing && t.leaseUntil.any (now < ·) then
        pure (false, table)
      else
        pure (true, table.set taskID (requeue q now task t))

def normalizeClaimTaskTypes (types : List TaskType) : Except TaskError (List TaskType) :=
  if types.any (trimSpace · = []) then .error .claimTypeRequired else .ok types.dedup

def inOrder (time : Task κ π → Int) (a b : TaskID × Task κ π) : Bool :=
  time a.2 < time b.2 || (time a.2 = time b.2 &&
    (a.2.createdAt < b.2.createdAt || (a.2.createdAt = b.2.createdAt && a.1 ≤ b.1)))

def lockRows (time : Task κ π → Int) (cond : Task κ π → Bool) (locked : List TaskID)
    (table : TaskTable κ π)
    : List (TaskID × Task κ π) :=
  (table.toList.filter fun row => cond row.2 && locked.all (· ≠ row.1)).insertionSort fun a b => inOrder time a b

def claimTask (q : Queue κ π) (now leaseDuration : Int) (types : List TaskType)
    (locked : List TaskID) (receipt : Receipt) (table : TaskTable κ π)
    : Except TaskError (Option (TaskID × Task κ π) × TaskTable κ π) := do
  let types ← normalizeClaimTaskTypes types
  let claimable := fun t : Task κ π => t.status = .queued && q.eligible types t.key && t.availableAt ≤ now
  match (lockRows Task.availableAt claimable locked table).head? with
  | none => pure (none, table)
  | some (taskID, t) =>
    let t := t.claimed receipt now (now + leaseOr leaseDuration)
    pure (some (taskID, t), table.set taskID t)

def updateHeld (taskID : TaskID) (held : Task κ π → Bool) (f : Task κ π → Task κ π)
    (table : TaskTable κ π)
    : Except TaskError (TaskTable κ π) :=
  match table.get? taskID with
  | none => .error .taskNotFound
  | some t => if held t then .ok (table.set taskID (f t)) else .error .leaseMismatch

def ackTask (now : Int) (taskID : TaskID) (receipt : Receipt)
    : TaskTable κ π → Except TaskError (TaskTable κ π) :=
  updateHeld taskID (·.holds receipt now) (·.acked now)

def deadLetterTask (now : Int) (taskID : TaskID) (receipt : Receipt) (lastErr : Option Str)
    : TaskTable κ π → Except TaskError (TaskTable κ π) :=
  updateHeld taskID (·.holds receipt now) (·.dead lastErr now)

def renewTask (now : Int) (taskID : TaskID) (receipt : Receipt) (leaseDuration : Int)
    : TaskTable κ π → Except TaskError (TaskTable κ π) :=
  updateHeld taskID (·.holds receipt now) (·.renewed now (now + leaseOr leaseDuration))

def retryTask (q : Queue κ π) (now : Int) (taskID : TaskID) (receipt : Receipt)
    (retryAt : Option Int)
    (lastErr : Option Str) : TaskTable κ π → Except TaskError (TaskTable κ π) :=
  updateHeld taskID (·.holdsScanned receipt now) fun t =>
    if q.exhausted t then t.dead lastErr now else t.retried (retryAt.getD now) lastErr now

def recoverOne (now : Int) (acc : Nat × TaskTable κ π) (taskID : TaskID) : Nat × TaskTable κ π :=
  match acc.2.get? taskID with
  | none => acc
  | some t => if t.expired now then (acc.1 + 1, acc.2.set taskID (t.recovered now)) else acc

def recoverExpired (now limit : Int) (locked : List TaskID) (table : TaskTable κ π)
    : Nat × TaskTable κ π :=
  let ids := (lockRows (·.leaseUntil.getD 0) (·.expired now) locked table).map Prod.fst
  let ids := if 0 < limit then ids.take limit.toNat else ids
  ids.foldl (recoverOne now) (0, table)

section Members

def enqueueSemanticTask := enqueueTask semanticTasks
def ensureSemanticTaskQueuedTx := ensureTaskQueued semanticTasks
def claimSemanticTask := claimTask semanticTasks
def ackSemanticTask := @ackTask SemanticKey Str
def deadLetterSemanticTask := @deadLetterTask SemanticKey Str
def renewSemanticTask := @renewTask SemanticKey Str
def retrySemanticTask := retryTask semanticTasks
def recoverExpiredSemanticTasks := @recoverExpired SemanticKey Str

def enqueueFileGCTask := enqueueTask fileGCTasks
def claimFileGCTask (now leaseDuration : Int) := claimTask fileGCTasks now leaseDuration []
def ackFileGCTask := @ackTask Str FileGCData
def retryFileGCTask := retryTask fileGCTasks
def recoverExpiredFileGCTasks := @recoverExpired Str FileGCData

end Members

structure Claim where
  taskID : TaskID
  receipt : Receipt
  leaseUntil : Int

structure TaskSystem (κ π : Type) where
  table : TaskTable κ π
  claims : List Claim

inductive TaskLabel (κ π : Type) where
  | enqueue (now : Int) (task : NewTask κ π)
  | ensureQueued (now : Int) (task : NewTask κ π)
  | claim (now leaseDuration : Int) (types : List TaskType) (locked : List TaskID) (receipt : Receipt)
  | ack (now : Int) (taskID : TaskID) (receipt : Receipt)
  | deadLetter (now : Int) (taskID : TaskID) (receipt : Receipt) (lastErr : Option Str)
  | renew (now : Int) (taskID : TaskID) (receipt : Receipt) (leaseDuration : Int)
  | retry (now : Int) (taskID : TaskID) (receipt : Receipt) (retryAt : Option Int) (lastErr : Option Str)
  | recoverExpired (now limit : Int) (locked : List TaskID)

namespace TaskSystem

def init : TaskSystem κ π := ⟨FMap.empty, []⟩

def renewClaims (claims : List Claim) (receipt : Receipt) (leaseUntil : Int) : List Claim :=
  claims.map fun c => if c.receipt = receipt then { c with leaseUntil } else c

def lastClaim? (s : TaskSystem κ π) (taskID : TaskID) : Option Claim :=
  s.claims.find? (·.taskID = taskID)
def claimsOf (s : TaskSystem κ π) (taskID : TaskID) : Nat := s.claims.countP (·.taskID = taskID)

def update (s : TaskSystem κ π) (result : Except TaskError (TaskTable κ π)) : TaskSystem κ π :=
  match result with
  | .error _ => s
  | .ok table => { s with table }

def step (q : Queue κ π) (s : TaskSystem κ π) (label : TaskLabel κ π) : Option (TaskSystem κ π) :=
  match label with
  | .enqueue now task => some (s.update ((enqueueTask q now task s.table).map Prod.snd))
  | .ensureQueued now task =>
    if q.semantic then some (s.update ((ensureTaskQueued q now task s.table).map Prod.snd)) else none
  | .claim now leaseDuration types locked receipt =>
    if s.claims.any (·.receipt = receipt) then
      none
    else
      match claimTask q now leaseDuration types locked receipt s.table with
      | .error _ | .ok (none, _) => some s
      | .ok (some (taskID, _), table) =>
        some ⟨table, ⟨taskID, receipt, now + leaseOr leaseDuration⟩ :: s.claims⟩
  | .ack now taskID receipt => some (s.update (ackTask now taskID receipt s.table))
  | .deadLetter now taskID receipt lastErr =>
    if q.semantic then some (s.update (deadLetterTask now taskID receipt lastErr s.table)) else none
  | .renew now taskID receipt leaseDuration =>
    if q.semantic then
      match renewTask now taskID receipt leaseDuration s.table with
      | .error _ => some s
      | .ok table => some ⟨table, renewClaims s.claims receipt (now + leaseOr leaseDuration)⟩
    else
      none
  | .retry now taskID receipt retryAt lastErr =>
    some (s.update (retryTask q now taskID receipt retryAt lastErr s.table))
  | .recoverExpired now limit locked =>
    some { s with table := (recoverExpired now limit locked s.table).2 }

end TaskSystem

end Tasks
