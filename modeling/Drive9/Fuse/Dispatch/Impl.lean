import Drive9.Lib.Chan
import Drive9.Lib.FMap
import Drive9.Lib.Int64

/-!
This module contains the commit queue (`pkg/fuse/commit_queue.go`) with its channel, its index and
the cancellation of entries, as far as they decide whether `Enqueue` has to wait.
-/

namespace Dispatch

structure CommitEntry where
  path : String
  canceled : Bool

inductive Phase where
  | idle
  | received (entry : Nat)
  -- found canceled, to be removed from the queue
  | skipped (entry : Nat)
  -- found live, to be marked as in flight
  | accepted (entry : Nat)
  -- in `commitOne`
  | committing (entry : Nat)
  -- removed from the queue, the mark to be cleared
  | dequeued (entry : Nat)
  deriving DecidableEq

def Phase.entry : Phase → Option Nat
  | .idle => none
  | .received entry | .skipped entry | .accepted entry | .committing entry | .dequeued entry =>
    some entry

structure CommitQueue where
  entries : FMap Nat CommitEntry
  nextEntry : Nat
  queue : List Nat
  queuedByPath : FMap String (List Nat)
  inFlight : FMap String Nat
  maxPending : Int
  stopped : Bool
  workCh : Chan Nat
  workers : List Phase

def maxCommitQueuePending : Int := 100

def newCommitQueue (numWorkers maxPending : Int) : CommitQueue :=
  let numWorkers := if numWorkers ≤ 0 then 4 else numWorkers
  let maxPending := if maxPending ≤ 0 then maxCommitQueuePending else maxPending
  let bufSize := if i64 (maxPending * 2) < 256 then 256 else i64 (maxPending * 2)
  { entries := .empty
    nextEntry := 0
    queue := []
    queuedByPath := .empty
    inFlight := .empty
    maxPending
    stopped := false
    workCh := .make bufSize.toNat
    workers := List.replicate numWorkers.toNat .idle }

namespace CommitQueue

variable (cq : CommitQueue)

def path (cq : CommitQueue) (entry : Nat) : String := ((cq.entries.get? entry).map (·.path)).getD ""

def isEntryCanceled (entry : Nat) : Bool := ((cq.entries.get? entry).map (·.canceled)).getD false

def queuedOf (path : String) : List Nat := (cq.queuedByPath.get? path).getD []

def addQueuedLocked (entry : Nat) : CommitQueue :=
  { cq with queuedByPath := cq.queuedByPath.set (cq.path entry) ((cq.queuedOf (cq.path entry)).insert entry) }

def removeQueuedLocked (entry : Nat) : CommitQueue :=
  let entries := (cq.queuedOf (cq.path entry)).erase entry
  { cq with
    queuedByPath :=
      if entries = [] then cq.queuedByPath.del (cq.path entry) else cq.queuedByPath.set (cq.path entry) entries }

def rebuildQueuedIndexLocked : CommitQueue :=
  cq.queue.foldl addQueuedLocked { cq with queuedByPath := .empty }

def newEntry (path : String) : CommitQueue :=
  { cq with entries := cq.entries.set cq.nextEntry ⟨path, false⟩, nextEntry := cq.nextEntry + 1 }

def enqueue (entry : Nat) : Option CommitQueue :=
  if cq.stopped then
    none
  else if cq.maxPending ≤ cq.queue.length then
    none
  else
    let cq := { cq with queue := cq.queue ++ [entry] }.addQueuedLocked entry
    some { cq with workCh := cq.workCh.send entry }

def markCanceled (entries : List Nat) : CommitQueue :=
  { cq with entries := entries.foldl (fun m e => m.modify e fun entry => { entry with canceled := true }) cq.entries }

def cancelPath (path : String) : CommitQueue :=
  let queued := cq.queuedOf path
  let cq := cq.markCanceled ((cq.inFlight.get? path).toList ++ queued)
  if queued = [] then
    cq
  else
    { cq with
      queue := cq.queue.filter fun e => cq.path e ≠ path
      queuedByPath := cq.queuedByPath.del path }

def below (dir path : String) : Bool := dir.toList.isPrefixOf path.toList

def cancelPrefix (dir : String) : CommitQueue :=
  let inFlight := (cq.inFlight.keys.filter (below dir)).filterMap cq.inFlight.get?
  let queued := cq.queue.filter fun e => below dir (cq.path e)
  let cq := cq.markCanceled (inFlight ++ queued)
  { cq with queue := cq.queue.filter fun e => !below dir (cq.path e) }.rebuildQueuedIndexLocked

def removeFromQueue (entry : Nat) : CommitQueue :=
  if entry ∈ cq.queue then { cq with queue := cq.queue.erase entry }.removeQueuedLocked entry else cq

def drainAll : CommitQueue := { cq with stopped := true }

def setWorker (w : Nat) (phase : Phase) : CommitQueue :=
  { cq with workers := cq.workers.set w phase }

end CommitQueue

inductive WorkerStep where
  | receive
  | check
  | skip
  | mark
  | complete
  | clear
  deriving DecidableEq

inductive Label where
  | enqueue (path : String)
  | cancelPath (path : String)
  | cancelPrefix (dir : String)
  | drainAll
  | worker (w : Nat) (step : WorkerStep)

open CommitQueue

def workerStep (cq : CommitQueue) (w : Nat) (step : WorkerStep) : Option CommitQueue :=
  match cq.workers[w]?, step with
  | some .idle, .receive =>
    match cq.workCh.receive with
    | none => none
    | some (entry, workCh) => some ({ cq with workCh }.setWorker w (.received entry))
  | some (.received entry), .check =>
    some (cq.setWorker w (if cq.isEntryCanceled entry then .skipped entry else .accepted entry))
  | some (.skipped entry), .skip => some ((cq.removeFromQueue entry).setWorker w .idle)
  | some (.accepted entry), .mark =>
    some ({ cq with inFlight := cq.inFlight.set (cq.path entry) entry }.setWorker w (.committing entry))
  | some (.committing entry), .complete =>
    some ((cq.removeFromQueue entry).setWorker w (.dequeued entry))
  | some (.dequeued entry), .clear =>
    let inFlight :=
      if cq.inFlight.get? (cq.path entry) = some entry then cq.inFlight.del (cq.path entry) else cq.inFlight
    some ({ cq with inFlight }.setWorker w .idle)
  | _, _ => none

def step (cq : CommitQueue) (label : Label) : Option CommitQueue :=
  match label with
  | .worker w .receive => workerStep cq w .receive
  | label =>
    if cq.workCh.sender.isSome then
      none
    else
      match label with
      | .enqueue path => some (((cq.newEntry path).enqueue cq.nextEntry).getD (cq.newEntry path))
      | .cancelPath path => some (cq.cancelPath path)
      | .cancelPrefix dir => some (cq.cancelPrefix dir)
      | .drainAll => some cq.drainAll
      | .worker w step => workerStep cq w step

end Dispatch
