import Drive9.Lib.Lts
import Drive9.Fuse.Commit.Impl.Local

/-!
This module contains the commit queue (`pkg/fuse/commit_queue.go`) and the mount around it as a
transition system.
-/

inductive JournalOp where
  | write
  | truncate
  | rename
  | unlink
  | mkdir
  | rmdir
  | fsync
  | commit
  deriving DecidableEq

structure JournalEntry where
  op : JournalOp
  path : String
  length : Int
  baseRev : Int

structure CommitEntry where
  id : Nat
  path : String
  baseRev : Int
  size : Int
  kind : PendingKind
  shadowSpill : Bool
  deriving DecidableEq

structure CommitQueue where
  queue : List CommitEntry
  inFlight : FMap String CommitEntry
  workCh : List CommitEntry
  maxPending : Nat
  nextId : Nat

namespace CommitQueue

def new (maxPending nextId : Nat) : CommitQueue where
  queue := []
  inFlight := .empty
  workCh := []
  maxPending := maxPending
  nextId := nextId

def enqueue (cq : CommitQueue) (path : String) (baseRev size : Int) (kind : PendingKind)
    (shadowSpill : Bool)
    : Option CommitQueue :=
  if cq.queue.length ≥ cq.maxPending then
    none
  else
    let entry : CommitEntry :=
      { id := cq.nextId
        path := path
        baseRev := baseRev
        size := size
        kind := kind
        shadowSpill := shadowSpill }
    some
      { cq with
        queue := cq.queue ++ [entry]
        workCh := cq.workCh ++ [entry]
        nextId := cq.nextId + 1 }

def removeFromQueue (cq : CommitQueue) (entry : CommitEntry) : CommitQueue :=
  { cq with queue := cq.queue.filter (fun e => e.id ≠ entry.id) }

end CommitQueue

inductive Phase where
  | idle
  | waiting (entry : CommitEntry) (attempt : Nat)
  | uploading (entry : CommitEntry) (attempt : Nat) (file : Staged)
  | conflicted (entry : CommitEntry)
  | comparing (entry : CommitEntry) (file : Staged)
  | overwriting (entry : CommitEntry) (file : Staged)
  | uploaded (entry : CommitEntry) (file : Staged)
  | journaled (entry : CommitEntry) (file : Staged)
  | unshadowed (entry : CommitEntry)
  | failed (entry : CommitEntry)
  | marked (entry : CommitEntry)
  | leaving (entry : CommitEntry)

-- What the worker has uploaded without having removed the shadow.
def Phase.sent (phase : Phase) : Option (String × Bytes) :=
  match phase with
  | .uploaded entry file => some (entry.path, file.data)
  | .journaled entry file => some (entry.path, file.data)
  | _ => none

inductive Answer where
  | ok
  | conflict
  | error (applied : Bool)

/--
What has happened so far, for the specification only: the most recently staged content of every
path, the content that the server has taken from this mount or was found to have since then, or just
before by a worker that is not done with it, the stagings whose commit record is in the journal, and
for a path put into the pending index in this session, the record written last for it, until a
commit succeeds or is given up.
-/
structure History where
  stamps : Nat
  latest : FMap String Staged
  accepted : List (String × Bytes)
  committed : List (String × Nat)
  pending : FMap String WriteBackMeta

structure Mount where
  shadows : ShadowStore
  dir : PendingDir
  index : PendingIndex
  cache : WriteBackCache
  journal : List JournalEntry
  cq : CommitQueue
  workers : FMap Nat Phase
  remote : FMap String Bytes
  history : History

inductive WorkerStep where
  | pick
  | read
  | answer (ans : Answer)
  | compare (reached : Bool)
  | journal (appended : Bool)
  | removeShadow
  | removeIndex
  | markConflict (written : Bool)
  | dequeue

inductive Label where
  | stageShadow (path : String) (data : Bytes)
  | stageIndex (path : String) (size : Int) (kind : PendingKind) (baseRev : Int) (shadowSpill : Bool)
  | snapshot (path : String) (file : Staged) (size : Int) (kind : PendingKind) (baseRev : Int)
  | dropSnapshot (path : String)
  | journalFsync (path : String) (baseRev : Int)
  | enqueue (path : String) (baseRev size : Int) (kind : PendingKind) (shadowSpill : Bool)
  | pin (path : String)
  | unpin (gen : Nat)
  | worker (w : Nat) (step : WorkerStep)
  | remoteWrite (path : String) (data : Bytes)
  | remoteRemove (path : String)
  | restart

namespace Mount

def empty (maxPending : Nat) : Mount where
  shadows := .new .empty
  dir := { metas := .empty, dats := .empty }
  index := { items := .empty, nextGen := 0 }
  cache := { metas := .empty, nextGen := 0 }
  journal := []
  cq := .new maxPending 0
  workers := .empty
  remote := .empty
  history :=
    { stamps := 0
      latest := .empty
      accepted := []
      committed := []
      pending := .empty }

variable (hashPath : String → String)

variable (s : Mount)

def phase (w : Nat) : Phase := (s.workers.get? w).getD .idle

def setPhase (w : Nat) (phase : Phase) : Mount := { s with workers := s.workers.set w phase }

def shadow (path : String) : Option Staged := s.shadows.file hashPath path

def found (path : String) (data : Bytes) : Mount :=
  { s with history := { s.history with accepted := (path, data) :: s.history.accepted } }

def accept (path : String) (data : Bytes) : Mount :=
  { s.found path data with remote := s.remote.set path data }

def settle (path : String) : Mount :=
  { s with history := { s.history with pending := s.history.pending.del path } }

namespace worker

def maxRetries : Nat := 5

def retry (w : Nat) (entry : CommitEntry) (attempt : Nat) : Mount :=
  if attempt + 1 < maxRetries then
    s.setPhase w (.waiting entry (attempt + 1))
  else
    s.setPhase w (.failed entry)

def pick (w : Nat) : Option Mount :=
  match s.phase w, s.cq.workCh with
  | .idle, entry :: rest =>
    some ({ s with
      cq := { s.cq with workCh := rest, inFlight := s.cq.inFlight.set entry.path entry } }.setPhase w
        (.waiting entry 0))
  | _, _ => none

def createMissing (path : String) : Mount :=
  if s.shadows.has hashPath path then
    s
  else
    { s with
      shadows := s.shadows.writeFull hashPath path { data := [], stamp := s.history.stamps }
      history := { s.history with stamps := s.history.stamps + 1 } }

def readShadow (w : Nat) (entry : CommitEntry) (attempt : Nat) : Mount :=
  match s.shadow hashPath entry.path with
  | none => retry s w entry attempt
  | some file => s.setPhase w (.uploading entry attempt file)

def read (w : Nat) : Option Mount :=
  match s.phase w with
  | .waiting entry attempt =>
    if entry.kind = .overwrite ∧ entry.baseRev ≤ 0 then
      some (retry s w entry attempt)
    else if entry.shadowSpill then
      some (readShadow hashPath (createMissing hashPath s entry.path) w entry attempt)
    else
      some (readShadow hashPath s w entry attempt)
  | .conflicted entry =>
    if entry.shadowSpill then
      some (s.setPhase w (.failed entry))
    else
      match s.shadow hashPath entry.path with
      | none => some (s.setPhase w (.failed entry))
      | some file => some (s.setPhase w (.comparing entry file))
  | _ => none

def answer (w : Nat) (ans : Answer) : Option Mount :=
  match s.phase w with
  | .uploading entry attempt file =>
    match ans with
    | .ok =>
      some (((s.accept entry.path file.data).settle entry.path).setPhase w (.uploaded entry file))
    | .conflict => some (s.setPhase w (.conflicted entry))
    | .error applied =>
      some (retry (if applied then s.accept entry.path file.data else s) w entry attempt)
  | .overwriting entry file =>
    match ans with
    | .ok =>
      some (((s.accept entry.path file.data).settle entry.path).setPhase w (.uploaded entry file))
    | .conflict => some (s.setPhase w (.failed entry))
    | .error applied =>
      some ((if applied then s.accept entry.path file.data else s).setPhase w (.failed entry))
  | _ => none

def compare (w : Nat) (reached : Bool) : Option Mount :=
  match s.phase w with
  | .comparing entry file =>
    match s.remote.get? entry.path, reached with
    | some serverData, true =>
      if serverData = file.data then
        some (((s.found entry.path file.data).settle entry.path).setPhase w (.uploaded entry file))
      else
        some (s.setPhase w (.overwriting entry file))
    | _, _ => some (s.setPhase w (.failed entry))
  | _ => none

def journalCommit (path : String) : JournalEntry where
  op := .commit
  path := path
  length := 0
  baseRev := 0

def journal (s : Mount) (w : Nat) (appended : Bool) : Option Mount :=
  match s.phase w with
  | .uploaded entry file =>
    if appended then
      some ({ s with
        journal := s.journal ++ [journalCommit entry.path]
        history :=
          { s.history with committed := (entry.path, file.stamp) :: s.history.committed } }.setPhase w
            (.journaled entry file))
    else
      some (s.setPhase w (.leaving entry))
  | .marked entry =>
    let journal := if appended then s.journal ++ [journalCommit entry.path] else s.journal
    some ({ s with journal := journal }.setPhase w (.leaving entry))
  | _ => none

def removeShadow (w : Nat) : Option Mount :=
  match s.phase w with
  | .journaled entry _ =>
    some ({ s with shadows := s.shadows.remove hashPath entry.path }.setPhase w (.unshadowed entry))
  | _ => none

def removeIndex (w : Nat) : Option Mount :=
  match s.phase w with
  | .unshadowed entry =>
    let (index, dir) := s.index.remove hashPath s.dir entry.path
    some ({ s with index := index, dir := dir }.setPhase w (.leaving entry))
  | _ => none

def markConflict (s : Mount) (w : Nat) (written : Bool) : Option Mount :=
  match s.phase w with
  | .failed entry =>
    if written then
      let (index, dir) := s.index.markConflict hashPath s.dir entry.path
      some (({ s with index := index, dir := dir }.settle entry.path).setPhase w (.marked entry))
    else
      some (s.setPhase w (.leaving entry))
  | _ => none

def dequeue (w : Nat) : Option Mount :=
  match s.phase w with
  | .leaving entry =>
    let cq := s.cq.removeFromQueue entry
    let inFlight :=
      if cq.inFlight.get? entry.path = some entry then cq.inFlight.del entry.path else cq.inFlight
    some ({ s with cq := { cq with inFlight := inFlight } }.setPhase w .idle)
  | _ => none

end worker

def workerStep (w : Nat) (step : WorkerStep) : Option Mount :=
  match step with
  | .pick => worker.pick s w
  | .read => worker.read hashPath s w
  | .answer ans => worker.answer s w ans
  | .compare reached => worker.compare s w reached
  | .journal appended => worker.journal s w appended
  | .removeShadow => worker.removeShadow hashPath s w
  | .removeIndex => worker.removeIndex hashPath s w
  | .markConflict written => worker.markConflict hashPath s w written
  | .dequeue => worker.dequeue s w

namespace restart

def replay (entries : List JournalEntry) (idx : PendingIndex) (dir : PendingDir)
    : PendingIndex × PendingDir :=
  match entries with
  | [] => (idx, dir)
  | e :: es =>
    if e.op ≠ .commit ∧ e.op ≠ .unlink ∧ (idx.items.get? e.path).isNone then
      let kind := if e.baseRev = 0 then PendingKind.new else .overwrite
      let (idx, dir) := idx.putInternal hashPath dir e.path e.length kind e.baseRev false
      replay es idx dir
    else
      replay es idx dir

def migrate (pending : List (WriteBackMeta × Staged)) (shadows : ShadowStore) : ShadowStore :=
  match pending with
  | [] => shadows
  | (md, data) :: rest =>
    if shadows.has hashPath md.path then
      migrate rest shadows
    else
      migrate rest (shadows.writeFull hashPath md.path data)

def recoverPending (paths : List String) (shadows : ShadowStore) (cq : CommitQueue)
    (idx : PendingIndex)
    (dir : PendingDir) : CommitQueue × PendingIndex × PendingDir :=
  match paths with
  | [] => (cq, idx, dir)
  | path :: paths =>
    match idx.items.get? path with
    | none => recoverPending paths shadows cq idx dir
    | some md =>
      if ¬ shadows.has hashPath path then
        let (idx, dir) := idx.remove hashPath dir path
        recoverPending paths shadows cq idx dir
      else if md.kind = .conflict then
        recoverPending paths shadows cq idx dir
      else if md.kind = .overwrite ∧ md.baseRev ≤ 0 then
        recoverPending paths shadows cq idx dir
      else
        match cq.enqueue path md.baseRev md.size md.kind md.shadowSpill with
        | none => recoverPending paths shadows cq idx dir
        | some cq => recoverPending paths shadows cq idx dir

end restart

def restart (s : Mount) : Mount :=
  let idx := PendingIndex.recoverFromDisk s.dir
  let (idx, dir) := restart.replay hashPath s.journal idx s.dir
  let (cache, dir) := WriteBackCache.new hashPath dir
  let (pending, cache, dir) := cache.listPending hashPath dir
  let shadows := restart.migrate hashPath pending (.new s.shadows.dir)
  let (cq, idx, dir) := restart.recoverPending hashPath idx.items.keys shadows
    (.new s.cq.maxPending s.cq.nextId) idx dir
  { s with
    shadows := shadows
    dir := dir
    index := idx
    cache := cache
    cq := cq
    workers := .empty
    history := { s.history with pending := .empty } }

def stageShadow (path : String) (data : Bytes) : Mount :=
  let file : Staged := { data := data, stamp := s.history.stamps }
  { s with
    shadows := s.shadows.writeFull hashPath path file
    history :=
      { s.history with
        stamps := s.history.stamps + 1
        latest := s.history.latest.set path file
        accepted := s.history.accepted.filter fun x =>
          x.1 ≠ path ∨ ∃ w ∈ s.workers.keys, (s.phase w).sent = some x } }

def stageIndex (path : String) (size : Int) (kind : PendingKind) (baseRev : Int)
    (shadowSpill : Bool) : Mount :=
  let (index, dir) := s.index.putInternal hashPath s.dir path size kind baseRev shadowSpill
  { s with
    index := index
    dir := dir
    history :=
      match index.items.get? path with
      | some md => { s.history with pending := s.history.pending.set path md }
      | none => s.history }

def snapshot (path : String) (file : Staged) (size : Int) (kind : PendingKind) (baseRev : Int)
    : Option Mount :=
  if file.stamp < s.history.stamps then
    let (cache, dir) := s.cache.putWithBaseRev hashPath s.dir path file size kind baseRev
    some
      { s with
        cache := cache
        dir := dir
        history :=
          match s.history.pending.get? path, cache.metas.get? path with
          | some _, some md => { s.history with pending := s.history.pending.set path md }
          | _, _ => s.history }
  else
    none

def dropSnapshot (path : String) : Mount :=
  let (cache, dir) := s.cache.remove hashPath s.dir path
  { s with cache := cache, dir := dir }

def step (s : Mount) (label : Label) : Option Mount :=
  match label with
  | .stageShadow path data => some (s.stageShadow hashPath path data)
  | .stageIndex path size kind baseRev spill =>
    some (s.stageIndex hashPath path size kind baseRev spill)
  | .snapshot path file size kind baseRev => s.snapshot hashPath path file size kind baseRev
  | .dropSnapshot path => some (s.dropSnapshot hashPath path)
  | .journalFsync path baseRev =>
    some { s with journal := s.journal ++ [{ op := .fsync, path := path, length := 0, baseRev := baseRev }] }
  | .enqueue path baseRev size kind spill =>
    match s.cq.enqueue path baseRev size kind spill with
    | none => some s
    | some cq => some { s with cq := cq }
  | .pin path => some { s with shadows := s.shadows.pinIfExists hashPath path }
  | .unpin gen => some { s with shadows := s.shadows.unpin gen }
  | .worker w step => s.workerStep hashPath w step
  | .remoteWrite path data => some { s with remote := s.remote.set path data }
  | .remoteRemove path => some { s with remote := s.remote.del path }
  | .restart => some (s.restart hashPath)

end Mount
