import Drive9.Lib.FMap
import Drive9.Lib.Lts
import Drive9.Meta.Tenants

/-!
This module contains the collection of S3 objects in `pkg/server`.
-/

namespace ObjectGC

open Meta

abbrev FileID := Str
abbrev StorageRef := Str

structure File where
  isS3 : Bool
  confirmed : Bool
  storageRef : StorageRef

abbrev Files := FMap FileID File

def hasConfirmedS3StorageRef (files : Files) (ref : StorageRef) : Bool :=
  files.toList.any fun row => row.2.isS3 && row.2.confirmed && row.2.storageRef = ref

def writeFile (files : Files) (fileID : FileID) (ref : Option StorageRef) : Files :=
  files.set fileID ⟨ref.isSome, true, ref.getD []⟩

def deleteFile (files : Files) (fileID : FileID) : Files :=
  files.modify fileID fun f => { f with confirmed := false }

structure TenantFiles where
  status : TenantStatus
  files : Files

inductive CandidateState where
  | pending
  | deleted
  deriving DecidableEq

structure Candidate where
  state : CandidateState
  notBefore : Int
  attempts : Nat

inductive GCStage where
  | hasNonDeletedFork
  | getNamespace
  | getOwner
  | acquire
  | hasRef
  | deleteObject
  | markDeleted
  | postpone
  deriving DecidableEq

structure GCRun where
  ref : StorageRef
  stage : GCStage
  deriving DecidableEq

structure ObjectSystem where
  owner : TenantFiles
  forks : FMap TenantID TenantFiles
  candidates : FMap StorageRef Candidate
  runs : FMap Nat GCRun
  used : List StorageRef
  deleted : List StorageRef

inductive ObjectLabel where
  | ownerWrite (fileID : FileID) (ref : Option StorageRef)
  | ownerDelete (fileID : FileID)
  | ownerStatus (status : TenantStatus)
  | insertFork (id : TenantID)
  | snapshotFork (id : TenantID)
  | forkWrite (id : TenantID) (fileID : FileID) (ref : Option StorageRef)
  | forkDelete (id : TenantID) (fileID : FileID)
  | forkStatus (id : TenantID) (status : TenantStatus)
  | enqueue (ref : StorageRef) (notBefore : Int)
  | markForkDeleted (id : TenantID)
  | listDue (run : Nat) (ref : StorageRef) (now : Int)
  | next (run : Nat) (now : Int) (ok : Bool)

namespace ObjectSystem

def init : ObjectSystem := ⟨⟨.active, FMap.empty⟩, FMap.empty, FMap.empty, FMap.empty, [], []⟩

def blobs : StorageRef := ['b', 'l', 'o', 'b', 's', '/']

variable (s : ObjectSystem)

def freshRef (ref : Option StorageRef) : Bool :=
  ref.all fun ref => blobs.isPrefixOf ref && s.used.all (· ≠ ref)

def namespaceHasNonDeletedFork : Bool := s.forks.toList.any fun row => row.2.status ≠ .deleted

def enqueueObjectGCCandidate (ref : StorageRef) (notBefore : Int) : ObjectSystem :=
  let c : Candidate :=
    match s.candidates.get? ref with
    | none => ⟨.pending, notBefore, 0⟩
    | some c => { c with notBefore := min c.notBefore notBefore }
  { s with candidates := s.candidates.set ref c }

def updatePending (ref : StorageRef) (f : Candidate → Candidate) : ObjectSystem :=
  { s with candidates := s.candidates.modify ref fun c => if c.state = .pending then f c else c }

def finish (run : Nat) : ObjectSystem := { s with runs := s.runs.del run }

def goto (run : Nat) (ref : StorageRef) (stage : GCStage) : ObjectSystem :=
  { s with runs := s.runs.set run ⟨ref, stage⟩ }

def firstStage (ref : StorageRef) : GCStage :=
  if blobs.isPrefixOf ref then .hasNonDeletedFork else .getNamespace

def processCandidate (run : Nat) (ref : StorageRef) (stage : GCStage) (now : Int) : ObjectSystem :=
  match stage with
  | .hasNonDeletedFork =>
    s.goto run ref (if s.namespaceHasNonDeletedFork then .postpone else .getNamespace)
  | .getNamespace => s.goto run ref .getOwner
  | .getOwner => s.goto run ref (if s.owner.status ≠ .active then .postpone else .acquire)
  | .acquire => s.goto run ref .hasRef
  | .hasRef =>
    s.goto run ref (if hasConfirmedS3StorageRef s.owner.files ref then .postpone else .deleteObject)
  | .deleteObject => { s with deleted := ref :: s.deleted }.goto run ref .markDeleted
  | .markDeleted =>
    { s with candidates := s.candidates.modify ref fun c => { c with state := .deleted } }.finish run
  | .postpone => (s.updatePending ref fun c => { c with notBefore := now }).finish run

def retryCandidate (run : Nat) (ref : StorageRef) (stage : GCStage) (now : Int) : ObjectSystem :=
  let s := if stage = .deleteObject then { s with deleted := ref :: s.deleted } else s
  (s.updatePending ref fun c => { c with notBefore := now, attempts := c.attempts + 1 }).finish run

def setFork (id : TenantID) (f : TenantFiles) : ObjectSystem := { s with forks := s.forks.set id f }

def step (label : ObjectLabel) : Option ObjectSystem :=
  match label with
  | .ownerWrite fileID ref =>
    if s.freshRef ref then
      some { s with
        owner := { s.owner with files := writeFile s.owner.files fileID ref }, used := ref.toList ++ s.used }
    else
      none
  | .ownerDelete fileID =>
    some { s with owner := { s.owner with files := deleteFile s.owner.files fileID } }
  | .ownerStatus status => some { s with owner := { s.owner with status } }
  -- `createForkTenant`
  | .insertFork id =>
    if s.owner.status = .active && (s.forks.get? id).isNone then
      some (s.setFork id ⟨.provisioning, FMap.empty⟩)
    else
      none
  -- `CreateBranch`
  | .snapshotFork id =>
    match s.forks.get? id with
    | none => none
    | some f => if f.status = .provisioning then some (s.setFork id { f with files := s.owner.files }) else none
  | .forkWrite id fileID ref =>
    match s.forks.get? id with
    | none => none
    | some f =>
      if s.freshRef ref then
        some { s.setFork id { f with files := writeFile f.files fileID ref } with used := ref.toList ++ s.used }
      else
        none
  | .forkDelete id fileID =>
    match s.forks.get? id with
    | none => none
    | some f => some (s.setFork id { f with files := deleteFile f.files fileID })
  | .forkStatus id status =>
    match s.forks.get? id with
    | none => none
    | some f => if f.status ≠ .deleted && status ≠ .deleted then some (s.setFork id { f with status }) else none
  -- A reference that some file has, or had before it was replaced or deleted.
  | .enqueue ref notBefore =>
    if s.used.any (· = ref) then some (s.enqueueObjectGCCandidate ref notBefore) else none
  -- `cleanupForkTenant` has enqueued all references of the fork.
  | .markForkDeleted id =>
    match s.forks.get? id with
    | none => none
    | some f =>
      if f.status = .deleting
          && f.files.toList.all (fun row =>
            !(row.2.isS3 && row.2.confirmed) || (s.candidates.get? row.2.storageRef).isSome) then
        some (s.setFork id { f with status := .deleted })
      else
        none
  -- `ListDueObjectGCCandidates`
  | .listDue run ref now =>
    match s.candidates.get? ref, s.runs.get? run with
    | some c, none =>
      if c.state = .pending && c.notBefore ≤ now then some (s.goto run ref (firstStage ref)) else none
    | _, _ => none
  | .next run now ok =>
    match s.runs.get? run with
    | none => none
    | some r =>
      some (if ok then s.processCandidate run r.ref r.stage now else s.retryCandidate run r.ref r.stage now)

def referenced (ref : StorageRef) : Bool :=
  hasConfirmedS3StorageRef s.owner.files ref
    || s.forks.toList.any fun row => row.2.status ≠ .deleted && hasConfirmedS3StorageRef row.2.files ref

end ObjectSystem

end ObjectGC
