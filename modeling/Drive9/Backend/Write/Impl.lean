import Drive9.Backend.Files.Impl
import Drive9.Backend.Upload.Impl

/-!
This module contains `WriteCtxIfRevisionWithTagsResult` with `createAndWriteCtx` and
`overwriteFileCtxWithRev` of `pkg/backend/dat9.go` as requests that run concurrently.
-/

open Datastore
open Transaction (require)

structure WriteArgs where
  path : Str
  data : Bytes
  offset : Int
  append : Bool
  truncate : Bool
  create : Bool
  exclusive : Bool
  expectedRevision : Int
  deriving DecidableEq

structure WriteConfig where
  smallInDB : Bool
  inlineThreshold : Int
  maxUploadBytes : Int

inductive WriteError where
  | store (err : StoreError)
  | isDirectory
  | alreadyExists
  | noFileEntity
  | tooLarge
  | noSuchObject
  deriving DecidableEq

structure StatFile where
  fileID : ID
  revision : Int
  storageType : StorageType
  storageRef : Str
  contentBlob : Bytes
  deriving DecidableEq

inductive StatResult where
  | notFound
  | failed (err : StoreError)
  | found (node : FileNode) (file : Option StatFile)
  deriving DecidableEq

inductive WritePhase where
  | stat
  | readExisting (file : StatFile)
  | putNew
  | createTx (fileID : ID) (storageType : StorageType) (storageRef : Str)
  | put (file : StatFile) (finalData : Bytes)
  | updateTx (file : StatFile) (finalData : Bytes) (storageType : StorageType) (storageRef : Str)
  | deleteBlob (storageRef : Str) (err : WriteError)
  | enqueue (storageRef : Str) (revision : Int)
  | committed (revision : Int)
  | failed (err : WriteError)
  deriving DecidableEq

structure WriteRequest where
  args : WriteArgs
  phase : WritePhase
  deriving DecidableEq

namespace Backend

def stat (db : Db) (blobs : FMap ID Bytes) (path : Str) : StatResult :=
  match db.node? path with
  | none => .notFound
  | some node =>
    match node.fileID with
    | none => .found node none
    | some fileID =>
      if node.isDirectory ∨ fileID = [] then
        .found node none
      else
        match db.inodes.get? fileID, db.contents.get? fileID with
        | none, _ => .notFound
        -- this error is wrapped, so the caller does not take it for a missing path
        | some _, none => .failed .notFound
        | some inode, some content =>
          .found node (some ⟨fileID, inode.revision, content.storageType, content.storageRef,
            (blobs.get? fileID).getD []⟩)

def shouldStoreInDB (cfg : WriteConfig) (size : Int) : Bool :=
  cfg.smallInDB ∧ size < cfg.inlineThreshold

def overlay (existing data : Bytes) (offset : Nat) : Bytes :=
  let existing := existing ++ List.replicate (offset - existing.length) 0
  existing.take offset ++ data ++ existing.drop (offset + data.length)

def inlineRef : Str := ['i', 'n', 'l', 'i', 'n', 'e']

def blobRef (id : ID) : Str := ['b', 'l', 'o', 'b', 's', '/'] ++ id

end Backend

namespace WriteArgs

def partialWrite (args : WriteArgs) : Bool := args.append ∨ ¬ (args.truncate ∨ args.offset ≤ 0)

def finalData (args : WriteArgs) (existing : Bytes) : Bytes :=
  if args.append then
    existing ++ args.data
  else if args.partialWrite then
    Backend.overlay existing args.data args.offset.toNat
  else
    args.data

def sized (cfg : WriteConfig) (file : StatFile) (finalData : Bytes) : WritePhase :=
  match Backend.ensureUploadSizeAllowed cfg.maxUploadBytes finalData.length with
  | .ok () => .put file finalData
  | .error _ => .failed .tooLarge

def overwrite (cfg : WriteConfig) (args : WriteArgs) (file : Option StatFile) : WritePhase :=
  match file with
  | none => .failed .noFileEntity
  | some file => if args.partialWrite then .readExisting file else sized cfg file args.data

def statted (cfg : WriteConfig) (args : WriteArgs) (r : StatResult) : WritePhase :=
  match r with
  | .notFound =>
    if args.expectedRevision > 0 then
      .failed (.store .revisionConflict)
    else if ¬ args.create then
      .failed (.store (if args.expectedRevision = 0 then .revisionConflict else .notFound))
    else
      match Backend.ensureUploadSizeAllowed cfg.maxUploadBytes args.data.length with
      | .ok () => .putNew
      | .error _ => .failed .tooLarge
  | .failed err => .failed (.store err)
  | .found node file =>
    if args.expectedRevision = 0 then
      .failed (.store .revisionConflict)
    else if node.isDirectory then
      .failed .isDirectory
    else if args.exclusive then
      .failed .alreadyExists
    else if args.expectedRevision > 0 ∧ file.map (·.revision) ≠ some args.expectedRevision then
      .failed (.store .revisionConflict)
    else
      args.overwrite cfg file

def rolledBack (storageType : StorageType) (storageRef : Str) (err : WriteError) : WritePhase :=
  if storageType = .s3 then .deleteBlob storageRef err else .failed err

def createFailed (args : WriteArgs) (storageType : StorageType) (storageRef : Str)
    (err : StoreError)
    : WritePhase :=
  rolledBack storageType storageRef
    (.store (if args.expectedRevision = 0 ∧ err = .pathConflict then .revisionConflict else err))

def updated (file : StatFile) (keepRef : Str) (revision : Int) : WritePhase :=
  if file.storageType ≠ .s3 ∨ file.storageRef = [] ∨ file.storageRef = keepRef then
    .committed revision
  else
    .enqueue file.storageRef revision

end WriteArgs

inductive UploadTxn where
  | initiate (uploadID : ID) (upload : Upload)
  | finalize (uploadID : ID) (upload : Upload) (nodeID : ID)
  | abortRow (uploadID : ID)
  | markLegacyFileDeleted (fileID : ID)
  | markInodeDeleted (fileID : ID)

namespace Backend

def initiateTx (uploadID : ID) (upload : Upload) : Tx Unit := do
  insertFileTx upload.fileID ⟨.s3, upload.s3Key, upload.totalSize, 1, .pending⟩
  let db ← get
  require ((db.uploads.get? uploadID).isNone) .driver
  modify fun db => { db with uploads := db.uploads.set uploadID upload }

end Backend

def UploadTxn.run (deterministicNodeID : Str → ID) (txn : UploadTxn) : Tx Unit := do
  match txn with
  | .initiate uploadID upload => Backend.initiateTx uploadID upload
  | .finalize uploadID upload nodeID =>
    let _ ← Backend.finalizeTx deterministicNodeID uploadID upload nodeID
  | .abortRow uploadID => modify fun db => db.abortUploadV2 uploadID
  | .markLegacyFileDeleted fileID => modify fun db => db.markLegacyFileDeleted fileID
  | .markInodeDeleted fileID => modify fun db => db.markInodeDeleted fileID

structure WriteSystem where
  store : FileStore
  blobs : FMap ID Bytes
  objects : FMap Str Bytes
  puts : List Str
  candidates : List Str
  requests : FMap Nat WriteRequest

def FileTxn.isWrite (txn : FileTxn) : Bool :=
  match txn with
  | .create _ _ _ _ _ _ => true
  | .overwrite _ _ _ _ _ => true
  | _ => false

inductive WriteLabel where
  | start (r : Nat) (args : WriteArgs)
  | run (r : Nat) (newID nodeID : ID)
  | txFail (r : Nat) (err : StoreError)
  | file (txn : FileTxn)
  | upload (txn : UploadTxn)

namespace WriteSystem

variable (cfg : WriteConfig) (deterministicNodeID : Str → ID) (s : WriteSystem)

def setPhase (r : Nat) (req : WriteRequest) (phase : WritePhase) : WriteSystem :=
  { s with requests := s.requests.set r { req with phase := phase } }

def freshID (id : ID) : Bool :=
  id ≠ [] && s.puts.all (· ≠ Backend.blobRef id) && (s.objects.get? (Backend.blobRef id)).isNone

def putObject (ref : Str) (data : Bytes) : WriteSystem :=
  { s with objects := s.objects.set ref data, puts := ref :: s.puts }

def setBlob (fileID : ID) (storageType : StorageType) (data : Bytes) : WriteSystem :=
  { s with blobs := s.blobs.set fileID (if storageType = .db9 then data else []) }

def setDb (db : Db) : WriteSystem := { s with store := { s.store with db := db } }

def readFileData (file : StatFile) : Option Bytes :=
  if file.storageType = .s3 then s.objects.get? file.storageRef else some file.contentBlob

def run (r : Nat) (newID nodeID : ID) (req : WriteRequest) : Option WriteSystem :=
  match req.phase with
  | .stat =>
    some (s.setPhase r req (req.args.statted cfg (Backend.stat s.store.db s.blobs req.args.path)))
  | .readExisting file =>
    match s.readFileData file with
    | none => some (s.setPhase r req (.failed .noSuchObject))
    | some existing =>
      some (s.setPhase r req (WriteArgs.sized cfg file (req.args.finalData existing)))
  | .putNew =>
    if ¬ s.freshID newID then
      none
    else if Backend.shouldStoreInDB cfg req.args.data.length then
      some (s.setPhase r req (.createTx newID .db9 Backend.inlineRef))
    else
      some ((s.putObject (Backend.blobRef newID) req.args.data).setPhase r req
        (.createTx newID .s3 (Backend.blobRef newID)))
  | .createTx fileID storageType storageRef =>
    match Backend.createAndWriteTx deterministicNodeID fileID nodeID req.args.path storageType storageRef
        req.args.data.length s.store.db with
    | .ok (_, db) =>
      some (((s.setDb db).setBlob fileID storageType req.args.data).setPhase r req (.committed 1))
    | .error err => some (s.setPhase r req (req.args.createFailed storageType storageRef err))
  | .put file finalData =>
    if Backend.shouldStoreInDB cfg finalData.length then
      some (s.setPhase r req (.updateTx file finalData .db9 Backend.inlineRef))
    else if ¬ s.freshID newID then
      none
    else
      some ((s.putObject (Backend.blobRef newID) finalData).setPhase r req
        (.updateTx file finalData .s3 (Backend.blobRef newID)))
  | .updateTx file finalData storageType storageRef =>
    match Backend.overwriteFileTx file.fileID req.args.expectedRevision storageType storageRef finalData.length
        s.store.db with
    | .ok (rev, db) =>
      some (((s.setDb db).setBlob file.fileID storageType finalData).setPhase r req
        (WriteArgs.updated file storageRef rev))
    | .error err =>
      some (s.setPhase r req (WriteArgs.rolledBack storageType storageRef (.store err)))
  | .deleteBlob storageRef err =>
    some { s.setPhase r req (.failed err) with objects := s.objects.del storageRef }
  | .enqueue storageRef revision =>
    some { s.setPhase r req (.committed revision) with candidates := storageRef :: s.candidates }
  | .committed _ => none
  | .failed _ => none

def txFail (r : Nat) (err : StoreError) (req : WriteRequest) : Option WriteSystem :=
  match req.phase with
  | .createTx _ storageType storageRef =>
    some (s.setPhase r req (req.args.createFailed storageType storageRef err))
  | .updateTx _ _ storageType storageRef =>
    some (s.setPhase r req (WriteArgs.rolledBack storageType storageRef (.store err)))
  | _ => none

def step (s : WriteSystem) (label : WriteLabel) : Option WriteSystem :=
  match label with
  | .start r args =>
    if (s.requests.get? r).isSome then none else some { s with requests := s.requests.set r ⟨args, .stat⟩ }
  | .run r newID nodeID => (s.requests.get? r).bind (s.run cfg deterministicNodeID r newID nodeID)
  | .txFail r err => (s.requests.get? r).bind (s.txFail r err)
  | .file txn =>
    if txn.isWrite then
      none
    else
      (txn.step deterministicNodeID s.store).map fun store => { s with store := store }
  | .upload txn =>
    match txn.run deterministicNodeID s.store.db with
    | .ok (_, db) => some (s.setDb db)
    | .error _ => some s

def init (useLegacyFiles : Bool) : WriteSystem :=
  ⟨.empty useLegacyFiles, .empty, .empty, [], [], .empty⟩

end WriteSystem
