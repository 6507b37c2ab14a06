import Drive9.Datastore.Store
import Drive9.Patch.Impl

/-!
This module contains one upload session of `pkg/backend/upload.go` under concurrent requests.
-/

open Datastore
open Transaction (require)

structure UploadedPart where
  number : Int
  size : Int
  etag : Str

structure CompletePart where
  number : Int
  etag : Str

inductive UploadError where
  | store (err : StoreError)
  | s3
  | incomplete (got expected : Int)
  | partSizeMismatch (number got expected : Int)
  | missingETag (number : Int)
  | partCountMismatch (got expected : Int)
  | duplicatePart (number : Int)
  | invalidPart (number partsTotal : Int)
  | partNotFound (number : Int)
  | etagMismatch (number : Int) (client s3 : Str)
  -- an index out of range or a negative `make`
  | panic
  deriving DecidableEq

namespace Backend

def normalizeETag (etag : Str) : Str := (etag.dropWhile (· = '"')).rdropWhile (· = '"')

def uploadExpectedRevision (upload : Upload) : Int := upload.expectedRevision.getD (-1)

def checkParts (withETag : Bool) : List UploadedPart → List S3Client.Part → Except UploadError Unit
  | [], _ => .ok ()
  | _ :: _, [] => .error .panic
  | p :: ps, e :: es =>
    if p.size ≠ e.size then
      .error (.partSizeMismatch p.number p.size e.size)
    else if withETag ∧ p.etag = [] then
      .error (.missingETag p.number)
    else
      checkParts withETag ps es

def checkUploaded (upload : Upload) (parts : List UploadedPart) : Except UploadError Unit :=
  if (parts.length : Int) ≠ upload.partsTotal then
    .error (.incomplete parts.length upload.partsTotal)
  else
    match S3Client.calcParts upload.totalSize upload.partSize with
    | none => .error .panic
    | some expectedParts => checkParts true parts expectedParts

def checkClientPart (partsTotal : Int) : List Int → List CompletePart → Except UploadError Unit
  | _, [] => .ok ()
  | seen, cp :: cps =>
    if cp.number ∈ seen then
      .error (.duplicatePart cp.number)
    else if cp.number < 1 ∨ cp.number > partsTotal then
      .error (.invalidPart cp.number partsTotal)
    else
      checkClientPart partsTotal (cp.number :: seen) cps

def checkClientParts (upload : Upload) (clientParts : List CompletePart)
    : Except UploadError Unit :=
  if (clientParts.length : Int) ≠ upload.partsTotal then
    .error (.partCountMismatch clientParts.length upload.partsTotal)
  else
    checkClientPart upload.partsTotal [] clientParts

def checkETags (parts : List UploadedPart) : List CompletePart → Except UploadError Unit
  | [] => .ok ()
  | cp :: cps =>
    match (parts.filter (·.number = cp.number)).getLast? with
    | none => .error (.partNotFound cp.number)
    | some p =>
      if normalizeETag cp.etag ≠ normalizeETag p.etag then
        .error (.etagMismatch cp.number cp.etag p.etag)
      else
        checkETags parts cps

def checkUploadedV2 (upload : Upload) (clientParts : List CompletePart) (parts : List UploadedPart)
    : Except UploadError Unit := do
  checkETags parts clientParts
  match S3Client.calcParts upload.totalSize upload.partSize with
  | none => .error .panic
  | some expectedParts =>
    if parts.length ≠ expectedParts.length then
      .error (.incomplete parts.length expectedParts.length)
    else
      checkParts false parts expectedParts

section FinalizeTx

variable (deterministicNodeID : Str → ID) (uploadID : ID) (upload : Upload)

def overwriteTx (existingFileID : ID) : Tx ID := do
  let expectedRevision := uploadExpectedRevision upload
  require (expectedRevision ≠ 0) .revisionConflict
  let storageMeta ← tryCatch (getFileStorageMetaForUpdateTx existingFileID) fun err =>
    throw (if err = .notFound then .revisionConflict else err)
  require (expectedRevision > 0 → storageMeta.revision = expectedRevision) .revisionConflict
  let _ ← updateFileContentTx existingFileID (if expectedRevision > 0 then expectedRevision else 0) .s3
    upload.s3Key upload.totalSize
  deletePendingFileTx upload.fileID
  setUploadFileID uploadID existingFileID
  pure existingFileID

def createTx (nodeID : ID) : Tx ID := do
  let expectedRevision := uploadExpectedRevision upload
  require (expectedRevision ≤ 0) .revisionConflict
  confirmPendingFileTx upload.fileID .s3 upload.s3Key upload.totalSize
  tryCatch
    (insertNodeTx
      { nodeID := nodeID
        path := upload.targetPath
        parentPath := Pathutil.parentPath upload.targetPath
        name := Pathutil.baseName upload.targetPath
        isDirectory := false
        fileID := if upload.fileID = [] then none else some upload.fileID
        inodeID := none })
    fun err => throw (if expectedRevision ≥ 0 ∧ err = .pathConflict then .revisionConflict else err)
  pure upload.fileID

def attachTx (nodeID : ID) : Tx ID := do
  ensureParentDirsTx deterministicNodeID upload.targetPath
  match ((← get).node? upload.targetPath).bind (·.fileID) with
  | some existingFileID => overwriteTx uploadID upload existingFileID
  | none => createTx upload nodeID

def finalizeTx (nodeID : ID) : Tx ID := do
  completeUploadTx uploadID
  attachTx deterministicNodeID uploadID upload nodeID

end FinalizeTx

end Backend
