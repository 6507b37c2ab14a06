import Drive9.Backend.Upload.Impl
import Drive9.Lib.Lts

/-!
This module contains the requests on one upload id as a transition system.
-/

open Datastore Backend

inductive UploadRequest where
  | confirm
  | confirmV2 (clientParts : List CompletePart)
  | abort
  | abortV2 (ret : Option UploadError)
  | resume
  | presign

inductive MarkCaller where
  | cleanup (err : UploadError)
  | abortV2 (ret : Option UploadError)

inductive UploadPhase where
  | getUpload (req : UploadRequest)
  | listParts (clientParts : Option (List CompletePart)) (upload : Upload)
  | completeMultipart (upload : Upload)
  | finalizeTx (upload : Upload)
  | deleteBlob (upload : Upload) (err : UploadError)
  | abortMetadata (upload : Upload) (err : UploadError)
  | markLegacyFile (caller : MarkCaller) (closed : Bool) (upload : Upload)
  | markInode (caller : MarkCaller) (closed : Bool) (upload : Upload)
  | abortMultipart (v2 : Bool) (ret : Option UploadError) (upload : Upload)
  | abortRow (v2 : Bool) (ret : Option UploadError) (upload : Upload)
  | transition (upload : Upload)
  | refresh
  | committed (fileID : ID) (s3Key : Str)
  | returned (closed : Bool) (err : Option UploadError)

structure S3Store where
  multipart : Bool
  objects : Finset Str

structure UploadSession where
  uploadID : ID
  db : Db
  s3 : S3Store
  requests : FMap Nat UploadPhase

structure UploadEnv where
  now : Int
  parts : List UploadedPart
  genID : ID

inductive UploadLabel where
  | start (r : Nat) (req : UploadRequest)
  | run (r : Nat) (env : UploadEnv)
  | fault (r : Nat)
  | other (db : Db) (s3 : S3Store)

namespace UploadSession

def status (s : UploadSession) : Option UploadStatus := s.db.uploadStatus s.uploadID

def setPhase (s : UploadSession) (r : Nat) (p : UploadPhase) : UploadSession :=
  { s with requests := s.requests.set r p }

def expired (upload : Upload) (env : UploadEnv) : Bool := env.now > upload.expiresAt

def finish (closed : Bool) (ret err : Option UploadError) : UploadPhase :=
  .returned closed (ret.or err)

def notActive : UploadPhase := .returned false (some (.store .uploadNotActive))

def abortExpired : UploadPhase := .getUpload (.abortV2 (some (.store .uploadExpired)))

def loaded (req : UploadRequest) (upload : Upload) (env : UploadEnv) : UploadPhase :=
  match req with
  | .confirm =>
    if upload.status ≠ .uploading then notActive else .listParts none upload
  | .confirmV2 clientParts =>
    if upload.status ≠ .uploading then
      notActive
    else if expired upload env then
      abortExpired
    else
      match checkClientParts upload clientParts with
      | .error err => .returned false (some err)
      | .ok () => .listParts (some clientParts) upload
  | .abort =>
    if upload.status ≠ .uploading then notActive else .abortMultipart false none upload
  | .abortV2 ret =>
    if upload.status = .aborted ∨ upload.status = .completed ∨ upload.status = .expired then
      finish false ret none
    else
      .abortMultipart true ret upload
  | .resume =>
    if upload.status ≠ .uploading then
      notActive
    else if expired upload env then
      .abortMultipart false (some (.store .uploadExpired)) upload
    else
      .returned false none
  | .presign =>
    if upload.status ≠ .uploading ∧ upload.status ≠ .initiated then
      notActive
    else if expired upload env then
      abortExpired
    else if upload.status ≠ .initiated then
      .returned false none
    else
      .transition upload

def notLoaded (req : UploadRequest) (err : StoreError) : UploadPhase :=
  match req with
  | .abortV2 ret => finish false ret (if err = .notFound then none else some (.store err))
  | _ => .returned false (some (.store err))

def refreshed (upload : Upload) (env : UploadEnv) : UploadPhase :=
  if upload.status = .uploading then
    .returned false none
  else if upload.status ≠ .initiated then
    notActive
  else if expired upload env then
    abortExpired
  else
    notActive

def listed (clientParts : Option (List CompletePart)) (upload : Upload) (parts : List UploadedPart)
    : UploadPhase :=
  let checked :=
    match clientParts with
    | none => checkUploaded upload parts
    | some clientParts => checkUploadedV2 upload clientParts parts
  match checked with
  | .error err => .returned false (some err)
  | .ok () => .completeMultipart upload

def marked (caller : MarkCaller) (closed : Bool) : UploadPhase :=
  match caller with
  | .cleanup err => .returned closed (some err)
  | .abortV2 ret => finish closed ret none

def deleteBlob (s3 : S3Store) (ref : Str) : S3Store :=
  if ref = [] then s3 else { s3 with objects := s3.objects.erase ref }

def mark (s : UploadSession) (caller : MarkCaller) (closed : Bool) (upload : Upload)
    : UploadPhase :=
  if upload.fileID = [] then
    marked caller closed
  else if s.db.useLegacyFiles then
    .markLegacyFile caller closed upload
  else
    .markInode caller closed upload

def run (deterministicNodeID : Str → ID) (s : UploadSession) (r : Nat) (env : UploadEnv)
    (p : UploadPhase)
    : Option UploadSession :=
  match p with
  | .getUpload req =>
    match s.db.getUpload s.uploadID with
    | .error err => some (s.setPhase r (notLoaded req err))
    | .ok upload => some (s.setPhase r (loaded req upload env))
  | .listParts clientParts upload => some (s.setPhase r (listed clientParts upload env.parts))
  | .completeMultipart upload =>
    -- a second complete may still find the multipart upload
    if s.s3.multipart then
      some { s.setPhase r (.finalizeTx upload) with
        s3 := { s.s3 with objects := insert upload.s3Key s.s3.objects } }
    else
      some (s.setPhase r (.returned false (some .s3)))
  | .finalizeTx upload =>
    match Backend.finalizeTx deterministicNodeID s.uploadID upload env.genID s.db with
    | .ok (fileID, db) => some { s.setPhase r (.committed fileID upload.s3Key) with db := db }
    | .error err => some (s.setPhase r (.deleteBlob upload (.store err)))
  | .deleteBlob upload err =>
    some { s.setPhase r (.abortMetadata upload err) with s3 := deleteBlob s.s3 upload.s3Key }
  | .abortMetadata upload err =>
    some { s.setPhase r (s.mark (.cleanup err) true upload) with db := s.db.abortUploadV2 s.uploadID }
  | .markLegacyFile caller closed upload =>
    some { s.setPhase r (.markInode caller closed upload) with db := s.db.markLegacyFileDeleted upload.fileID }
  | .markInode caller closed upload =>
    some { s.setPhase r (marked caller closed) with db := s.db.markInodeDeleted upload.fileID }
  | .abortMultipart v2 ret upload =>
    some { s.setPhase r (.abortRow v2 ret upload) with s3 := { s.s3 with multipart := false } }
  | .abortRow false ret _ =>
    some { s.setPhase r (finish true ret none) with db := s.db.abortUpload s.uploadID }
  | .abortRow true ret upload =>
    some { s.setPhase r (s.mark (.abortV2 ret) true upload) with db := s.db.abortUploadV2 s.uploadID }
  | .transition _ =>
    match transitionUploadStatus s.uploadID .initiated .uploading s.db with
    | .ok ((), db) => some { s.setPhase r (.returned false none) with db := db }
    | .error _ => some (s.setPhase r .refresh)
  | .refresh =>
    match s.db.getUpload s.uploadID with
    | .error err => some (s.setPhase r (.returned false (some (.store err))))
    | .ok upload => some (s.setPhase r (refreshed upload env))
  | .committed _ _ => none
  | .returned _ _ => none

def fault (s : UploadSession) (r : Nat) (p : UploadPhase) : Option UploadSession :=
  match p with
  | .getUpload req => some (s.setPhase r (notLoaded req .driver))
  | .listParts _ _ => some (s.setPhase r (.returned false (some .s3)))
  | .completeMultipart _ => some (s.setPhase r (.returned false (some .s3)))
  | .finalizeTx upload => some (s.setPhase r (.deleteBlob upload (.store .driver)))
  | .deleteBlob upload err => some (s.setPhase r (.abortMetadata upload err))
  | .abortMetadata upload err => some (s.setPhase r (s.mark (.cleanup err) false upload))
  | .markLegacyFile caller closed _ => some (s.setPhase r (marked caller closed))
  | .markInode caller closed _ => some (s.setPhase r (marked caller closed))
  | .abortMultipart v2 ret upload => some (s.setPhase r (.abortRow v2 ret upload))
  | .abortRow _ ret _ => some (s.setPhase r (finish false ret (some (.store .driver))))
  | .transition _ => some (s.setPhase r (.returned false (some (.store .driver))))
  | .refresh => some (s.setPhase r (.returned false (some (.store .driver))))
  | .committed _ _ => none
  | .returned _ _ => none

def step (deterministicNodeID : Str → ID) (s : UploadSession) (l : UploadLabel)
    : Option UploadSession :=
  match l with
  | .start r req =>
    if (s.requests.get? r).isSome then none else some (s.setPhase r (.getUpload req))
  | .run r env => (s.requests.get? r).bind (s.run deterministicNodeID r env)
  | .fault r => (s.requests.get? r).bind (s.fault r)
  | .other db s3 =>
    if db.uploads.get? s.uploadID = s.db.uploads.get? s.uploadID then some { s with db := db, s3 := s3 } else none

end UploadSession
