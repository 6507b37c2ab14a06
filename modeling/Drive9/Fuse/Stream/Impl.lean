import Drive9.Patch.Impl
import Drive9.Fuse.WriteBuffer.FileOp

/-!
This module contains the streaming upload of a new file.
-/

namespace S3Client

def MaxAdaptivePartSize : Int := 512 * 2 ^ 20

def calcAdaptivePartSize (totalSize : Int) : Int :=
  let align : Int := 2 ^ 20
  let ps := (i64 (totalSize + 9999)).tdiv 10000
  let ps := (ps + align - 1).tdiv align * align
  let ps := if ps < PartSize then PartSize else ps
  if ps > MaxAdaptivePartSize then MaxAdaptivePartSize else ps

end S3Client

inductive StreamError where
  | uploadTooLarge
  | tooManyParts
  | invalidPartNumber (partNum : Int)
  | neverStarted
  | noParts
  | missingPart (partNum : Int)
  | partCountMismatch
  | partSizeMismatch (partNum : Int)
  deriving DecidableEq

structure UploadV2 where
  totalSize : Int
  partSize : Int
  partsTotal : Int

namespace UploadV2

def initiate (maxUploadBytes totalSize : Int) : Option (Except StreamError UploadV2) :=
  match Backend.ensureUploadSizeAllowed maxUploadBytes totalSize with
  | .error _ => some (.error .uploadTooLarge)
  | .ok () =>
    let partSize := S3Client.calcAdaptivePartSize totalSize
    match S3Client.calcParts totalSize partSize with
    | none => none
    | some parts =>
      if parts.length > Backend.MaxMultipartParts then
        some (.error .tooManyParts)
      else
        some (.ok { totalSize := totalSize, partSize := partSize, partsTotal := parts.length })

def presignPart (upload : UploadV2) (partNum : Int) : Except StreamError Unit :=
  if partNum < 1 ∨ partNum > upload.partsTotal then
    .error (.invalidPartNumber partNum)
  else
    .ok ()

def presignAll (upload : UploadV2) : List (Int × Bytes) → Except StreamError Unit
  | [] => .ok ()
  | e :: es =>
    match upload.presignPart e.1 with
    | .error err => .error err
    | .ok () => presignAll upload es

def checkSizes (uploaded : FMap Int Bytes) : List S3Client.Part → Except StreamError Unit
  | [] => .ok ()
  | p :: ps =>
    match uploaded.get? p.number with
    | none => .error (.missingPart p.number)
    | some data =>
      if (data.length : Int) ≠ p.size then
        .error (.partSizeMismatch p.number)
      else
        checkSizes uploaded ps

def confirm (upload : UploadV2) (uploaded : FMap Int Bytes) (parts : Int)
    : Option (Except StreamError Unit) :=
  if parts ≠ upload.partsTotal then
    some (.error .partCountMismatch)
  else
    (S3Client.calcParts upload.totalSize upload.partSize).map fun expectedParts =>
      if (uploaded.keys.length : Int) ≠ expectedParts.length then
        .error .partCountMismatch
      else
        checkSizes uploaded expectedParts

end UploadV2

namespace StreamWriter

def firstMissing (uploaded : FMap Int Bytes) (n : Nat) : Option Int :=
  (List.range n).findSome? fun i : Nat =>
    if (uploaded.get? ((i : Int) + 1)).isSome then none else some ((i : Int) + 1)

def uploadFinal (upload : UploadV2) (uploaded : FMap Int Bytes) (finalPartNum : Int)
    (finalPartData : Bytes)
    : Except StreamError (FMap Int Bytes) :=
  if finalPartData.length > 0 then
    match upload.presignPart finalPartNum with
    | .error err => .error err
    | .ok () => .ok (uploaded.set finalPartNum finalPartData)
  else
    .ok uploaded

def completeUploaded (upload : UploadV2) (uploaded : FMap Int Bytes)
    : Option (Except StreamError (FMap Int Bytes)) :=
  if uploaded.isEmpty then
    some (.error .noParts)
  else
    let maxPart := uploaded.keys.foldl max 0
    match firstMissing uploaded maxPart.toNat with
    | some partNum => some (.error (.missingPart partNum))
    | none =>
      match upload.confirm uploaded maxPart with
      | none => none
      | some (.error err) => some (.error err)
      | some (.ok ()) => some (.ok uploaded)

def complete (maxUploadBytes totalSize : Int) (writes : List (Int × Bytes)) (finalPartNum : Int)
    (finalPartData : Bytes) : Option (Except StreamError (FMap Int Bytes)) :=
  if writes.isEmpty then
    some (.error .neverStarted)
  else
    match UploadV2.initiate maxUploadBytes totalSize with
    | none => none
    | some (.error err) => some (.error err)
    | some (.ok upload) =>
      match upload.presignAll writes with
      | .error err => some (.error err)
      | .ok () =>
        match uploadFinal upload (FMap.empty.setAll writes) finalPartNum finalPartData with
        | .error err => some (.error err)
        | .ok uploaded => completeUploaded upload uploaded

end StreamWriter

structure StreamUploader where
  expectedRevision : Int
  started : Bool
  streamedParts : Finset Int
  pendingParts : FMap Int Bytes

namespace StreamUploader

def new (expectedRevision : Int) : StreamUploader where
  expectedRevision := expectedRevision
  started := false
  streamedParts := ∅
  pendingParts := .empty

def submitPart (su : StreamUploader) (partNum : Int) (data : Bytes) : StreamUploader :=
  { su with
    started := true
    streamedParts := insert partNum su.streamedParts
    pendingParts := su.pendingParts.set partNum data }

def hasStreamedParts (su : StreamUploader) : Bool := decide su.streamedParts.Nonempty

def resetForNextWrite (_ : StreamUploader) (revision : Int) : StreamUploader := .new revision

def pendingWrites (su : StreamUploader) (lastPartNum : Int) (lastPartData : Option Bytes)
    : List (Int × Bytes) :=
  (su.pendingParts.keys.filter (fun pn => ¬ (pn = lastPartNum ∧ lastPartData.isSome))).map
    (fun pn => (pn, (su.pendingParts.get? pn).getD []))

def finishStreaming (su : StreamUploader) (maxUploadBytes totalSize lastPartNum : Int)
    (lastPartData : Option Bytes) (dirtyParts : List (Int × Bytes))
    : Option (Except StreamError (FMap Int Bytes)) :=
  StreamWriter.complete maxUploadBytes totalSize (su.pendingWrites lastPartNum lastPartData ++ dirtyParts)
    lastPartNum (lastPartData.getD [])

end StreamUploader

structure StreamHandle where
  dirty : WriteBuffer
  streamer : StreamUploader

namespace StreamHandle

def create (maxSize partSize smallFileMax : Int) : StreamHandle where
  dirty :=
    { (WriteBuffer.new maxSize partSize).setSmallFileMax smallFileMax with
      touched := true
      sequential := true
      onPartFull := .submitPart }
  streamer := .new 0

def write (h : StreamHandle) (off : Int) (data : Bytes) : Option (StreamHandle × Option BufError) :=
  (h.dirty.write off data).map fun r =>
    ({ dirty := r.buf
       streamer := r.full.foldl (fun su e => su.submitPart (e.1 + 1) e.2) h.streamer }, r.err)

def truncate (h : StreamHandle) (newSize : Int) : Option (StreamHandle × Option BufError) :=
  match h.dirty.truncate newSize with
  | none => none
  | some (wb, some err) => some ({ h with dirty := wb }, some err)
  | some (wb, none) => some ({ h with dirty := wb.resetSequentialState newSize }, none)

def apply (h : StreamHandle) (op : FileOp) : Option (StreamHandle × Option BufError) :=
  match op with
  | .write off data => h.write off data
  | .truncate size => h.truncate size

def flush (h : StreamHandle) (maxUploadBytes : Int)
    : Option (Except StreamError (FMap Int Bytes)) :=
  if ¬ h.dirty.hasDirtyParts then
    none
  else if h.streamer.started then
    let size := h.dirty.size
    let lastPartNum := h.dirty.numParts size
    let lastPartData := if size.tmod h.dirty.partSize ≠ 0 then h.dirty.partData lastPartNum else none
    h.streamer.finishStreaming maxUploadBytes size lastPartNum lastPartData h.dirty.dirtyStreamedParts
  else
    none

end StreamHandle
