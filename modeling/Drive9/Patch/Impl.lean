import Drive9.Lib.Multipart
import Drive9.Fuse.WriteBuffer.Impl.Read

/-!
This module contains the patch upload of an existing object.
-/

namespace S3Client

def PartSize : Int := 8 * 2 ^ 20
def MinPartSize : Int := 5 * 2 ^ 20
def MaxPartSize : Int := 5 * 2 ^ 30

structure Part where
  number : Int
  size : Int

def calcParts (totalSize partSize : Int) : Option (List Part) :=
  let partSize := if partSize ≤ 0 then PartSize else partSize
  let n := (i64 (totalSize + partSize - 1)).tdiv partSize
  if n < 0 then
    none
  else
    some ((List.range n.toNat).map (fun i : Nat =>
      { number := i + 1, size := if (i : Int) = n - 1 then totalSize - i * partSize else partSize }))

end S3Client

inductive PatchError where
  | uploadTooLarge (maxUploadBytes : Int)
  | notFound
  | notS3Stored
  | revisionConflict
  | uploadConflict
  | partSizeTooLarge (partSize : Int)
  | tooManyParts (partSize : Int) (parts : Nat) (size : Int)
  deriving DecidableEq

structure PatchTarget where
  storageS3 : Bool
  revision : Int
  sizeBytes : Int
  activeUpload : Bool

structure PatchUploadPart where
  number : Int
  size : Int
  readRange : Option (Int × Int)

structure CopiedPart where
  number : Int
  partStart : Int
  partEnd : Int

structure PatchPlan where
  partSize : Int
  uploadParts : List PatchUploadPart
  copiedParts : List CopiedPart

namespace Backend

def MaxMultipartParts : Nat := 10000

def ensureUploadSizeAllowed (maxUploadBytes size : Int) : Except PatchError Unit :=
  if size ≤ 0 ∨ maxUploadBytes ≤ 0 then
    .ok ()
  else if size > maxUploadBytes then
    .error (.uploadTooLarge maxUploadBytes)
  else
    .ok ()

namespace initiatePatchUpload

def partRange (partSize origSize : Int) (p : S3Client.Part) : Int × Int :=
  let partStart := (p.number - 1) * partSize
  let partEnd := partStart + p.size - 1
  (partStart, if partEnd ≥ origSize then origSize - 1 else partEnd)

def copies (dirty : Finset Int) (origPartCount : Int) (p : S3Client.Part) : Bool :=
  decide (p.number ∉ dirty) && decide (p.number ≤ origPartCount)

def plan (partSize origSize origPartCount : Int) (dirty : Finset Int)
    (newParts : List S3Client.Part)
    : PatchPlan where
  partSize := partSize
  uploadParts := (newParts.filter (fun p => !copies dirty origPartCount p)).map fun p =>
    { number := p.number
      size := p.size
      readRange := if p.number ≤ origPartCount then some (partRange partSize origSize p) else none }
  copiedParts := (newParts.filter (copies dirty origPartCount)).map fun p =>
    { number := p.number
      partStart := (partRange partSize origSize p).1
      partEnd := (partRange partSize origSize p).2 }

end initiatePatchUpload

def initiatePatchUpload (maxUploadBytes : Int) (target : Option PatchTarget) (newSize : Int)
    (dirtyParts : Finset Int) (clientPartSize expectedRevision : Int)
    : Option (Except PatchError PatchPlan) :=
  match ensureUploadSizeAllowed maxUploadBytes newSize with
  | .error err => some (.error err)
  | .ok () =>
    match target with
    | none => some (.error .notFound)
    | some file =>
      if ¬ file.storageS3 then
        some (.error .notS3Stored)
      else if expectedRevision = 0 then
        some (.error .revisionConflict)
      else if expectedRevision > 0 ∧ file.revision ≠ expectedRevision then
        some (.error .revisionConflict)
      else if file.activeUpload then
        some (.error .uploadConflict)
      else
        let partSize := if clientPartSize < S3Client.MinPartSize then S3Client.PartSize else clientPartSize
        if partSize > S3Client.MaxPartSize then
          some (.error (.partSizeTooLarge partSize))
        else
          match S3Client.calcParts newSize partSize with
          | none => none
          | some newParts =>
            if newParts.length > MaxMultipartParts then
              some (.error (.tooManyParts partSize newParts.length newSize))
            else if file.sizeBytes > 0 then
              (S3Client.calcParts file.sizeBytes partSize).map fun origParts =>
                .ok (initiatePatchUpload.plan partSize file.sizeBytes origParts.length dirtyParts newParts)
            else
              some (.ok (initiatePatchUpload.plan partSize file.sizeBytes 0 dirtyParts newParts))

end Backend

namespace Client

def readRemote (remote : Bytes) (range : Int × Int) : Bytes :=
  Flat.slice remote range.1.toNat (range.2 + 1).toNat

def uploadPatchPart (remote : Bytes) (readPart : Int → Int → Bytes → Bytes) (part : PatchUploadPart)
    : Int × Bytes :=
  let origData := (part.readRange.map (readRemote remote)).getD []
  (part.number, readPart part.number part.size origData)

def patchFile (remote : Bytes) (plan : PatchPlan) (readPart : Int → Int → Bytes → Bytes)
    : FMap Int Bytes :=
  let copied := FMap.empty.setAll
    (plan.copiedParts.map fun p => (p.number, readRemote remote (p.partStart, p.partEnd)))
  copied.setAll (plan.uploadParts.map (uploadPatchPart remote readPart))

end Client
