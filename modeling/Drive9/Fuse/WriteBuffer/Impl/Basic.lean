import Mathlib.Data.Finset.Sort
import Mathlib.Data.Finset.Range
import Drive9.Lib.FMap
import Drive9.Lib.GoSlice
import Drive9.Lib.Int64

/-!
This module contains the data model of the mount's write buffer (`pkg/fuse/write.go`).
-/

abbrev Bytes := List UInt8

inductive BufError where
  | efbig
  | load (msg : String)
  deriving DecidableEq

inductive OnPartFull where
  | unset
  | evictPart
  | submitPart
  deriving DecidableEq

abbrev LoadPartFunc := Int → Except BufError Bytes

def defaultWriteBufferMaxSize : Int := 64 * 2 ^ 20
def defaultPartSize : Int := 8 * 2 ^ 20
def defaultSmallFileThreshold : Int := 50000

structure WriteBuffer where
  totalSize : Int
  maxSize : Int
  partSize : Int
  smallFileMax : Int
  parts : FMap Int Bytes
  dirtyParts : Finset Int
  touched : Bool
  loadPart : Option LoadPartFunc
  remoteSize : Int
  appendCursor : Int
  sequential : Bool
  uploadedParts : Finset Int
  onPartFull : OnPartFull
  smallFileData : Option (GoSlice UInt8)

namespace WriteBuffer

def new (maxSize partSize : Int) : WriteBuffer where
  totalSize := 0
  maxSize := if maxSize ≤ 0 then defaultWriteBufferMaxSize else maxSize
  partSize := if partSize ≤ 0 then defaultPartSize else partSize
  smallFileMax := defaultSmallFileThreshold
  parts := .empty
  dirtyParts := ∅
  touched := false
  loadPart := none
  remoteSize := 0
  appendCursor := 0
  sequential := false
  uploadedParts := ∅
  onPartFull := .unset
  smallFileData := none

variable (wb : WriteBuffer)

def setSmallFileMax (threshold : Int) : WriteBuffer :=
  if threshold ≤ 0 then wb else { wb with smallFileMax := threshold }

def migrateToPartMode : WriteBuffer :=
  match wb.smallFileData with
  | none => wb
  | some data =>
    if data.len = 0 then
      { wb with smallFileData := none }
    else
      { wb with parts := wb.parts.set 0 data.toList, smallFileData := none }

def ensurePart (partIdx : Int) : WriteBuffer × Option BufError :=
  if wb.smallFileData.isSome then
    (wb, none)
  else if (wb.parts.get? partIdx).isSome then
    (wb, none)
  else if partIdx ∈ wb.uploadedParts then
    -- The part went to the uploader and was evicted, its bytes are gone.
    ({ wb with parts := wb.parts.set partIdx (List.replicate wb.partSize.toNat 0) }, none)
  else
    match wb.loadPart with
    | some load =>
      let partStart := i64 (partIdx * wb.partSize)
      if partStart < wb.remoteSize then
        match load (partIdx + 1) with
        | .error err => (wb, some err)
        | .ok data => ({ wb with parts := wb.parts.set partIdx data }, none)
      else
        ({ wb with parts := wb.parts.set partIdx [] }, none)
    | none => ({ wb with parts := wb.parts.set partIdx [] }, none)

def ensureLoaded (partIdx : Int) : WriteBuffer × Option BufError :=
  wb.ensurePart partIdx

def markDirty (start endOff : Int) : WriteBuffer :=
  let firstPart := start.tdiv wb.partSize
  let lastPart := (endOff - 1).tdiv wb.partSize
  if endOff ≤ start then
    wb
  else
    let marked := (Finset.range (lastPart - firstPart + 1).toNat).image (fun n : Nat => firstPart + n)
    { wb with dirtyParts := wb.dirtyParts ∪ marked }

def evictPart (partIdx : Int) : WriteBuffer :=
  let wb := { wb with uploadedParts := insert partIdx wb.uploadedParts }
  let wb := if wb.smallFileData.isSome then wb.migrateToPartMode else wb
  { wb with parts := wb.parts.del partIdx }

def resetSequentialState (newSize : Int) : WriteBuffer :=
  { wb with appendCursor := newSize, sequential := true }

def clearDirty : WriteBuffer :=
  { wb with dirtyParts := ∅, touched := false }

def hasDirtyParts : Bool :=
  wb.touched || decide wb.dirtyParts.Nonempty

def dirtyPartNumbers : Finset Int :=
  wb.dirtyParts.image (· + 1)

def size : Int := wb.totalSize

def isPartLoaded (partIdx : Int) : Bool :=
  if wb.smallFileData.isSome then
    partIdx = 0
  else
    (wb.parts.get? partIdx).isSome

def numParts (size : Int) : Int :=
  (i64 (size + wb.partSize - 1)).tdiv wb.partSize

def canMaterializeFull : Bool :=
  if wb.smallFileData.isSome then
    true
  else
    let covered := min wb.remoteSize wb.totalSize
    if covered ≤ 0 then
      true
    else
      (List.range (wb.numParts covered).toNat).all (fun idx => wb.isPartLoaded idx)

end WriteBuffer
