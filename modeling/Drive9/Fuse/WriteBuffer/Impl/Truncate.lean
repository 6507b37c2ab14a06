import Drive9.Fuse.WriteBuffer.Impl.Basic

/-!
This module contains `WriteBuffer.Truncate`.
-/

namespace WriteBuffer

namespace truncate

def cutPart (parts : FMap Int Bytes) (idx partOff : Int) : FMap Int Bytes :=
  match parts.get? idx with
  | some part => if part.length > partOff then parts.set idx (part.take partOff.toNat) else parts
  | none => parts

def shrinkParts (wb : WriteBuffer) (size cur : Int) : WriteBuffer :=
  let wb := if size > 0 then wb.markDirty size cur else wb.markDirty 0 cur
  let newPartCount := wb.numParts size
  let parts := wb.parts.delIf (fun idx => decide (newPartCount ≤ idx))
  let dirtyParts := wb.dirtyParts.filter
    (fun idx => ¬ (newPartCount ≤ idx ∧ (wb.parts.get? idx).isSome))
  let lastIdx := newPartCount - 1
  let parts :=
    if size > 0 ∧ newPartCount > 0 then
      cutPart parts lastIdx (size - lastIdx * wb.partSize)
    else
      parts
  let dirtyParts :=
    if size > 0 ∧ size.tmod wb.partSize = 0 ∧ newPartCount > 0 then
      insert lastIdx dirtyParts
    else
      dirtyParts
  { wb with parts := parts, dirtyParts := dirtyParts, totalSize := size }

def extendSmall (data : GoSlice UInt8) (size : Int) : Option (GoSlice UInt8) :=
  if size > data.cap then
    let newCap := if size < 1024 then 1024 else size
    match (GoSlice.make 0 newCap.toNat).copyAt? 0 data.toList with
    | none => none
    | some grown => grown.reslice? size.toNat
  else
    match data.reslice? size.toNat with
    | none => none
    | some s => if h : data.len ≤ s.len then some (s.clearFrom 0 data.len h) else none

def shrink (wb : WriteBuffer) (size : Int) : Option (WriteBuffer × Option BufError) :=
  match wb.smallFileData with
  | some data =>
    match data.reslice? size.toNat with
    | none => none
    | some data =>
      some ({ wb with
              smallFileData := some data
              totalSize := size
              dirtyParts := insert 0 wb.dirtyParts }, none)
  | none => some (shrinkParts wb size wb.totalSize, none)

def extend (self : WriteBuffer → Int → Option (WriteBuffer × Option BufError)) (wb : WriteBuffer)
    (size : Int) : Option (WriteBuffer × Option BufError) :=
  match wb.smallFileData with
  | some data =>
    if size ≤ wb.smallFileMax then
      match extendSmall data size with
      | none => none
      | some data =>
        some ({ wb with
                smallFileData := some data
                totalSize := size
                dirtyParts := insert 0 wb.dirtyParts }, none)
    else
      self wb.migrateToPartMode size
  | none => some ({ wb.markDirty wb.totalSize size with totalSize := size }, none)

def body (self : WriteBuffer → Int → Option (WriteBuffer × Option BufError)) (wb : WriteBuffer)
    (size : Int) : Option (WriteBuffer × Option BufError) :=
  if size > wb.maxSize then
    some (wb, some .efbig)
  else
    let size := if size < 0 then 0 else size
    let wb := { wb with touched := true }
    if size < wb.totalSize then
      shrink wb size
    else if size > wb.totalSize then
      extend self wb size
    else
      some (wb, none)

end truncate

def truncate (wb : WriteBuffer) (size : Int) : Option (WriteBuffer × Option BufError) :=
  truncate.body (truncate.body fun _ _ => none) wb size

end WriteBuffer
