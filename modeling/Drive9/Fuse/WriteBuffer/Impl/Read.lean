import Drive9.Fuse.WriteBuffer.Impl.Basic

/-!
This module contains the observers of the write buffer: `Bytes`, `PartData`, `ReadAt` and
`DirtyStreamedParts`.
-/

namespace WriteBuffer

def smallFileBytes (wb : WriteBuffer) : Option Bytes :=
  match wb.smallFileData with
  | none => none
  | some data =>
    if wb.totalSize < data.len then
      some (data.toList.take wb.totalSize.toNat)
    else
      some data.toList

namespace bytes

def go (wb : WriteBuffer) (n : Nat) (i : Int) (buf : Bytes) : Bytes :=
  match n with
  | 0 => buf
  | n + 1 =>
    match wb.parts.get? i with
    | none => go wb n (i + 1) buf
    | some part => go wb n (i + 1) (Flat.copyAt buf (i * wb.partSize).toNat part)

end bytes

def bytes (wb : WriteBuffer) : Bytes :=
  if wb.totalSize = 0 then
    []
  else
    match wb.smallFileBytes with
    | some data => Flat.copyAt (List.replicate wb.totalSize.toNat 0) 0 data
    | none =>
      bytes.go wb (wb.numParts wb.totalSize).toNat 0 (List.replicate wb.totalSize.toNat 0)

def partData (wb : WriteBuffer) (partNum : Int) : Option Bytes :=
  let partIdx := partNum - 1
  let start := i64 (partIdx * wb.partSize)
  if start ≥ wb.totalSize then
    none
  else
    match wb.smallFileBytes with
    | some data =>
      if partNum ≠ 1 then
        none
      else
        some (Flat.resize 0 data (min wb.partSize wb.totalSize).toNat)
    | none =>
      let endOff := min (i64 (start + wb.partSize)) wb.totalSize
      let expectedLen := i64 (endOff - start)
      match wb.parts.get? partIdx with
      | none => some (List.replicate expectedLen.toNat 0)
      | some part => some (Flat.resize 0 part expectedLen.toNat)

namespace readAt

def chunk (wb : WriteBuffer) (partIdx partOff canRead : Int) : Option Bytes :=
  match wb.parts.get? partIdx with
  | none => some (List.replicate canRead.toNat 0)
  | some part =>
    let partEnd := partOff + canRead
    if partOff < 0 then
      none
    else if partEnd > part.length then
      if partOff < part.length then
        some (Flat.resize 0 (part.drop partOff.toNat) canRead.toNat)
      else
        some (List.replicate canRead.toNat 0)
    else
      some (Flat.slice part partOff.toNat partEnd.toNat)

def go (wb : WriteBuffer) (fuel : Nat) (pos : Int) (left : Nat) : Option Bytes :=
  match left, fuel with
  | 0, _ => some []
  | _ + 1, 0 => none
  | left + 1, fuel + 1 =>
    let partIdx := pos.tdiv wb.partSize
    let partOff := pos.tmod wb.partSize
    let canRead := min (i64 (wb.partSize - partOff)) (left + 1 : Nat)
    if canRead ≤ 0 then
      none
    else
      match chunk wb partIdx partOff canRead with
      | none => none
      | some bs =>
        match go wb fuel (i64 (pos + canRead)) (left + 1 - canRead.toNat) with
        | none => none
        | some rest => some (bs ++ rest)

end readAt

def readAt (wb : WriteBuffer) (offset : Int) (len : Nat) : Option Bytes :=
  if offset ≥ wb.totalSize then
    some []
  else
    let endOff := min (i64 (offset + len)) wb.totalSize
    let total := i64 (endOff - offset)
    if total ≤ 0 then
      some []
    else
      match wb.smallFileBytes with
      | some data =>
        if offset < 0 ∨ offset + total > data.length then
          none
        else
          some (Flat.slice data offset.toNat (offset + total).toNat)
      | none => readAt.go wb total.toNat offset total.toNat

def dirtyStreamedParts (wb : WriteBuffer) : List (Int × Bytes) :=
  ((wb.uploadedParts ∩ wb.dirtyParts).sort (· ≤ ·)).filterMap fun idx =>
    (wb.partData (idx + 1)).map fun data => (idx + 1, data)

def dirtyIndices (wb : WriteBuffer) : List Int := wb.dirtyParts.sort (· ≤ ·)

end WriteBuffer
