import Drive9.Fuse.WriteBuffer.Impl.Basic

/-!
This module contains `WriteBuffer.Write` with its two representations.
-/

namespace WriteBuffer

structure WriteResult where
  buf : WriteBuffer
  written : Nat
  err : Option BufError
  full : List (Int × Bytes)

namespace write

def go (fuel : Nat) (wb : WriteBuffer) (pos : Int) (rest : Bytes)
    : Option (WriteBuffer × Bytes × Option BufError) :=
  match rest, fuel with
  | [], _ => some (wb, [], none)
  | _ :: _, 0 => none
  | _ :: _, fuel + 1 =>
    let partIdx := pos.tdiv wb.partSize
    let partOff := pos.tmod wb.partSize
    match wb.ensurePart partIdx with
    | (wb, some err) => some (wb, rest, some err)
    | (wb, none) =>
      -- `part[partOff:]` panics. From here on `0 ≤ partOff < partSize`, so nothing overflows.
      if partOff < 0 then
        none
      else
        let part := (wb.parts.get? partIdx).getD []
        let canWrite := min (wb.partSize - partOff) rest.length
        let neededLen := min (partOff + canWrite) wb.partSize
        let part := if neededLen > part.length then Flat.resize 0 part neededLen.toNat else part
        let part := Flat.copyAt part partOff.toNat (rest.take canWrite.toNat)
        let wb :=
          { wb with
            parts := wb.parts.set partIdx part
            dirtyParts := insert partIdx wb.dirtyParts }
        go fuel wb (i64 (pos + canWrite)) (rest.drop canWrite.toNat)

def advanceCursor (wb : WriteBuffer) (offset endOff : Int) : WriteBuffer :=
  if offset = wb.appendCursor then
    { wb with appendCursor := endOff }
  else if offset > wb.appendCursor then
    { wb with appendCursor := endOff }
  else
    { wb with sequential := false }

def callOnPartFull (wb : WriteBuffer) (partIdx : Int) : WriteBuffer :=
  match wb.onPartFull with
  | .evictPart => wb.evictPart partIdx
  | _ => wb

def notifyFull (n : Nat) (wb : WriteBuffer) (p : Int) : WriteBuffer × List (Int × Bytes) :=
  match n with
  | 0 => (wb, [])
  | n + 1 =>
    if p ∈ wb.uploadedParts then
      notifyFull n wb (p + 1)
    else
      match wb.parts.get? p with
      | some part =>
        if part.length = wb.partSize then
          let (wb, full) := notifyFull n (callOnPartFull wb p) (p + 1)
          (wb, (p, part) :: full)
        else
          notifyFull n wb (p + 1)
      | none => notifyFull n wb (p + 1)

def finish (wb : WriteBuffer) (offset endOff : Int) : WriteBuffer × List (Int × Bytes) :=
  let wb := { wb with touched := true }
  let prevCursor := wb.appendCursor
  let wb := advanceCursor wb offset endOff
  if wb.sequential ∧ wb.onPartFull ≠ .unset ∧ wb.appendCursor > prevCursor then
    let prevCursor := max prevCursor 0
    let firstCandidate := prevCursor.tdiv wb.partSize
    let numFullParts := wb.appendCursor.tdiv wb.partSize
    notifyFull (numFullParts - firstCandidate).toNat wb firstCandidate
  else
    (wb, [])

def partMode (wb : WriteBuffer) (offset : Int) (data : Bytes) : Option WriteResult :=
  let endOff := i64 (offset + data.length)
  let wb := if endOff > wb.totalSize then { wb with totalSize := endOff } else wb
  match go data.length wb offset data with
  | none => none
  | some (wb, rest, some err) => some ⟨wb, (data.length - rest.length) % 2 ^ 32, some err, []⟩
  | some (wb, _, none) =>
    let (wb, full) := finish wb offset endOff
    some ⟨wb, data.length % 2 ^ 32, none, full⟩

def growSmall (wb : WriteBuffer) (needLen : Int) : Option (Option (GoSlice UInt8)) :=
  let cap : Nat := (wb.smallFileData.map GoSlice.cap).getD 0
  let len : Nat := (wb.smallFileData.map GoSlice.len).getD 0
  if needLen > cap then
    let newCap := if needLen < 1024 then 1024 else needLen
    let newCap := if newCap < 2 * cap then 2 * (cap : Int) else newCap
    let newCap := if newCap > wb.smallFileMax then wb.smallFileMax else newCap
    let old := (wb.smallFileData.map GoSlice.toList).getD []
    let grown : GoSlice UInt8 := .make 0 newCap.toNat
    match grown.copyAt? 0 old with
    | none => none
    | some grown => (grown.reslice? needLen.toNat).map some
  else if needLen > len then
    match wb.smallFileData with
    | none => none
    | some data => (data.reslice? needLen.toNat).map some
  else
    some wb.smallFileData

def clearSmall (data : Option (GoSlice UInt8)) (oldLen : Nat) : Option (GoSlice UInt8) :=
  data.map fun s => if h : oldLen < s.len then s.clearFrom 0 oldLen (Nat.le_of_lt h) else s

def copySmall (data : Option (GoSlice UInt8)) (offset : Int) (src : Bytes)
    : Option (Option (GoSlice UInt8)) :=
  if offset < 0 then
    none
  else
    match data with
    | none => if offset = 0 then some none else none
    | some s => (s.copyAt? offset.toNat src).map some

def writeSmallFile (retry : WriteBuffer → Int → Bytes → Option WriteResult) (wb : WriteBuffer)
    (offset : Int) (data : Bytes) : Option WriteResult :=
  let endOff := i64 (offset + data.length)
  if endOff > wb.maxSize then
    some ⟨wb, 0, some .efbig, []⟩
  else if endOff > wb.smallFileMax then
    retry wb.migrateToPartMode offset data
  else
    let oldLen := (wb.smallFileData.map GoSlice.len).getD 0
    let needLen := max endOff wb.totalSize
    match growSmall wb needLen with
    | none => none
    | some grown =>
      match copySmall (clearSmall grown oldLen) offset data with
      | none => none
      | some small =>
        let wb :=
          { wb with
            smallFileData := small
            totalSize := if endOff > wb.totalSize then endOff else wb.totalSize
            touched := true
            dirtyParts := insert 0 wb.dirtyParts }
        some ⟨advanceCursor wb offset endOff, data.length % 2 ^ 32, none, []⟩

def useSmallFile (wb : WriteBuffer) (endOff : Int) : Bool :=
  wb.smallFileData.isSome ||
    (decide (wb.partSize ≥ wb.smallFileMax) && wb.parts.isEmpty && wb.loadPart.isNone &&
      decide (endOff ≤ wb.smallFileMax) && decide (wb.totalSize ≤ wb.smallFileMax))

def body (self : WriteBuffer → Int → Bytes → Option WriteResult) (wb : WriteBuffer) (offset : Int)
    (data : Bytes) : Option WriteResult :=
  let endOff := i64 (offset + data.length)
  if endOff > wb.maxSize then
    some ⟨wb, 0, some .efbig, []⟩
  else if useSmallFile wb endOff then
    writeSmallFile self wb offset data
  else
    partMode wb offset data

end write

def write (wb : WriteBuffer) (offset : Int) (data : Bytes) : Option WriteResult :=
  write.body (write.body fun _ _ _ => none) wb offset data

end WriteBuffer
