import Drive9.Fuse.WriteBuffer.Impl.Read
import Drive9.Lib.Disk

/-!
This module contains the shadow store (`pkg/fuse/shadow.go`) with its descriptors, generations and
pins.
-/

namespace Shadow

inductive Name where
  | shadow (hash : String)
  | retired (hash : String) (gen : Nat)
  deriving DecidableEq

structure DirtyExtent where
  offset : Int
  length : Int

structure ShadowFile where
  size : Int
  baseRev : Int
  extents : List DirtyExtent

structure RetiredShadow where
  fd : Nat
  diskPath : Name
  size : Int

structure ShadowStore where
  disk : Disk Name
  -- the fields of each `*ShadowFile`
  shadows : FMap Nat ShadowFile
  files : FMap String Nat
  nextGen : Nat
  active : FMap String Nat
  genFile : FMap Nat Nat
  refs : FMap Nat Int
  retired : FMap Nat RetiredShadow

def newShadowStore (disk : Disk Name) : ShadowStore :=
  ⟨disk, .empty, .empty, 0, .empty, .empty, .empty, .empty⟩

namespace ShadowStore

def setFile (s : ShadowStore) (sf : Nat) (f : ShadowFile → ShadowFile) : ShadowStore :=
  { s with shadows := s.shadows.modify sf f }

def setBaseRev (baseRev : Int) (f : ShadowFile) : ShadowFile :=
  if baseRev ≠ 0 then { f with baseRev } else f

variable (hashPath : String → String)

variable (s : ShadowStore) (remotePath : String)

def shadowPath : Name := .shadow (hashPath remotePath)

def addFile (opened : Nat × Disk Name) (baseRev : Int) : ShadowStore :=
  { s with
    disk := opened.2
    shadows := s.shadows.set opened.1 ⟨opened.2.size opened.1, baseRev, []⟩
    files := s.files.set remotePath opened.1 }

def ensureShadowFile (baseRev : Int) : ShadowStore × Nat :=
  match s.files.get? remotePath with
  | some sf => (s.setFile sf (setBaseRev baseRev), sf)
  | none =>
    let opened := s.disk.openCreate (shadowPath hashPath remotePath)
    (s.addFile remotePath opened baseRev, opened.1)

def ensure (size baseRev : Int) : ShadowStore :=
  let (s, sf) := s.ensureShadowFile hashPath remotePath baseRev
  match s.disk.truncate sf size with
  | none => s
  | some disk => { s with disk }.setFile sf fun f => setBaseRev baseRev { f with size }

def writeAt (s : ShadowStore) (remotePath : String) (offset : Int) (data : Bytes) (baseRev : Int)
    : ShadowStore :=
  let (s, sf) := s.ensureShadowFile hashPath remotePath baseRev
  match s.disk.writeAt sf data offset with
  | none => s
  | some disk =>
    let endOff := offset + data.length
    { s with disk }.setFile sf fun f => setBaseRev baseRev { f with size := if endOff > f.size then endOff else f.size }

def writeFull (data : Bytes) (baseRev : Int) : ShadowStore :=
  let (s, sf) := s.ensureShadowFile hashPath remotePath baseRev
  match s.disk.truncate sf 0 with
  | none => s
  | some disk =>
    let s := { s with disk }
    match s.disk.writeAt sf data 0 with
    | none => s
    | some disk =>
      let s := { s with disk }
      match s.disk.truncate sf data.length with
      | none => s
      | some disk => { s with disk }.setFile sf fun f => { f with size := data.length, baseRev }

def truncate (s : ShadowStore) (remotePath : String) (size baseRev : Int) : ShadowStore :=
  let (s, sf) := s.ensureShadowFile hashPath remotePath baseRev
  match s.disk.truncate sf size with
  | none => s
  | some disk => { s with disk }.setFile sf fun f => setBaseRev baseRev { f with size }

def dirtyData (wb : WriteBuffer) : List (Int × Bytes) :=
  match wb.smallFileBytes with
  | some data => if data = [] then [] else [(0, data)]
  | none =>
    wb.dirtyIndices.filterMap fun idx => (wb.partData (idx + 1)).map fun data =>
      (i64 (idx * wb.partSize), data)

def writeParts (disk : Disk Name) (sf : Nat) (parts : List (Int × Bytes)) : Disk Name × Bool :=
  match parts with
  | [] => (disk, true)
  | (offset, data) :: parts =>
    match disk.writeAt sf data offset with
    | none => (disk, false)
    | some disk => writeParts disk sf parts

def writeExtents (wb : WriteBuffer) (baseRev : Int) : ShadowStore :=
  let (s, sf) := s.ensureShadowFile hashPath remotePath baseRev
  match writeParts s.disk sf (dirtyData wb) with
  | (disk, false) => { s with disk }
  | (disk, true) =>
    let extents := (dirtyData wb).map fun (offset, data) => ⟨offset, data.length⟩
    let s := { s with disk }.setFile sf fun f => setBaseRev baseRev { f with size := wb.size, extents }
    match s.disk.truncate sf wb.size with
    | none => s
    | some disk => { s with disk }

def readAtGen (gen : Nat) (offset : Int) (len : Nat) : Option Bytes :=
  match s.genFile.get? gen with
  | some sf => s.disk.readAt sf offset len
  | none =>
    match s.retired.get? gen with
    | some rt => s.disk.readAt rt.fd offset len
    | none => none

def addRef (gen : Nat) : ShadowStore :=
  { s with refs := s.refs.set gen ((s.refs.get? gen).getD 0 + 1) }

def pin : ShadowStore :=
  match s.active.get? remotePath with
  | some gen => s.addRef gen
  | none =>
    let gen := s.nextGen + 1
    let genFile :=
      match s.files.get? remotePath with
      | some sf => s.genFile.set gen sf
      | none => s.genFile
    { s with nextGen := gen, active := s.active.set remotePath gen, genFile }.addRef gen

def pinFile (sf : Nat) : ShadowStore :=
  match s.active.get? remotePath with
  | some gen => s.addRef gen
  | none =>
    let gen := s.nextGen + 1
    { s with nextGen := gen, active := s.active.set remotePath gen, genFile := s.genFile.set gen sf }.addRef gen

def pinIfExists : ShadowStore :=
  match s.files.get? remotePath with
  | some sf => s.pinFile remotePath sf
  | none =>
    match s.disk.open? (shadowPath hashPath remotePath) with
    | none => s
    | some opened => (s.addFile remotePath opened 0).pinFile remotePath opened.1

def unpin (gen : Nat) : ShadowStore :=
  if gen = 0 then
    s
  else
    let r := (s.refs.get? gen).getD 0 - 1
    if r ≤ 0 then
      match s.retired.get? gen with
      | none => { s with refs := s.refs.del gen }
      | some rt =>
        { s with
          refs := s.refs.del gen
          retired := s.retired.del gen
          disk := (s.disk.close rt.fd).remove rt.diskPath }
    else
      { s with refs := s.refs.set gen r }

def retireDisk (disk : Disk Name) (hash : String) (gen : Nat) : Disk Name × Name :=
  match disk.rename (.shadow hash) (.retired hash gen) with
  | some disk => (disk, .retired hash gen)
  | none => (disk.remove (.shadow hash), .shadow hash)

def retire (gen : Nat) : ShadowStore :=
  let (disk, diskPath) := retireDisk s.disk (hashPath remotePath) gen
  { s with
    disk
    files := s.files.del remotePath
    active := s.active.del remotePath
    genFile := s.genFile.del gen
    retired :=
      match s.files.get? remotePath with
      | some sf => s.retired.set gen ⟨sf, diskPath, ((s.shadows.get? sf).map (·.size)).getD 0⟩
      | none => s.retired }

def dropFile : ShadowStore :=
  match s.files.get? remotePath with
  | some sf =>
    { s with files := s.files.del remotePath,
             disk := (s.disk.close sf).remove (shadowPath hashPath remotePath) }
  | none => { s with disk := s.disk.remove (shadowPath hashPath remotePath) }

def remove : ShadowStore :=
  match s.active.get? remotePath with
  | none => s.dropFile hashPath remotePath
  | some gen =>
    if 0 < (s.refs.get? gen).getD 0 then
      s.retire hashPath remotePath gen
    else
      { s with
        active := s.active.del remotePath
        genFile := s.genFile.del gen
        refs := s.refs.del gen }.dropFile hashPath remotePath

def moveActive (active : FMap String Nat) (oldPath newPath : String) : FMap String Nat :=
  match active.get? oldPath with
  | some gen => (active.set newPath gen).del oldPath
  | none => active

def rollback (oldPath newPath : String) (sf : Nat) : ShadowStore :=
  { s with
    files := ((s.files.del oldPath).set newPath sf).del newPath |>.set oldPath sf
    active :=
      match s.active.get? oldPath with
      | some gen => ((moveActive s.active oldPath newPath).set oldPath gen).del newPath
      | none => s.active }

def rename (s : ShadowStore) (oldPath newPath : String) : ShadowStore :=
  match s.files.get? oldPath with
  | none => s
  | some sf =>
    match s.disk.rename (shadowPath hashPath oldPath) (shadowPath hashPath newPath) with
    | none => s.rollback oldPath newPath sf
    | some disk =>
      { s with
        disk
        files := (s.files.del oldPath).set newPath sf
        active := moveActive s.active oldPath newPath }

end ShadowStore

inductive Op where
  | ensure (path : String) (size baseRev : Int)
  | writeAt (path : String) (offset : Int) (data : Bytes) (baseRev : Int)
  | writeFull (path : String) (data : Bytes) (baseRev : Int)
  | writeExtents (path : String) (wb : WriteBuffer) (baseRev : Int)
  | truncate (path : String) (size baseRev : Int)
  | pin (path : String)
  | pinIfExists (path : String)
  | unpin (gen : Nat)
  | remove (path : String)
  | rename (oldPath newPath : String)

def run (hashPath : String → String) (s : ShadowStore) : Op → ShadowStore
  | .ensure path size baseRev => s.ensure hashPath path size baseRev
  | .writeAt path offset data baseRev => s.writeAt hashPath path offset data baseRev
  | .writeFull path data baseRev => s.writeFull hashPath path data baseRev
  | .writeExtents path wb baseRev => s.writeExtents hashPath path wb baseRev
  | .truncate path size baseRev => s.truncate hashPath path size baseRev
  | .pin path => s.pin path
  | .pinIfExists path => s.pinIfExists hashPath path
  | .unpin gen => s.unpin gen
  | .remove path => s.remove hashPath path
  | .rename oldPath newPath => s.rename hashPath oldPath newPath

def step (hashPath : String → String) (s : ShadowStore) (op : Op) : Option ShadowStore :=
  some (run hashPath s op)

end Shadow
