import Drive9.Fuse.WriteBuffer.Impl.Read

/-!
This module contains the lazily loaded write buffer: how `preloadWritableHandle` sets it up over a
remote file, and how `Dat9FS.Read` reads through it.
-/

namespace WriteBuffer

def loadRange (remote : Bytes) (partSize : Int) : LoadPartFunc := fun partNum =>
  let offset := (partNum - 1) * partSize
  let endOff := min (offset + partSize) remote.length
  .ok (Flat.slice remote offset.toNat endOff.toNat)

def preload (remote : Bytes) (maxSize partSize smallFileMax : Int) : WriteBuffer :=
  { (new maxSize partSize).setSmallFileMax smallFileMax with
    totalSize := remote.length
    remoteSize := remote.length
    loadPart := some (loadRange remote partSize) }

namespace readDirty

def loadParts (n : Nat) (wb : WriteBuffer) (p : Int) : WriteBuffer × Option BufError :=
  match n with
  | 0 => (wb, none)
  | n + 1 =>
    if wb.isPartLoaded p then
      loadParts n wb (p + 1)
    else
      match wb.ensureLoaded p with
      | (wb, some err) => (wb, some err)
      | (wb, none) => loadParts n wb (p + 1)

end readDirty

def readDirty (wb : WriteBuffer) (offset : Int) (size : Nat)
    : Option (WriteBuffer × Except BufError Bytes) :=
  if offset ≥ wb.totalSize then
    some (wb, .ok [])
  else
    let endOff := min (i64 (offset + size)) wb.totalSize
    let firstPart := offset.tdiv wb.partSize
    let lastPart := (endOff - 1).tdiv wb.partSize
    match readDirty.loadParts (lastPart - firstPart + 1).toNat wb firstPart with
    | (wb, some err) => some (wb, .error err)
    | (wb, none) => (wb.readAt offset (endOff - offset).toNat).map (fun bs => (wb, .ok bs))

def loadAll (remote : Bytes) (maxSize partSize smallFileMax : Int) : WriteBuffer :=
  let wb := preload remote maxSize partSize smallFileMax
  (readDirty.loadParts (wb.numParts remote.length).toNat wb 0).1

end WriteBuffer
