import Drive9.Lib.Lts
import Drive9.Fuse.Stream.Impl
import Drive9.Fuse.Commit.Impl.Local

/-!
This module contains the upload side of an open file of the mount (`pkg/fuse/dat9fs.go`).
-/

inductive SyncMode where
  | interactive
  | strict
  deriving DecidableEq

inductive WritePolicy where
  | writeBack
  | closeSync
  | writeSync
  deriving DecidableEq

inductive FuseStatus where
  | ok
  | eio
  | enospc
  | efbig
  deriving DecidableEq

def writeBackThreshold : Int := 10 * 2 ^ 20

structure Dat9FS where
  syncMode : SyncMode
  shadowStore : Bool
  pendingIndex : Bool
  writeBack : Bool
  uploader : Bool
  smallFileMax : Int
  debounceDelay : Int

namespace Dat9FS

def negotiatedInlineThreshold (fs : Dat9FS) : Int :=
  if fs.smallFileMax > 0 then fs.smallFileMax else 0

def inlineThreshold (fs : Dat9FS) : Int :=
  let v := fs.negotiatedInlineThreshold
  if v > 0 then v else defaultSmallFileThreshold

def newWriteBuffer (fs : Dat9FS) (maxSize partSize : Int) : WriteBuffer :=
  (WriteBuffer.new maxSize partSize).setSmallFileMax fs.inlineThreshold

end Dat9FS

structure FileHandle where
  dirty : Option WriteBuffer
  dirtySeq : Nat
  writeBackSeq : Nat
  origSize : Int
  baseRev : Int
  isNew : Bool
  shadowReady : Bool
  shadowSpill : Bool
  shadowCommitReady : Bool
  streamer : Option StreamUploader
  writePolicy : WritePolicy

namespace FileHandle

def hasDirtyParts (fh : FileHandle) : Bool :=
  match fh.dirty with
  | none => false
  | some wb => wb.hasDirtyParts

def size (fh : FileHandle) : Int :=
  match fh.dirty with
  | none => 0
  | some wb => wb.size

def pendingKindForHandle (fh : FileHandle) : PendingKind := if fh.isNew then .new else .overwrite

def expectedRevisionForHandle (fh : FileHandle) : Int :=
  if fh.isNew then
    0
  else if fh.baseRev > 0 then
    fh.baseRev
  else
    -1

def committedRevisionFromExpectedRevision (expectedRevision : Int) : Option Int :=
  if expectedRevision < 0 then none else some (expectedRevision + 1)

def finalizeHandleFlushLocked (fh : FileHandle) (expectedRevision : Int) : FileHandle :=
  let fh :=
    { fh with
      isNew := false
      baseRev := (committedRevisionFromExpectedRevision expectedRevision).getD 0 }
  { fh with streamer := fh.streamer.map (fun su => su.resetForNextWrite fh.expectedRevisionForHandle) }

def setRevision (fh : FileHandle) (committedRev : Int) : FileHandle :=
  { fh with isNew := false, baseRev := committedRev }

def clearDirty (fh : FileHandle) : FileHandle :=
  { fh with dirty := fh.dirty.map WriteBuffer.clearDirty }

def canStageShadowFastLocked (fs : Dat9FS) (fh : FileHandle) : Bool :=
  match fh.dirty with
  | none => false
  | some wb =>
    fs.shadowStore && fs.pendingIndex && (fh.shadowReady || fh.isNew || wb.canMaterializeFull)

end FileHandle

structure Attempt where
  expected : Int
  current : Int

structure Env where
  diskSpace : Bool
  shadowWrite : Bool
  shadowSync : Bool
  snapshotPut : Bool
  reportsRevision : Bool

structure Deferred where
  snapshotSeq : Nat
  expectedRevision : Int

structure Session where
  fh : FileHandle
  seq : Nat
  cached : Option (PendingKind × Int)
  deferred : Option Deferred
  rev : Int
  uploads : List Attempt

namespace Session

variable (fs : Dat9FS) (env : Env) (s : Session)

def upload (expected : Int) : Session × Bool :=
  let uploads := s.uploads ++ [{ expected := expected, current := s.rev }]
  if expected = s.rev then
    ({ s with rev := s.rev + 1, uploads := uploads }, true)
  else
    ({ s with uploads := uploads }, false)

def uploadFromShadowRemote (env : Env) (expectedRevision : Int) : Session × Bool :=
  if env.shadowSync then s.upload expectedRevision else (s, false)

def finishFlush (expectedRevision committedRev : Int) : Session :=
  let fh := { s.fh.clearDirty with dirtySeq := 0 }
  if committedRev > 0 then
    { s with fh := fh.setRevision committedRev }
  else
    { s with fh := fh.finalizeHandleFlushLocked expectedRevision }

def reported (env : Env) : Int := if env.reportsRevision then s.rev else 0

def flushBuffer (wb : WriteBuffer) : Session × FuseStatus :=
  let size := wb.size
  let expectedRevision := s.fh.expectedRevisionForHandle
  let threshold := fs.negotiatedInlineThreshold
  if size = 0 ∨ (threshold > 0 ∧ size < threshold) then
    match s.upload expectedRevision with
    | (s, false) => (s, .eio)
    | (s, true) => (s.finishFlush expectedRevision (s.reported env), .ok)
  else if s.fh.origSize ≥ threshold then
    if wb.dirtyPartNumbers.Nonempty then
      match s.upload expectedRevision with
      | (s, false) => (s, .eio)
      | (s, true) => (s.finishFlush expectedRevision 0, .ok)
    else
      (s.finishFlush expectedRevision 0, .ok)
  else
    match s.upload expectedRevision with
    | (s, false) => (s, .eio)
    | (s, true) => (s.finishFlush expectedRevision 0, .ok)

def uploadStream (expectedRevision : Int) : Session × FuseStatus :=
  match s.upload expectedRevision with
  | (s, false) => (s, .eio)
  | (s, true) => (s.finishFlush expectedRevision 0, .ok)

def uploadAll (su : StreamUploader) (wb : WriteBuffer) : Session × FuseStatus :=
  if (List.range (wb.numParts wb.size).toNat).any (fun i => (wb.partData (i + 1)).isSome) then
    let fh := { s.fh with streamer := some { su with started := true } }
    uploadStream { s with fh := fh } su.expectedRevision
  else
    (s.finishFlush su.expectedRevision 0, .ok)

def flushHandle : Session × FuseStatus :=
  match s.fh.dirty with
  | none => (s, .ok)
  | some wb =>
    if ¬ wb.hasDirtyParts then
      (s, .ok)
    else
      match s.fh.streamer with
      | none => flushBuffer fs env s wb
      | some su =>
        if su.started then
          uploadStream s su.expectedRevision
        else if wb.size ≥ fs.inlineThreshold then
          uploadAll s su wb
        else
          flushBuffer fs env s wb

def flushHandleDebounced (force : Bool) : Session × FuseStatus :=
  if force ∨ ¬ s.fh.hasDirtyParts then
    flushHandle fs env s
  else if s.fh.size ≥ fs.inlineThreshold ∨ fs.debounceDelay ≤ 0 then
    flushHandle fs env s
  else
    ({ s with
      deferred :=
        some
          { snapshotSeq := s.fh.dirtySeq
            expectedRevision := s.fh.expectedRevisionForHandle } }, .ok)

def fire : Session :=
  match s.deferred with
  | none => s
  | some d =>
    let s := { s with deferred := none }
    if s.fh.dirty.isNone ∨ s.fh.dirtySeq ≠ d.snapshotSeq then
      s
    else
      match s.upload d.expectedRevision with
      | (s, false) => s
      | (s, true) =>
        let fh :=
          if s.reported env > 0 then
            s.fh.setRevision (s.reported env)
          else
            s.fh.finalizeHandleFlushLocked d.expectedRevision
        { s with fh := fh.clearDirty }

def syncHandleToRemoteLocked : Session × FuseStatus :=
  if ¬ s.fh.hasDirtyParts then
    (s, .ok)
  else if s.fh.shadowSpill ∧ fs.shadowStore then
    let expectedRevision := s.fh.expectedRevisionForHandle
    match s.uploadFromShadowRemote env expectedRevision with
    | (s, false) => (s, .eio)
    | (s, true) =>
      let s := s.finishFlush expectedRevision 0
      ({ s with
        fh := { s.fh with shadowReady := false, shadowSpill := false, shadowCommitReady := false } }, .ok)
  else
    flushHandle fs env s

def stageShadowLocked (fh : FileHandle) : FileHandle × Bool :=
  if fh.canStageShadowFastLocked fs ∧ env.shadowWrite then
    ({ fh with shadowReady := true }, env.shadowSync)
  else
    (fh, false)

def snapshotWriteBackLocked : Session × Bool :=
  match s.fh.dirty with
  | none => (s, true)
  | some wb =>
    if ¬ fs.writeBack then
      (s, true)
    else if ¬ s.fh.shadowReady ∧ ¬ s.fh.isNew ∧ ¬ wb.canMaterializeFull then
      (s, false)
    else if env.snapshotPut then
      ({ s with cached := some (s.fh.pendingKindForHandle, s.fh.baseRev) }, true)
    else
      (s, false)

def uploadSpill : Session × FuseStatus :=
  match s.uploadFromShadowRemote env s.fh.expectedRevisionForHandle with
  | (s, false) => (s, .eio)
  | (s, true) => ({ s with fh := { s.fh.clearDirty with dirtySeq := 0 } }, .ok)

def snapshotSeq : Session := { s with fh := { s.fh with writeBackSeq := s.fh.dirtySeq } }

namespace flush

def snapshotOnly : Session × Bool :=
  match snapshotWriteBackLocked fs env s with
  | (s, true) => (s.snapshotSeq, true)
  | (s, false) => (s, false)

def hasActiveStream (fh : FileHandle) : Bool :=
  match fh.streamer with
  | none => false
  | some su => su.hasStreamedParts

def canStage (fh : FileHandle) : Bool :=
  match fh.dirty with
  | none => false
  | some wb => fh.canStageShadowFastLocked fs || wb.canMaterializeFull

def small : Session × Bool :=
  if ¬ (fs.writeBack ∧ s.fh.hasDirtyParts) then
    (s, false)
  else if s.fh.writeBackSeq > 0 ∧ s.fh.writeBackSeq = s.fh.dirtySeq then
    (s, true)
  else if s.fh.size < writeBackThreshold ∧ ¬ hasActiveStream s.fh ∧ canStage fs s.fh then
    if fs.shadowStore ∧ fs.pendingIndex then
      match stageShadowLocked fs env s.fh with
      | (fh, true) => ((snapshotWriteBackLocked fs env { s with fh := fh }).1.snapshotSeq, true)
      | (fh, false) => snapshotOnly fs env { s with fh := fh }
    else
      snapshotOnly fs env s
  else
    (s, false)

def large : Session × FuseStatus :=
  if s.fh.shadowSpill then
    if fs.syncMode = .interactive ∧ fs.shadowStore ∧ fs.pendingIndex then
      match stageShadowLocked fs env s.fh with
      | (fh, true) => ({ s with fh := { fh with shadowCommitReady := true } }, .ok)
      | (fh, false) => uploadSpill env { s with fh := fh }
    else
      uploadSpill env s
  else if fs.syncMode = .interactive ∧ fs.shadowStore ∧ fs.pendingIndex ∧ canStage fs s.fh then
    match stageShadowLocked fs env s.fh with
    | (fh, true) =>
      let s := (snapshotWriteBackLocked fs env { s with fh := fh }).1.snapshotSeq
      ({ s with fh := { s.fh with streamer := s.fh.streamer.filter (fun su => ¬ su.started) } }, .ok)
    | (fh, false) => flushHandle fs env { s with fh := fh }
  else
    flushHandle fs env s

end flush

def flush (fs : Dat9FS) (env : Env) (s : Session) : Session × FuseStatus :=
  if s.fh.hasDirtyParts ∧ s.fh.writePolicy ≠ .writeBack then
    syncHandleToRemoteLocked fs env s
  else
    match flush.small fs env s with
    | (s, true) => (s, .ok)
    | (s, false) =>
      if s.fh.hasDirtyParts ∧ s.fh.size ≥ writeBackThreshold then
        flush.large fs env s
      else
        flushHandleDebounced fs env s false

def expectedRevisionForWriteBack (kind : PendingKind) (baseRev : Int) : Int :=
  if kind = .new then
    0
  else if baseRev ≤ 0 then
    -1
  else
    baseRev

def uploadSync : Session × Bool :=
  match s.cached with
  | none => (s, true)
  | some (kind, baseRev) =>
    match s.upload (expectedRevisionForWriteBack kind baseRev) with
    | (s, false) => (s, false)
    | (s, true) => ({ s with cached := none }, true)

namespace fsync

def remote : Session × FuseStatus :=
  if s.fh.shadowSpill ∧ fs.shadowStore then
    uploadSpill env s
  else if fs.writeBack ∧ fs.uploader ∧ s.fh.writeBackSeq ≠ 0 ∧ s.fh.writeBackSeq = s.fh.dirtySeq then
    match uploadSync s with
    | (s, false) => (s, .eio)
    | (s, true) =>
      let fh := if s.fh.dirty.isSome then { s.fh.clearDirty with writeBackSeq := 0 } else s.fh
      flushHandleDebounced fs env { s with fh := fh } true
  else if fs.writeBack ∧ s.fh.writeBackSeq ≠ 0 ∧ s.fh.writeBackSeq ≠ s.fh.dirtySeq then
    flushHandleDebounced fs env { s with cached := none, fh := { s.fh with writeBackSeq := 0 } } true
  else
    flushHandleDebounced fs env s true

end fsync

def fsync (fs : Dat9FS) (env : Env) (s : Session) : Session × FuseStatus :=
  if fs.syncMode = .interactive then
    if ¬ s.fh.hasDirtyParts then
      (s, .ok)
    else
      match stageShadowLocked fs env s.fh with
      | (fh, true) =>
        if fh.shadowSpill then
          ({ s with fh := { fh with shadowCommitReady := true } }, .ok)
        else
          ((snapshotWriteBackLocked fs env { s with fh := fh }).1.snapshotSeq, .ok)
      | (fh, false) => fsync.remote fs env { s with fh := fh }
  else
    fsync.remote fs env s

namespace write

def syncWriteHandleToRemoteLocked (wb : WriteBuffer) : Session × FuseStatus :=
  if ¬ wb.hasDirtyParts then (s, .ok) else flushBuffer fs env s wb

def restoreFailedWriteSyncLocked (snapshot : WriteBuffer) : Session :=
  let fh := { s.fh with dirty := some snapshot, dirtySeq := 0, writeBackSeq := 0 }
  let fh :=
    if fs.shadowStore ∧ fh.shadowReady then
      { fh with shadowReady := false, shadowSpill := false, shadowCommitReady := false }
    else
      fh
  if snapshot.hasDirtyParts then
    { s with fh := { fh with dirtySeq := s.seq + 1 }, seq := s.seq + 1 }
  else
    { s with fh := fh }

end write

def write (fs : Dat9FS) (env : Env) (s : Session) (off : Int) (data : Bytes)
    : Option (Session × FuseStatus) :=
  let wb := s.fh.dirty.getD (fs.newWriteBuffer 0 0)
  let s := { s with fh := { s.fh with dirty := some wb } }
  let shadowed := s.fh.shadowReady && fs.shadowStore
  if s.fh.shadowSpill ∧ shadowed ∧ ¬ env.diskSpace then
    some (s, .enospc)
  else if s.fh.shadowSpill ∧ shadowed ∧ ¬ env.shadowWrite then
    some (s, .eio)
  else
    match wb.write off data with
    | none => none
    | some r =>
      match r.err with
      | some _ => some ({ s with fh := { s.fh with dirty := some r.buf } }, .efbig)
      | none =>
        let fh :=
          { s.fh with
            dirty := some r.buf
            streamer :=
              s.fh.streamer.map (fun su => r.full.foldl (fun su e => su.submitPart (e.1 + 1) e.2) su)
            shadowReady := s.fh.shadowReady && (s.fh.shadowSpill || !fs.shadowStore || env.shadowWrite)
            dirtySeq := s.seq + 1 }
        let s := { s with fh := fh, seq := s.seq + 1 }
        if fh.writePolicy = .writeSync then
          match write.syncWriteHandleToRemoteLocked fs env s r.buf with
          | (s, .ok) => some (s, .ok)
          | (s, st) => some (write.restoreFailedWriteSyncLocked fs s wb, st)
        else
          some (s, .ok)

end Session

def streamingWriteMaxSize : Int := 10 * 2 ^ 30

def Session.create (fs : Dat9FS) (policy : WritePolicy) (ensured : Bool) (seq : Nat) : Session :=
  let spill := policy ≠ .writeSync ∧ fs.shadowStore ∧ fs.pendingIndex ∧ ensured
  let streams := ¬ spill ∧ policy ≠ .writeSync
  { fh :=
      { dirty :=
          some
            { fs.newWriteBuffer streamingWriteMaxSize 0 with
              touched := true
              sequential := true
              onPartFull := if spill then .evictPart else if streams then .submitPart else .unset }
        dirtySeq := seq + 1
        writeBackSeq := 0
        origSize := 0
        baseRev := 0
        isNew := true
        shadowReady := spill
        shadowSpill := spill
        shadowCommitReady := false
        streamer := if streams then some (.new 0) else none
        writePolicy := policy }
    seq := seq + 1
    cached := none
    deferred := none
    rev := 0
    uploads := [] }

inductive HandleOp where
  | write (off : Int) (data : Bytes) (env : Env)
  | flush (env : Env)
  | fsync (env : Env)
  | fire (env : Env)

def Session.step (fs : Dat9FS) (s : Session) (op : HandleOp) : Option Session :=
  match op with
  | .write off data env => (s.write fs env off data).map Prod.fst
  | .flush env => some (s.flush fs env).1
  | .fsync env => some (s.fsync fs env).1
  | .fire env => some (s.fire env)
