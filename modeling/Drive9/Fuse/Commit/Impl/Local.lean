import Drive9.Fuse.WriteBuffer.Impl.Basic

/-!
This module contains what the mount keeps on the local disk for files that are not uploaded yet.
-/

inductive PendingKind where
  | new
  | overwrite
  | conflict
  deriving DecidableEq

structure WriteBackMeta where
  path : String
  size : Int
  generation : Nat
  kind : PendingKind
  baseRev : Int
  shadowSpill : Bool

structure Staged where
  data : Bytes
  stamp : Nat

structure PendingDir where
  metas : FMap String WriteBackMeta
  dats : FMap String Staged

variable (hashPath : String → String)

structure ShadowStore where
  dir : FMap String Staged
  active : FMap String Nat
  refs : FMap Nat Nat
  retired : FMap Nat Staged
  nextGen : Nat

namespace ShadowStore

def new (dir : FMap String Staged) : ShadowStore where
  dir := dir
  active := .empty
  refs := .empty
  retired := .empty
  nextGen := 0

def file (s : ShadowStore) (path : String) : Option Staged := s.dir.get? (hashPath path)

def has (s : ShadowStore) (path : String) : Bool := (s.file hashPath path).isSome

def writeFull (s : ShadowStore) (path : String) (file : Staged) : ShadowStore :=
  { s with dir := s.dir.set (hashPath path) file }

def pinIfExists (s : ShadowStore) (path : String) : ShadowStore :=
  if s.has hashPath path then
    match s.active.get? path with
    | some gen => { s with refs := s.refs.set gen ((s.refs.get? gen).getD 0 + 1) }
    | none =>
      let gen := s.nextGen + 1
      { s with nextGen := gen, active := s.active.set path gen, refs := s.refs.set gen 1 }
  else
    s

def unpin (s : ShadowStore) (gen : Nat) : ShadowStore :=
  let r := (s.refs.get? gen).getD 0 - 1
  if r = 0 then
    { s with refs := s.refs.del gen, retired := s.retired.del gen }
  else
    { s with refs := s.refs.set gen r }

def remove (s : ShadowStore) (path : String) : ShadowStore :=
  match s.active.get? path with
  | none => { s with dir := s.dir.del (hashPath path) }
  | some gen =>
    if (s.refs.get? gen).getD 0 > 0 then
      { s with
        dir := s.dir.del (hashPath path)
        active := s.active.del path
        retired :=
          match s.file hashPath path with
          | some file => s.retired.set gen file
          | none => s.retired }
    else
      { s with
        dir := s.dir.del (hashPath path)
        active := s.active.del path
        refs := s.refs.del gen }

end ShadowStore

structure PendingIndex where
  items : FMap String WriteBackMeta
  nextGen : Nat

namespace PendingIndex

def putInternal (idx : PendingIndex) (dir : PendingDir) (path : String) (size : Int)
    (kind : PendingKind)
    (baseRev : Int) (shadowSpill : Bool) : PendingIndex × PendingDir :=
  let gen := idx.nextGen + 1
  let md : WriteBackMeta :=
    { path := path
      size := size
      generation := gen
      kind := kind
      baseRev := baseRev
      shadowSpill := shadowSpill }
  ({ items := idx.items.set path md, nextGen := gen },
    { dir with metas := dir.metas.set (hashPath path) md })

def remove (idx : PendingIndex) (dir : PendingDir) (path : String) : PendingIndex × PendingDir :=
  ({ idx with items := idx.items.del path }, { dir with metas := dir.metas.del (hashPath path) })

def markConflict (idx : PendingIndex) (dir : PendingDir) (path : String)
    : PendingIndex × PendingDir :=
  match idx.items.get? path with
  | none => (idx, dir)
  | some md =>
    let conflicted := { md with kind := PendingKind.conflict }
    ({ idx with items := idx.items.set path conflicted },
      { dir with metas := dir.metas.set (hashPath path) conflicted })

def recoverFromDisk (dir : PendingDir) : PendingIndex :=
  let metas := dir.metas.keys.filterMap dir.metas.get?
  { items := FMap.empty.setAll (metas.map (fun md => (md.path, md)))
    nextGen := (metas.map WriteBackMeta.generation).foldl max 0 }

end PendingIndex

structure WriteBackCache where
  metas : FMap String WriteBackMeta
  nextGen : Nat

namespace WriteBackCache

def putWithBaseRev (c : WriteBackCache) (dir : PendingDir) (path : String) (data : Staged)
    (size : Int)
    (kind : PendingKind) (baseRev : Int) : WriteBackCache × PendingDir :=
  let md : WriteBackMeta :=
    { path := path
      size := size
      generation := c.nextGen + 1
      kind := kind
      baseRev := baseRev
      shadowSpill := false }
  ({ metas := c.metas.set path md, nextGen := c.nextGen + 1 },
    { metas := dir.metas.set (hashPath path) md, dats := dir.dats.set (hashPath path) data })

def pruneEntry (c : WriteBackCache) (dir : PendingDir) (path : String) (removeDataFile : Bool)
    : WriteBackCache × PendingDir :=
  ({ c with metas := c.metas.del path },
    { metas := dir.metas.del (hashPath path)
      dats := if removeDataFile then dir.dats.del (hashPath path) else dir.dats })

def remove (c : WriteBackCache) (dir : PendingDir) (path : String) : WriteBackCache × PendingDir :=
  c.pruneEntry hashPath dir path true

def validateScannedMeta (name : String) (md : WriteBackMeta) : Bool :=
  md.path ≠ "" && name = hashPath md.path

namespace new

def scan (names : List String) (c : WriteBackCache) (dir : PendingDir)
    : WriteBackCache × PendingDir :=
  match names with
  | [] => (c, dir)
  | name :: names =>
    match dir.metas.get? name with
    | none => scan names c dir
    | some md =>
      if validateScannedMeta hashPath name md then
        scan names { metas := c.metas.set md.path md, nextGen := max c.nextGen md.generation } dir
      else
        scan names c { metas := dir.metas.del name, dats := dir.dats.del name }

end new

def new (dir : PendingDir) : WriteBackCache × PendingDir :=
  new.scan hashPath dir.metas.keys { metas := .empty, nextGen := 0 } dir

namespace listPending

def collect (paths : List String) (c : WriteBackCache) (dir : PendingDir)
    : List (WriteBackMeta × Staged) × WriteBackCache × PendingDir :=
  match paths with
  | [] => ([], c, dir)
  | path :: paths =>
    match c.metas.get? path with
    | none => collect paths c dir
    | some md =>
      if md.kind = .conflict then
        collect paths c dir
      else
        match dir.dats.get? (hashPath path) with
        | none =>
          -- The data file is missing: the metadata is taken for an orphan.
          let (c, dir) := c.pruneEntry hashPath dir path false
          collect paths c dir
        | some data =>
          let (rest, c, dir) := collect paths c dir
          ((md, data) :: rest, c, dir)

end listPending

def listPending (c : WriteBackCache) (dir : PendingDir)
    : List (WriteBackMeta × Staged) × WriteBackCache × PendingDir :=
  listPending.collect hashPath c.metas.keys c dir

end WriteBackCache
