import Drive9.Lib.FMap
import Drive9.Lib.Frames

/-!
This module contains the write-ahead log of the mount (`pkg/fuse/journal.go`).
-/

namespace FuseJournal

open Frames (Octets)

inductive JournalOp where
  | write
  | truncate
  | rename
  | unlink
  | mkdir
  | rmdir
  | fsync
  | commit
  deriving DecidableEq

structure JournalEntry where
  seq : Nat
  op : JournalOp
  inode : Nat
  path : Octets
  newPath : Octets
  offset : Int
  length : Int
  baseRev : Int
  timestamp : Int
  deriving DecidableEq

-- `hash/crc32` and `encoding/json`
structure Host where
  crc : Octets → UInt32
  marshal : JournalEntry → Octets
  unmarshal : Octets → Option JournalEntry

structure Journal where
  seq : Nat
  file : Octets

def append (host : Host) (j : Journal) (entry : JournalEntry) : Journal :=
  let entry := { entry with seq := (j.seq + 1) % 2 ^ 64 }
  { seq := entry.seq, file := j.file ++ Frames.frame host.crc (host.marshal entry) }

def decode (host : Host) (raw : Octets) : Option JournalEntry := host.unmarshal (Frames.payload raw)

def entries (host : Host) (file : Octets) : List JournalEntry :=
  (Frames.scan host.crc 0 file).filterMap (decode host)

def maxSeq (es : List JournalEntry) : Nat := es.foldl (fun m e => if e.seq > m then e.seq else m) 0

def replay (host : Host) (j : Journal) : List JournalEntry × Journal :=
  (entries host j.file, { j with seq := maxSeq (entries host j.file) })

def recordCommit (committedUpTo : FMap Octets Nat) (e : JournalEntry) : FMap Octets Nat :=
  if e.op = .commit ∧ e.seq > (committedUpTo.get? e.path).getD 0 then committedUpTo.set e.path e.seq else committedUpTo

def committedUpTo (es : List JournalEntry) : FMap Octets Nat := es.foldl recordCommit .empty

def isKept (boundary : FMap Octets Nat) (e : JournalEntry) : Bool :=
  (boundary.get? e.path).all (· < e.seq)

def compact (host : Host) (j : Journal) : Journal :=
  let boundary := committedUpTo (entries host j.file)
  if boundary.isEmpty then
    j
  else
    { j with
      file := ((Frames.scan host.crc 0 j.file).filter fun raw => (decode host raw).any (isKept boundary)).flatten }

end FuseJournal
