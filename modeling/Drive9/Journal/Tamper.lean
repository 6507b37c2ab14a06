import Drive9.Journal.Untampered

/-!
This module contains what is left of a journal after its rows were changed, if `VerifyJournal` still
finds the hash chain in order.
-/

namespace Journal

open List Option Decimal

open Json (Number)

variable {host : Host}

section Fields

end Fields

section Document

variable {e : Entry}

def Entry.value (e : Entry) : Entry × Except InputError Json :=
  ({ e with summary := [] }, (rawValue e.summary).map Json.canon)

structure Entry.Scanned (e : Entry) : Prop where
  occurredAt : normalizeTime e.occurredAt = e.occurredAt
  observedAt : normalizeTime e.observedAt = e.observedAt

end Document

section Chain

def AllFounded (host : Host) (db : Db) : Prop :=
  ∀ key row, db.journals.get? key = some row → ∃ req doc, Founded host req row doc

theorem AllFounded.effect (h : AllFounded host db) (he : Effect host db db')
    : AllFounded host db' := by
  cases he with
  | same => exact h
  | created he =>
    obtain ⟨req', hprepare, _, labels, rfl⟩ := he.prepared
    exact FMap.forall_set h ⟨_, prepareCreate_founded hprepare⟩
  | appended he =>
    obtain ⟨req, doc, hfounded⟩ := h _ _ he.journal
    obtain ⟨normalized, hash, _, _, _, _, rows, _, rfl⟩ := he.prepared
    exact FMap.forall_set h ⟨req, doc, hfounded.row rfl rfl⟩

end Chain

def JournalRow.genesisValue (column : JsonColumn) (row : JournalRow) : Option Json :=
  (Json.parse (column.read row.genesis)).map Json.canon

/--
What is read of the entries and of the genesis in `db'` is what was stored in `db`.
-/
structure SameContent (column : JsonColumn) (tenantID journalID : Str) (db db' : Db) : Prop where
  entries : ((db'.entriesOf tenantID journalID).map fun r => (scanEntry column r).value).Perm
    ((db.entriesOf tenantID journalID).map fun r => (scanEntry .exact r).value)
  genesis : (db'.journals.get? (tenantID, journalID)).map (JournalRow.genesisValue column)
    = (db.journals.get? (tenantID, journalID)).map (JournalRow.genesisValue .exact)

/--
The entries are numbered from 1 on, and the genesis document is not that of an entry and has its
numbers spelled as doubles are.
-/
structure Covered (column : JsonColumn) (tenantID journalID : Str) (db : Db) : Prop where
  seqs : ∀ r ∈ db.entriesOf tenantID journalID, 0 < r.seq
  genesis : ∀ row doc, db.journals.get? (tenantID, journalID) = some row
    → row.genesisValue column = some doc
    → "prev_hash".toList ∉ doc.keys ∧ ∀ n ∈ doc.numbers, n.respell = n

section Main

variable {db db' : Db} {tenantID journalID : Str}

variable {column : JsonColumn}

theorem SameContent.seqs (h : SameContent column tenantID journalID db db')
    (hpos : ∀ r ∈ db.entriesOf tenantID journalID, 0 < r.seq)
    : ∀ r ∈ db'.entriesOf tenantID journalID, 0 < r.seq := by
  intro r hr
  have hmem := h.entries.mem_iff.mp (mem_map_of_mem hr)
  obtain ⟨r0, hr0, heq⟩ := mem_map.mp hmem
  have hseq : r0.seq = r.seq := congrArg (fun v : Entry × _ => v.1.seq) heq
  rw [← hseq]
  exact hpos r0 hr0

end Main

section Sample

def sampleKey : Str × Str := ("t".toList, "log".toList)

def Db.head (db : Db) : Option (Str × Int) :=
  (db.journals.get? sampleKey).map fun row => (row.headHash, row.nextSeq)

end Sample

end Journal
