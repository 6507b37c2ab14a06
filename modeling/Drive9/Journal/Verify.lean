import Drive9.Journal.Store

/-!
This module contains `VerifyJournal` of `pkg/datastore/journal.go` with the reads it makes, one
phase for each of them, so that other calls may come in between.
-/

namespace Journal

def stringItem : Json → Str
  | .str s => s
  | _ => []

def decodeStrings (raw : Str) : Option (List Str) :=
  match Json.parse raw with
  | some (.arr items) => some (items.map stringItem)
  | _ => none

def member (key : String) (doc : Json) : Json :=
  match doc with
  | .obj members => (members.reverse.lookup key.toList).getD .null
  | _ => .null

def intItem : Json → Int
  | .num n =>
    if n.fraction = [] ∧ n.exponent = none then
      if n.negative then -(Decimal.value n.whole : Int) else Decimal.value n.whole
    else
      0
  | _ => 0

def artifactItem (item : Json) : ArtifactRef :=
  { name := stringItem (member "name" item), hash := stringItem (member "hash" item),
    contentType := stringItem (member "content_type" item), sizeBytes := intItem (member "size_bytes" item) }

def decodeArtifactRefs (raw : Str) : Option (List ArtifactRef) :=
  match Json.parse raw with
  | some (.arr items) => some (items.map artifactItem)
  | _ => none

variable (host : Host) (column : JsonColumn) (db : Db) (tenantID journalID : Str)

def scanEntry (r : EntryRow) : Entry :=
  { tenantID := r.tenantID, journalID := r.journalID, seq := r.seq, entryID := r.entryID, type := r.type,
    schemaVersion := r.schemaVersion, status := r.status.getD [], occurredAt := normalizeTime r.occurredAt,
    observedAt := normalizeTime r.observedAt, actor := ⟨r.actorType.getD [], r.actorID.getD []⟩, source := r.source,
    parentEntryID := r.parentEntryID.getD [], correlationID := r.correlationID.getD [],
    subjects := (r.subjects.map column.read).bind decodeStrings, summary := (r.summary.map column.read).getD [],
    artifactRefs := (r.artifactRefs.map column.read).bind decodeArtifactRefs, prevHash := r.prevHash,
    entryHash := r.entryHash }

def Db.entriesOf : List EntryRow :=
  db.entries.filter fun r => r.tenantID = tenantID ∧ r.journalID = journalID

def Db.entriesAfter (afterSeq : Int) : List EntryRow :=
  ((db.entriesOf tenantID journalID).filter fun r => afterSeq < r.seq).insertionSort fun a b => a.seq ≤ b.seq

def pageAfter (afterSeq : Int) : List Entry :=
  ((db.entriesAfter tenantID journalID afterSeq).take maxLimit).map (scanEntry column)

def listJournalEntries (afterSeq : Int) : Except Error (List Entry) :=
  if tenantID = [] ∨ journalID = [] then
    .error .tenantRequired
  else
    match validateJournalID journalID with
    | .error err => .error (.validation err)
    | .ok () =>
      if pageAfter column db tenantID journalID afterSeq = [] ∧ (db.journals.get? (tenantID, journalID)).isNone then
        .error .notFound
      else
        .ok (pageAfter column db tenantID journalID afterSeq)

def decodeMeta : Json → Option (List Label)
  | .null => some []
  | .obj members => members.mapM fun (key, v) =>
    match v with
    | .null => some ⟨key, []⟩
    | .str s => some ⟨key, s⟩
    | _ => none
  | _ => none

def decodeString : Json → Option Str
  | .null => some []
  | .str s => some s
  | _ => none

def decodeLabel (item : Json) : Option Label :=
  match item with
  | .null => some ⟨[], []⟩
  | .obj _ =>
    match decodeString (member "key" item), decodeString (member "value" item) with
    | some key, some value => some ⟨key, value⟩
    | _, _ => none
  | _ => none

def decodeLabels : Json → Option (List Label)
  | .null => some []
  | .arr items => items.mapM decodeLabel
  | _ => none

def decodeGenesis (doc : Json) : Option (List Label) :=
  match doc with
  | .null => some []
  | .obj _ =>
    match decodeMeta (Json.canon (member "meta" doc)), decodeLabels (member "labels" doc) with
    | some «meta», some labels => some («meta» ++ labels)
    | _, _ => none
  | _ => none

def labelsFromGenesis (raw : Str) : Except InputError (List Label) :=
  match (Json.parse raw).bind decodeGenesis with
  | none => .error .invalidJSON
  | some labels => do
    validateLabels (normalizeLabels host labels)
    pure (normalizeLabels host labels)

def labelRowOk (r : LabelRow) : Bool :=
  let canonical := normalizeLabel host ⟨r.key, r.value⟩
  decide (canonical = ⟨r.key, r.value⟩) && decide (validateLabels [canonical] = .ok ())
    && decide (r.hash = labelHash host canonical.key canonical.value)

def loadJournalLabels : List Label × Bool :=
  let rows := db.labels.filter fun r => r.tenantID = tenantID ∧ r.journalID = journalID
  let labels := (rows.map fun r => normalizeLabel host ⟨r.key, r.value⟩).filter fun l => validateLabels [l] = .ok ()
  let labels := normalizeLabels host labels
  if validateLabels labels = .ok () then (labels, rows.all (labelRowOk host)) else ([], false)

def subjectOfRow (r : SubjectRow) : Option Str × Bool :=
  match parseSubject host (r.type ++ ':' :: r.id) with
  | .error _ => (none, false)
  | .ok (subjectType, subjectID) =>
    (some (subjectType ++ ':' :: subjectID),
      decide (subjectType = r.type ∧ subjectID = r.id ∧ r.hash = subjectHash host subjectType subjectID))

def subjectRows (seq : Int) : List SubjectRow :=
  db.subjects.filter fun r => r.tenantID = tenantID ∧ r.journalID = journalID ∧ r.seq = seq

def subjectsOfSeq (seq : Int) : Except InputError (List Str) :=
  normalizeSubjects host ((subjectRows db tenantID journalID seq).filterMap fun r => (subjectOfRow host r).1)

def loadJournalEntrySubjects (firstSeq lastSeq : Int)
    : Except InputError ((Int → List Str) × Bool) := do
  let rows := db.subjects.filter fun r =>
    r.tenantID = tenantID ∧ r.journalID = journalID ∧ firstSeq ≤ r.seq ∧ r.seq ≤ lastSeq
  rows.forM fun r => (subjectsOfSeq host db tenantID journalID r.seq).map fun _ => ()
  let found := fun seq =>
    if firstSeq ≤ seq ∧ seq ≤ lastSeq then (subjectsOfSeq host db tenantID journalID seq).toOption.getD [] else []
  pure (found, rows.all fun r => (subjectOfRow host r).2)

structure VerifyResult where
  ok : Bool
  journalID : Str
  entries : Nat
  headHash : Str
  hashChainOK : Bool
  projectionOK : Bool

structure Progress where
  storedHead : Str
  prev : Str
  hashChainOK : Bool
  projectionOK : Bool
  count : Nat

inductive VerifyPhase where
  -- before the row is read
  | row
  -- before the labels are read
  | labels (expected : List Label) (p : Progress)
  -- before the next page is read
  | page (afterSeq : Int) (p : Progress)
  -- before the subjects of the page are read
  | subjects (entries : List Entry) (p : Progress)
  | done (result : Except Error VerifyResult)

def unmarshalAny (raw : Str) : Except InputError Json :=
  match Json.parse raw with
  | none => .error .invalidJSON
  | some doc => if doc.numbers.all Json.Number.inRange then .ok (doc.mapNumbers Json.Number.respell)
                else .error .invalidJSON

def readRow (row : JournalRow) : Except InputError (List Label × Progress) := do
  let genesis := host.column.read row.genesis
  let genesisDoc ← unmarshalAny genesis
  let genesisHash := hashCanonical host genesisDoc
  let expected ← labelsFromGenesis host genesis
  pure (expected, { storedHead := row.headHash, prev := genesisHash,
                    hashChainOK := genesisHash = row.genesisHash, projectionOK := true, count := 0 })

def verifyEntry (subjects : Int → List Str) (p : Progress) (entry : Entry)
    : Except InputError Progress := do
  let recomputed ← entryHash host entry
  pure { p with
    prev := recomputed,
    hashChainOK := p.hashChainOK && decide (entry.prevHash = p.prev) && decide (recomputed = entry.entryHash),
    projectionOK := p.projectionOK && decide (entry.subjects.getD [] = subjects entry.seq),
    count := p.count + 1 }

def Progress.result (p : Progress) (journalID : Str) : VerifyResult :=
  let hashChainOK := p.hashChainOK && decide (p.prev = p.storedHead)
  { ok := hashChainOK && p.projectionOK, journalID, entries := p.count, headHash := p.storedHead, hashChainOK,
    projectionOK := p.projectionOK }

def afterPage (entries : List Entry) (p : Progress) (journalID : Str) : VerifyPhase :=
  match entries with
  | [] => .done (.ok (p.result journalID))
  | entry :: entries => .subjects (entry :: entries) p

def verifyPage (entries : List Entry) (p : Progress) : Except InputError Progress := do
  let (found, subjectsOK) ← loadJournalEntrySubjects host db tenantID journalID ((entries.head?.map (·.seq)).getD 0)
    ((entries.getLast?.map (·.seq)).getD 0)
  entries.foldlM (verifyEntry host found) { p with projectionOK := p.projectionOK && subjectsOK }

def verifyStep (phase : VerifyPhase) : VerifyPhase :=
  match phase with
  | .row =>
    match db.journals.get? (tenantID, journalID) with
    | none => .done (.error .notFound)
    | some row =>
      match readRow host row with
      | .error err => .done (.error (.validation err))
      | .ok (expected, p) => .labels expected p
  | .labels expected p =>
    let (stored, labelsOK) := loadJournalLabels host db tenantID journalID
    .page 0 { p with projectionOK := labelsOK && decide (expected = stored) }
  | .page afterSeq p =>
    match listJournalEntries host.column db tenantID journalID afterSeq with
    | .error err => .done (.error err)
    | .ok entries => afterPage entries p journalID
  | .subjects entries p =>
    match verifyPage host db tenantID journalID entries p with
    | .error err => .done (.error (.validation err))
    | .ok p => .page ((entries.getLast?.map (·.seq)).getD 0) p
  | .done result => .done result

def verifyJournal : Option (Except Error VerifyResult) :=
  match (verifyStep host db tenantID journalID)^[2 * db.entries.length + 3] .row with
  | .done result => some result
  | _ => none

end Journal
