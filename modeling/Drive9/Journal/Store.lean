import Drive9.Journal.Impl
import Drive9.Lib.FMap
import Drive9.Lib.Transaction

/-!
This module contains the tables of `pkg/datastore/journal.go` with `CreateJournal` and
`AppendJournalEntries`.
-/

namespace Journal

open Transaction (require)

structure JournalRow where
  kind : Str
  title : Option Str
  actorType : Option Str
  actorID : Option Str
  source : Option Str
  «meta» : Option Str
  retention : Option Str
  nextSeq : Int
  genesis : Str
  createHash : Str
  genesisHash : Str
  headHash : Str
  createdAt : Time
  updatedAt : Time
  closedAt : Option Time

structure LabelRow where
  tenantID : Str
  key : Str
  hash : Str
  value : Str
  journalID : Str
  createdAt : Time

structure AppendRequestRow where
  requestHash : Str
  writerType : Str
  writerID : Str
  effectiveSource : Str
  firstSeq : Int
  lastSeq : Int
  count : Nat
  headHash : Str

structure EntryRow where
  tenantID : Str
  journalID : Str
  seq : Int
  entryID : Str
  type : Str
  schemaVersion : Int
  status : Option Str
  occurredAt : Time
  observedAt : Time
  actorType : Option Str
  actorID : Option Str
  source : Str
  parentEntryID : Option Str
  correlationID : Option Str
  subjects : Option Str
  summary : Option Str
  artifactRefs : Option Str
  prevHash : Str
  entryHash : Str

structure SubjectRow where
  tenantID : Str
  type : Str
  hash : Str
  id : Str
  observedAt : Time
  journalID : Str
  seq : Int

structure Db where
  journals : FMap (Str × Str) JournalRow
  labels : List LabelRow
  appendRequests : FMap (Str × Str × Str) AppendRequestRow
  entries : List EntryRow
  subjects : List SubjectRow

def Db.empty : Db := ⟨.empty, [], .empty, [], []⟩

inductive Error where
  | tenantRequired
  | idempotencyKeyRequired
  | entryRequired
  | trustedWriterRequired (source : Str)
  | sourceMismatch (source writerSource : Str)
  | validation (err : InputError)
  | payloadTooLarge (err : InputError)
  | conflict
  | idempotencyConflict
  | closed
  | notFound
  | driver
  deriving DecidableEq

abbrev Tx := StateT Db (Except Error)

def wrapJournalInputError (err : InputError) : Error :=
  if err.payloadTooLarge then .payloadTooLarge err else .validation err

def wrap (x : Except InputError α) : Except Error α :=
  match x with
  | .ok a => .ok a
  | .error err => .error (wrapJournalInputError err)

def ensure (c : Prop) [Decidable c] (err : Error) : Except Error Unit :=
  if c then .ok () else .error err

def outside (x : Except Error α) : Tx α :=
  match x with
  | .ok a => pure a
  | .error err => throw err

def input (x : Except InputError α) : Tx α := outside (wrap x)

def nullStr (s : Str) : Option Str := if s = [] then none else some s

def nullJSON (raw : Str) : Option Str := if raw = [] ∨ raw = "null".toList then none else some raw

structure Env where
  now : Time
  newID : Nat → Str
  fault : Bool

structure JournalWriter where
  type : Str
  id : Str
  source : Str

structure AppendResponse where
  journalID : Str
  appendID : Str
  firstSeq : Int
  lastSeq : Int
  count : Nat
  headHash : Str
  idempotent : Bool

def AppendRequestRow.response (r : AppendRequestRow) (journalID appendID : Str) : AppendResponse :=
  ⟨journalID, appendID, r.firstSeq, r.lastSeq, r.count, r.headHash, true⟩

variable (host : Host)

def insertLabelTx (tenantID journalID : Str) (now : Time) (label : Label) : Tx Unit := do
  let db ← get
  let row : LabelRow := ⟨tenantID, label.key, labelHash host label.key label.value, label.value, journalID, now⟩
  require (∀ l ∈ db.labels, ¬ (l.tenantID = tenantID ∧ l.journalID = journalID ∧ l.key = row.key ∧ l.hash = row.hash))
    .driver
  set { db with labels := db.labels ++ [row] }

def newJournalRow (req : CreateRequest) (createHash : Str) (genesis : Json) (now : Time)
    : JournalRow :=
  { kind := req.kind, title := nullStr req.title, actorType := nullStr req.actor.type,
    actorID := nullStr req.actor.id, source := nullStr req.source,
    «meta» := nullJSON (Json.write (Json.canon (metaJson req.meta))), retention := nullJSON req.retention, nextSeq := 1,
    genesis := Json.write (Json.canon genesis), createHash, genesisHash := hashCanonical host genesis,
    headHash := hashCanonical host genesis, createdAt := now, updatedAt := now, closedAt := none }

def insertJournalTx (tenantID : Str) (req : CreateRequest) (row : JournalRow) (now : Time)
    : Tx JournalRow := do
  modify fun db => { db with journals := db.journals.set (tenantID, req.journalID) row }
  req.labels.forM (insertLabelTx host tenantID req.journalID now)
  pure row

def existingJournalTx (createHash : Str) (row : JournalRow) : Tx JournalRow := do
  require (row.createHash = createHash) .conflict
  pure row

def createJournalTx (tenantID : Str) (req : CreateRequest) (row : JournalRow) (now : Time)
    : Tx JournalRow := do
  match (← get).journals.get? (tenantID, req.journalID) with
  | some existing => existingJournalTx row.createHash existing
  | none => insertJournalTx host tenantID req row now

def prepareCreate (env : Env) (tenantID : Str) (req : CreateRequest)
    : Except Error (CreateRequest × JournalRow) := do
  ensure (tenantID ≠ []) .tenantRequired
  let journalID := if req.journalID = [] then env.newID 0 else req.journalID
  let req ← wrap (normalizeCreateRequest host { req with journalID })
  wrap (validateLabels req.labels)
  let createHash ← wrap (createHash host tenantID req)
  let genesis ← wrap (genesisDocument tenantID req (normalizeTime env.now))
  pure (req, newJournalRow host req createHash genesis (normalizeTime env.now))

def createJournal (env : Env) (tenantID : Str) (req : CreateRequest) : Tx JournalRow := do
  let (req, row) ← outside (prepareCreate host env tenantID req)
  require (env.fault = false) .driver
  createJournalTx host tenantID req row (normalizeTime env.now)

structure Batch where
  tenantID : Str
  journalID : Str
  nextSeq : Int
  observedAt : Time
  journalActor : Actor
  writer : JournalWriter
  newID : Nat → Str

def Batch.actor (b : Batch) (actor : Actor) : Actor :=
  if actor.type = [] ∧ actor.id = [] then
    if b.journalActor.type = [] ∧ b.journalActor.id = [] then ⟨b.writer.type, b.writer.id⟩ else b.journalActor
  else
    actor

def Batch.entry (b : Batch) (i : Nat) (prevHash : Str) (input : EntryInput) : Entry :=
  { tenantID := b.tenantID, journalID := b.journalID, seq := b.nextSeq + i, entryID := b.newID i, type := input.type,
    schemaVersion := input.schemaVersion, status := input.status, occurredAt := input.occurredAt.getD b.observedAt,
    observedAt := b.observedAt, actor := b.actor input.actor, source := b.writer.source,
    parentEntryID := input.parentEntryID, correlationID := input.correlationID, subjects := some input.subjects,
    summary := input.summary, artifactRefs := none, prevHash, entryHash := [] }

def Batch.entries (b : Batch) (i : Nat) (prevHash : Str) (inputs : List EntryInput)
    : Except InputError (List Entry) :=
  match inputs with
  | [] => .ok []
  | input :: inputs => do
    let hash ← entryHash host (b.entry i prevHash input)
    let rest ← Batch.entries b (i + 1) hash inputs
    pure ({ b.entry i prevHash input with entryHash := hash } :: rest)

def subjectsText (subjects : Option (List Str)) : Str :=
  Json.write ((subjects.map fun subjects => Json.arr (subjects.map .str)).getD .null)

def artifactRefsText (refs : Option (List ArtifactRef)) : Str :=
  Json.write ((refs.map fun refs => Json.arr (refs.map ArtifactRef.json)).getD .null)

def entryRow (e : Entry) : EntryRow :=
  { tenantID := e.tenantID, journalID := e.journalID, seq := e.seq, entryID := e.entryID, type := e.type,
    schemaVersion := e.schemaVersion, status := nullStr e.status, occurredAt := e.occurredAt,
    observedAt := e.observedAt, actorType := nullStr e.actor.type, actorID := nullStr e.actor.id, source := e.source,
    parentEntryID := nullStr e.parentEntryID, correlationID := nullStr e.correlationID,
    subjects := nullJSON (subjectsText e.subjects), summary := nullJSON e.summary,
    artifactRefs := nullJSON (artifactRefsText e.artifactRefs), prevHash := e.prevHash, entryHash := e.entryHash }

def insertSubjectTx (e : Entry) (raw : Str) : Tx Unit := do
  let (subjectType, subjectID) ← input (parseSubject host raw)
  let db ← get
  let row : SubjectRow :=
    ⟨e.tenantID, subjectType, subjectHash host subjectType subjectID, subjectID, e.observedAt, e.journalID, e.seq⟩
  require (∀ s ∈ db.subjects, ¬ (s.tenantID = row.tenantID ∧ s.type = row.type ∧ s.hash = row.hash
    ∧ s.observedAt = row.observedAt ∧ s.journalID = row.journalID ∧ s.seq = row.seq)) .driver
  set { db with subjects := db.subjects ++ [row] }

def insertJournalEntryTx (e : Entry) : Tx Unit := do
  let db ← get
  require (∀ r ∈ db.entries, r.tenantID = e.tenantID
    → ¬ (r.journalID = e.journalID ∧ r.seq = e.seq) ∧ r.entryID ≠ e.entryID) .driver
  set { db with entries := db.entries ++ [entryRow e] }
  (e.subjects.getD []).forM (insertSubjectTx host e)

def checkSource (effectiveSource : Str) (input : EntryInput) : Except Error Unit := do
  ensure (¬ (effectiveSource = sourceSelf ∧ input.source ≠ sourceSelf)) (.trustedWriterRequired input.source)
  ensure (¬ (input.source ≠ sourceSelf ∧ input.source ≠ effectiveSource))
    (.sourceMismatch input.source effectiveSource)

def normalizeEntry (effectiveSource : Str) (entry : EntryInput) : Except Error EntryInput := do
  let n ← wrap (normalizeEntryInput host entry [] [])
  checkSource effectiveSource n
  pure n

def effectiveWriter (writer : JournalWriter) : JournalWriter :=
  { type := if writer.type = [] then "api_key".toList else writer.type,
    id := if writer.id = [] then "unknown".toList else writer.id,
    source := if trimSpace writer.source = [] then sourceSelf else trimSpace writer.source }

structure AppendRequest where
  tenantID : Str
  journalID : Str
  appendID : Str
  writer : JournalWriter
  entries : List EntryInput

def prepareAppend (req : AppendRequest) : Except Error (List EntryInput × Str) := do
  ensure (req.tenantID ≠ [] ∧ req.journalID ≠ []) .tenantRequired
  wrap (validateJournalID req.journalID)
  ensure (req.appendID ≠ []) .idempotencyKeyRequired
  wrap (validateAppendID req.appendID)
  ensure (req.entries ≠ []) .entryRequired
  wrap (check (req.entries.length ≤ maxEntriesPerBatch) (.tooManyEntries req.entries.length))
  wrap (validateSource (effectiveWriter req.writer).source)
  let normalized ← req.entries.mapM (normalizeEntry host (effectiveWriter req.writer).source)
  wrap (validateAppendBatch normalized)
  let hash ← wrap (requestHash host normalized)
  pure (normalized, hash)

def journalActor (row : JournalRow) : Actor := ⟨row.actorType.getD [], row.actorID.getD []⟩

def insertEntriesTx (req : AppendRequest) (row : JournalRow) (requestHash : Str) (observedAt : Time)
    (inserted : List Entry) : Tx AppendResponse := do
  let writer := effectiveWriter req.writer
  let firstSeq := (inserted.head?.map (·.seq)).getD 0
  let lastSeq := (inserted.getLast?.map (·.seq)).getD 0
  let headHash := (inserted.getLast?.map (·.entryHash)).getD []
  modify fun db => { db with
    appendRequests := db.appendRequests.set (req.tenantID, req.journalID, req.appendID)
      ⟨requestHash, writer.type, writer.id, writer.source, firstSeq, lastSeq, inserted.length, headHash⟩ }
  inserted.forM (insertJournalEntryTx host)
  modify fun db => { db with
    journals := db.journals.set (req.tenantID, req.journalID)
      { row with nextSeq := lastSeq + 1, headHash, updatedAt := observedAt } }
  pure ⟨req.journalID, req.appendID, firstSeq, lastSeq, inserted.length, headHash, false⟩

def repeatAppendTx (req : AppendRequest) (requestHash : Str) (existing : AppendRequestRow)
    : Tx AppendResponse := do
  let writer := effectiveWriter req.writer
  require (existing.requestHash = requestHash ∧ existing.writerType = writer.type ∧ existing.writerID = writer.id
    ∧ existing.effectiveSource = writer.source) .idempotencyConflict
  pure (existing.response req.journalID req.appendID)

def newAppendTx (env : Env) (req : AppendRequest) (row : JournalRow) (normalized : List EntryInput)
    (requestHash : Str)
    : Tx AppendResponse := do
  let observedAt := normalizeTime env.now
  let batch : Batch :=
    ⟨req.tenantID, req.journalID, row.nextSeq, observedAt, journalActor row, effectiveWriter req.writer, env.newID⟩
  let inserted ← input (batch.entries host 0 row.headHash normalized)
  insertEntriesTx host req row requestHash observedAt inserted

def appendToJournalTx (env : Env) (req : AppendRequest) (row : JournalRow)
    (normalized : List EntryInput)
    (requestHash : Str) : Tx AppendResponse := do
  require (row.closedAt = none) .closed
  match (← get).appendRequests.get? (req.tenantID, req.journalID, req.appendID) with
  | some existing => repeatAppendTx req requestHash existing
  | none => newAppendTx host env req row normalized requestHash

def appendJournalEntries (env : Env) (req : AppendRequest) : Tx AppendResponse := do
  let (normalized, requestHash) ← outside (prepareAppend host req)
  require (env.fault = false) .driver
  match (← get).journals.get? (req.tenantID, req.journalID) with
  | none => throw .notFound
  | some row => appendToJournalTx host env req row normalized requestHash

end Journal
