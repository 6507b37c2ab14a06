import Drive9.Datastore.Path
import Drive9.Lib.Json.Canonical
import Drive9.Lib.Json.Double

/-!
This module contains `pkg/journal`: the normalization of requests, the canonical documents and their
hashes.
-/

namespace Journal

open Json (Number)

/--
A column of type `JSON`: it gives back the value that was stored, with its numbers in a spelling of
its own.
-/
structure JsonColumn where
  read : Str → Str
  spell : Number → Number
  read_write : ∀ doc, ∃ doc', Json.parse (read (Json.write (Json.canon doc))) = some doc'
    ∧ Json.canon doc' = (Json.canon doc).mapNumbers spell ∧ doc'.numbers ⊆ (Json.canon doc').numbers

-- Every text comes back byte for byte.
def JsonColumn.exact : JsonColumn where
  read := id
  spell := id
  read_write doc := by
    refine ⟨Json.canon doc, Json.parse_write _, ?_,
      by rw [Json.canon_canon]; exact List.Subset.refl _⟩
    rw [Json.canon_canon, eq_comm, Json.mapNumbers_eq_self_iff]
    exact fun _ _ => rfl

structure Host where
  nfc : Str → Str
  toLower : Str → Str
  sha256 : Str → Str
  column : JsonColumn

inductive InputError where
  | invalidJournalID (id : Str)
  | invalidAppendID (id : Str)
  | sourceNotAllowed (source : Str)
  | invalidKind (kind : Str)
  | invalidSource (source : Str)
  | entryTypeRequired
  | invalidEntryType (entryType : Str)
  | invalidStatus (status : Str)
  | artifactsNotSupported
  | invalidSubject (raw : Str)
  | invalidSubjectType (subjectType : Str)
  | subjectTooLarge (size : Nat)
  | tooManySubjects (count : Nat)
  | invalidJSON
  | summaryTooLarge (size : Nat)
  | invalidLabelKey (key : Str)
  | labelValueTooLarge (key : Str) (size : Nat)
  | tooManyLabels (count : Nat)
  | tooManyEntries (count : Nat)
  | batchTooLarge (size : Nat)
  | invalidTime
  deriving DecidableEq

def InputError.payloadTooLarge : InputError → Bool
  | subjectTooLarge _ => true
  | tooManySubjects _ => true
  | summaryTooLarge _ => true
  | labelValueTooLarge _ _ => true
  | tooManyLabels _ => true
  | tooManyEntries _ => true
  | batchTooLarge _ => true
  | _ => false

def defaultKind : Str := "agent".toList
def sourceGateway : Str := "gateway_observed".toList
def sourceServer : Str := "server_observed".toList
def sourceSelf : Str := "self_reported".toList
def sourceImported : Str := "imported".toList
def defaultSource : Str := sourceSelf
def maxLimit : Nat := 1000
def maxEntriesPerBatch : Nat := 500
def maxBatchBytes : Nat := 4 * 1024 * 1024
def maxInlineSummaryBytes : Nat := 64 * 1024
def maxSubjectsPerEntry : Nat := 64
def maxSubjectValueBytes : Nat := 8 * 1024
def maxLabelsPerJournal : Nat := 64
def maxLabelValueBytes : Nat := 4 * 1024

structure Time where
  year : Nat
  month : Nat
  day : Nat
  hour : Nat
  minute : Nat
  second : Nat
  nanosecond : Nat
  deriving DecidableEq

def normalizeTime (t : Time) : Time := { t with nanosecond := t.nanosecond / 1000000 * 1000000 }

def dateText (t : Time) : Str :=
  Decimal.padded 4 t.year ++ '-' :: (Decimal.padded 2 t.month ++ '-' :: (Decimal.padded 2 t.day ++ 'T' ::
    (Decimal.padded 2 t.hour ++ ':' :: (Decimal.padded 2 t.minute ++ ':' :: Decimal.padded 2 t.second))))

def formatTime (t : Time) : Str :=
  dateText (normalizeTime t) ++ '.' :: (Decimal.padded 3 ((normalizeTime t).nanosecond / 1000000) ++ ['Z'])

def jsonTime (t : Time) : Str :=
  dateText t ++ (if t.nanosecond = 0 then [] else '.' :: (Decimal.padded 9 t.nanosecond).rdropWhile (· = '0')) ++ ['Z']

structure Actor where
  type : Str
  id : Str

structure Label where
  key : Str
  value : Str
  deriving DecidableEq

structure ArtifactRef where
  name : Str
  hash : Str
  contentType : Str
  sizeBytes : Int

structure CreateRequest where
  journalID : Str
  kind : Str
  title : Str
  actor : Actor
  source : Str
  «meta» : List Label
  labels : List Label
  retention : Str

structure EntryInput where
  type : Str
  schemaVersion : Int
  status : Str
  occurredAt : Option Time
  actor : Actor
  source : Str
  parentEntryID : Str
  correlationID : Str
  subjects : List Str
  summary : Str
  artifacts : List ArtifactRef
  artifactRefs : List ArtifactRef

structure Entry where
  tenantID : Str
  journalID : Str
  seq : Int
  entryID : Str
  type : Str
  schemaVersion : Int
  status : Str
  occurredAt : Time
  observedAt : Time
  actor : Actor
  source : Str
  parentEntryID : Str
  correlationID : Str
  subjects : Option (List Str)
  summary : Str
  artifactRefs : Option (List ArtifactRef)
  prevHash : Str
  entryHash : Str

def isSpace (c : Char) : Bool :=
  c ∈ ['\t', '\n', '\x0b', '\x0c', '\r', ' ', '\u0085', '\u00a0', '\u1680', '\u2028', '\u2029', '\u202f',
    '\u205f', '\u3000'] || (0x2000 ≤ c.toNat && c.toNat ≤ 0x200a)

def trimSpace (s : Str) : Str := (s.dropWhile isSpace).rdropWhile isSpace

def utf8Len (s : Str) : Nat := (s.map Char.utf8Size).sum

def fits (first rest : Char → Bool) (max : Nat) (s : Str) : Bool :=
  match s with
  | [] => false
  | c :: cs => first c && cs.all rest && decide (cs.length ≤ max)

def lowerChar (c : Char) : Bool := 'a' ≤ c && c ≤ 'z'

def wordChar (c : Char) : Bool := lowerChar c || c.isDigit || c = '_' || c = '.' || c = '-'

def idChar (c : Char) : Bool := wordChar c || ('A' ≤ c && c ≤ 'Z')

def appendIDChar (c : Char) : Bool := idChar c || c = ':'

def labelKeyPattern : Str → Bool := fits lowerChar wordChar 127
def subjectTypePattern : Str → Bool := fits lowerChar wordChar 63
def entryTypePattern : Str → Bool := fits lowerChar wordChar 127
def statusPattern : Str → Bool := fits lowerChar wordChar 63
def journalIDPattern : Str → Bool := fits idChar idChar 127
def appendIDPattern : Str → Bool := fits appendIDChar appendIDChar 127

def check (c : Bool) (err : InputError) : Except InputError Unit := if c then .ok () else .error err

def validateJournalID (id : Str) : Except InputError Unit :=
  check (journalIDPattern id && decide ('/' ∉ id)) (.invalidJournalID id)

def validateAppendID (id : Str) : Except InputError Unit :=
  check (appendIDPattern id && decide ('/' ∉ id)) (.invalidAppendID id)

def validateKind (kind : Str) : Except InputError Unit :=
  check (statusPattern kind) (.invalidKind kind)

def validateEntryType (entryType : Str) : Except InputError Unit :=
  check (entryTypePattern entryType) (.invalidEntryType entryType)

def validateStatus (status : Str) : Except InputError Unit :=
  check (statusPattern status) (.invalidStatus status)

def validateSource (source : Str) : Except InputError Unit :=
  check (source ∈ [sourceSelf, sourceGateway, sourceServer, sourceImported]) (.invalidSource source)

def dedupe (key : α → Str) (seen : List Str) (l : List α) : List α :=
  match l with
  | [] => []
  | a :: l => if key a ∈ seen then dedupe key seen l else a :: dedupe key (key a :: seen) l

def canonicalJSONRaw (raw : Str) : Except InputError Str :=
  if trimSpace raw = [] then
    .ok []
  else
    match Json.parse raw with
    | none => .error .invalidJSON
    | some v => .ok (Json.write (Json.canon v))

def rawValue (raw : Str) : Except InputError Json :=
  if raw = [] then
    .ok .null
  else
    match Json.parse raw with
    | none => .error .invalidJSON
    | some v => .ok v

section Host

variable (host : Host)

def normalizeDefault (value default : Str) : Str :=
  if trimSpace value = [] then default else host.toLower (trimSpace value)

def normalizeLabel (label : Label) : Label :=
  ⟨host.toLower (trimSpace label.key), host.nfc (trimSpace label.value)⟩

def normalizeLabels (labels : List Label) : List Label :=
  (dedupe (fun l => l.key ++ '\x00' :: l.value) [] (labels.map (normalizeLabel host))).insertionSort
    fun a b => if a.key = b.key then a.value ≤ b.value else a.key < b.key

def validateLabel (label : Label) : Except InputError Unit := do
  check (labelKeyPattern label.key) (.invalidLabelKey label.key)
  check (utf8Len label.value ≤ maxLabelValueBytes) (.labelValueTooLarge label.key (utf8Len label.value))

def validateLabels (labels : List Label) : Except InputError Unit := do
  check (labels.length ≤ maxLabelsPerJournal) (.tooManyLabels labels.length)
  labels.forM validateLabel

def labelHash (key value : Str) : Str := "sha256:".toList ++ host.sha256 (key ++ '\x00' :: value)

def normalizeJournalID (journalID : Str) : Except InputError Str :=
  if trimSpace journalID = [] then
    .ok []
  else do
    validateJournalID (trimSpace journalID)
    pure (trimSpace journalID)

def normalizeRetention (retention : Str) : Except InputError Str :=
  if retention = [] then .ok [] else canonicalJSONRaw retention

def normalizeCreateRequest (req : CreateRequest) : Except InputError CreateRequest := do
  let journalID ← normalizeJournalID req.journalID
  let kind := normalizeDefault host req.kind defaultKind
  let source := normalizeDefault host req.source defaultSource
  check (source = sourceSelf) (.sourceNotAllowed source)
  validateKind kind
  validateSource source
  let labels := normalizeLabels host (req.meta ++ req.labels)
  let retention ← normalizeRetention req.retention
  pure { journalID, kind, title := trimSpace req.title, actor := ⟨trimSpace req.actor.type, trimSpace req.actor.id⟩,
         source, «meta» := labels, labels, retention }

def parseSubject (raw : Str) : Except InputError (Str × Str) := do
  let raw := trimSpace raw
  let subjectType := raw.takeWhile (· ≠ ':')
  let subjectID := (raw.dropWhile (· ≠ ':')).drop 1
  check (subjectType ≠ [] ∧ subjectID ≠ []) (.invalidSubject raw)
  let subjectType := host.toLower (trimSpace subjectType)
  let subjectID := host.nfc (trimSpace subjectID)
  check (subjectTypePattern subjectType) (.invalidSubjectType subjectType)
  check (utf8Len subjectID ≤ maxSubjectValueBytes) (.subjectTooLarge (utf8Len subjectID))
  pure (subjectType, subjectID)

def normalizeSubject (raw : Str) : Except InputError Str :=
  (parseSubject host raw).map fun (subjectType, subjectID) => subjectType ++ ':' :: subjectID

def normalizeSubjects (subjects : List Str) : Except InputError (List Str) :=
  (subjects.mapM (normalizeSubject host)).map fun subjects => (dedupe id [] subjects).insertionSort (· ≤ ·)

def subjectHash (subjectType subjectID : Str) : Str :=
  "sha256:".toList ++ host.sha256 (subjectType ++ '\x00' :: subjectID)

def normalizeStatus (status : Str) : Except InputError Str :=
  if status = [] then
    .ok []
  else do
    validateStatus (trimSpace (host.toLower status))
    pure (trimSpace (host.toLower status))

def normalizeSummary (summary : Str) : Except InputError Str :=
  if summary = [] then
    .ok []
  else do
    let summary ← canonicalJSONRaw summary
    check (utf8Len summary ≤ maxInlineSummaryBytes) (.summaryTooLarge (utf8Len summary))
    pure summary

def normalizeEntryInput (input : EntryInput) (defaultType : Str) (defaultSubjects : List Str)
    : Except InputError EntryInput := do
  let type := normalizeDefault host input.type defaultType
  check (type ≠ []) .entryTypeRequired
  validateEntryType type
  let status ← normalizeStatus host input.status
  let source := normalizeDefault host input.source sourceSelf
  validateSource source
  check (input.artifacts = [] ∧ input.artifactRefs = []) .artifactsNotSupported
  let subjects ← normalizeSubjects host (defaultSubjects ++ input.subjects)
  check (subjects.length ≤ maxSubjectsPerEntry) (.tooManySubjects subjects.length)
  let summary ← normalizeSummary input.summary
  pure { type, schemaVersion := if input.schemaVersion ≤ 0 then 1 else input.schemaVersion, status,
         occurredAt := input.occurredAt.map normalizeTime,
         actor := ⟨trimSpace input.actor.type, trimSpace input.actor.id⟩, source,
         parentEntryID := trimSpace input.parentEntryID, correlationID := trimSpace input.correlationID, subjects,
         summary, artifacts := [], artifactRefs := [] }

def hashCanonical (doc : Json) : Str :=
  "sha256:".toList ++ host.sha256 (Json.write (Json.canon doc))

end Host

def omitEmpty (key : String) (s : Str) : List (Str × Json) :=
  if s = [] then [] else [(key.toList, .str s)]

def Actor.json (actor : Actor) : Json :=
  .obj (omitEmpty "type" actor.type ++ omitEmpty "id" actor.id)

def Label.json (label : Label) : Json :=
  .obj [("key".toList, .str label.key), ("value".toList, .str label.value)]

def ArtifactRef.json (ref : ArtifactRef) : Json :=
  .obj ([("name".toList, .str ref.name), ("hash".toList, .str ref.hash)] ++ omitEmpty "content_type" ref.contentType
    ++ [("size_bytes".toList, .num (.ofInt ref.sizeBytes))])

def labelsJson (labels : List Label) : Json :=
  if labels = [] then .null else .arr (labels.map Label.json)

def metaJson (labels : List Label) : Json :=
  if labels = [] then .null else .obj (labels.map fun label => (label.key, .str label.value))

def EntryInput.json (input : EntryInput) : Except InputError Json := do
  let summary ← rawValue input.summary
  check (∀ t ∈ input.occurredAt, t.year < 10000) .invalidTime
  pure (.obj (omitEmpty "type" input.type
    ++ (if input.schemaVersion = 0 then [] else [("schema_version".toList, .num (.ofInt input.schemaVersion))])
    ++ omitEmpty "status" input.status
    ++ (input.occurredAt.toList.map fun t => ("occurred_at".toList, .str (jsonTime t)))
    ++ [("actor".toList, input.actor.json)]
    ++ omitEmpty "source" input.source
    ++ omitEmpty "parent_entry_id" input.parentEntryID
    ++ omitEmpty "correlation_id" input.correlationID
    ++ (if input.subjects = [] then [] else [("subjects".toList, .arr (input.subjects.map .str))])
    ++ (if input.summary = [] then [] else [("summary".toList, summary)])))

def entriesJson (entries : List EntryInput) : Except InputError Json :=
  (entries.mapM EntryInput.json).map .arr

def validateAppendBatch (entries : List EntryInput) : Except InputError Unit := do
  check (entries.length ≤ maxEntriesPerBatch) (.tooManyEntries entries.length)
  let doc ← entriesJson entries
  check (utf8Len (Json.write (Json.canon doc)) ≤ maxBatchBytes)
    (.batchTooLarge (utf8Len (Json.write (Json.canon doc))))

def requestHash (host : Host) (entries : List EntryInput) : Except InputError Str :=
  (entriesJson entries).map (hashCanonical host)

def createDocument (tenantID : Str) (req : CreateRequest) : Except InputError Json := do
  let retention ← rawValue req.retention
  pure (.obj [("actor".toList, req.actor.json), ("journal_id".toList, .str req.journalID),
    ("kind".toList, .str req.kind), ("labels".toList, labelsJson req.labels), ("meta".toList, metaJson req.meta),
    ("retention".toList, retention), ("source".toList, .str req.source), ("tenant_id".toList, .str tenantID),
    ("title".toList, .str req.title)])

def createHash (host : Host) (tenantID : Str) (req : CreateRequest) : Except InputError Str :=
  (createDocument tenantID req).map (hashCanonical host)

def genesisDocument (tenantID : Str) (req : CreateRequest) (createdAt : Time)
    : Except InputError Json := do
  let retention ← rawValue req.retention
  pure (.obj [("actor".toList, req.actor.json), ("created_at".toList, .str (formatTime createdAt)),
    ("journal_id".toList, .str req.journalID), ("kind".toList, .str req.kind),
    ("labels".toList, labelsJson req.labels), ("meta".toList, metaJson req.meta), ("retention".toList, retention),
    ("source".toList, .str req.source), ("tenant_id".toList, .str tenantID), ("title".toList, .str req.title)])

def Entry.document (entry : Entry) : Except InputError Json := do
  let summary ← rawValue entry.summary
  pure (.obj [("actor_id".toList, .str entry.actor.id), ("actor_type".toList, .str entry.actor.type),
    ("artifact_refs".toList, (entry.artifactRefs.map fun refs => Json.arr (refs.map ArtifactRef.json)).getD .null),
    ("correlation_id".toList, .str entry.correlationID), ("entry_id".toList, .str entry.entryID),
    ("journal_id".toList, .str entry.journalID), ("observed_at".toList, .str (formatTime entry.observedAt)),
    ("occurred_at".toList, .str (formatTime entry.occurredAt)), ("parent_entry_id".toList, .str entry.parentEntryID),
    ("prev_hash".toList, .str entry.prevHash), ("schema_version".toList, .num (.ofInt entry.schemaVersion)),
    ("seq".toList, .num (.ofInt entry.seq)), ("source".toList, .str entry.source),
    ("status".toList, .str entry.status),
    ("subjects".toList, (entry.subjects.map fun subjects => Json.arr (subjects.map .str)).getD .null),
    ("summary".toList, summary), ("tenant_id".toList, .str entry.tenantID), ("type".toList, .str entry.type)])

def entryHash (host : Host) (entry : Entry) : Except InputError Str :=
  entry.document.map (hashCanonical host)

end Journal
