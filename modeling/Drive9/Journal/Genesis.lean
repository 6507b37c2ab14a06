import Drive9.Journal.Chained
import Drive9.Journal.Normal

/-!
This module contains the genesis document of a journal: what is stored of it, and what its hash is
when it is computed again.
-/

namespace Journal

open List Json

variable {host : Host}

theorem hashCanonical_inj (hsha : Function.Injective host.sha256)
    : hashCanonical host a = hashCanonical host b ↔ Json.canon a = Json.canon b := by
  unfold hashCanonical
  rw [append_cancel_left_eq, hsha.eq_iff, write_injective.eq_iff]

-- As the column gives them back, the numbers are spelled as before once they have been doubles.
def Plain (column : JsonColumn) (doc : Json) : Prop :=
  ∀ n ∈ doc.numbers, (column.spell n).inRange = true ∧ (column.spell n).respell = n

variable {column : JsonColumn}

instance (doc : Json) : Decidable (Plain column doc) :=
  inferInstanceAs (Decidable (∀ n ∈ doc.numbers, _))

def genesisHashAgain (host : Host) (row : JournalRow) : Except InputError Str :=
  (unmarshalAny (host.column.read row.genesis)).map (hashCanonical host)

theorem genesisHashAgain_ok {hash : Str} (h : genesisHashAgain host row = .ok hash)
    : ∃ doc, Json.parse (host.column.read row.genesis) = some doc
      ∧ (∀ n ∈ doc.numbers, n.inRange = true)
      ∧ hash = hashCanonical host (doc.mapNumbers Json.Number.respell) := by
  unfold genesisHashAgain unmarshalAny at h
  split at h
  . cases h
  . next doc hdoc =>
    split at h
    . next hall =>
      cases h
      exact ⟨doc, hdoc, all_eq_true.mp hall, rfl⟩
    . cases h

structure Genesis (host : Host) (doc : Json) (row : JournalRow) : Prop where
  text : row.genesis = Json.write (Json.canon doc)
  hash : row.genesisHash = hashCanonical host doc

theorem Genesis.parse (h : Genesis host doc row)
    : ∃ doc', Json.parse (host.column.read row.genesis) = some doc'
      ∧ Json.canon doc' = (Json.canon doc).mapNumbers host.column.spell
      ∧ doc'.numbers ⊆ (Json.canon doc').numbers := by
  rw [h.text]
  exact host.column.read_write doc

theorem Genesis.again (h : Genesis host doc row) (hplain : Plain host.column (Json.canon doc))
    : genesisHashAgain host row = .ok row.genesisHash := by
  obtain ⟨doc', hparse, hcanon, hsub⟩ := h.parse
  have hall : doc'.numbers.all Json.Number.inRange = true := by
    rw [all_eq_true]
    intro n hn
    have hmem := hsub hn
    rw [hcanon, numbers_mapNumbers] at hmem
    obtain ⟨m, hm, rfl⟩ := mem_map.mp hmem
    exact (hplain m hm).1
  have hsame : Json.canon (doc'.mapNumbers Json.Number.respell) = Json.canon doc := by
    rw [canon_mapNumbers, hcanon, mapNumbers_mapNumbers, mapNumbers_eq_self_iff]
    exact fun n hn => (hplain n hn).2
  unfold genesisHashAgain unmarshalAny
  rw [hparse]
  dsimp only
  rw [if_pos hall, h.hash]
  unfold Except.map hashCanonical
  dsimp only
  rw [hsame]

theorem Genesis.plain (hsha : Function.Injective host.sha256) (h : Genesis host doc row)
    (hagain : genesisHashAgain host row = .ok row.genesisHash)
    : Plain host.column (Json.canon doc) := by
  obtain ⟨doc', hdoc', hrange, hhash⟩ := genesisHashAgain_ok hagain
  obtain ⟨doc'', hparse, hcanon, _⟩ := h.parse
  obtain rfl := Option.some.inj (hparse.symm.trans hdoc')
  rw [h.hash, hashCanonical_inj hsha, canon_mapNumbers, hcanon, mapNumbers_mapNumbers, eq_comm,
    mapNumbers_eq_self_iff] at hhash
  intro n hn
  refine ⟨hrange _ (numbers_canon_subset doc'' ?_), hhash n hn⟩
  rw [hcanon, numbers_mapNumbers]
  exact mem_map_of_mem hn

section Document

variable {tenantID : Str} {req : CreateRequest} {now : Time} {doc : Json}

theorem numbers_actor (actor : Actor) : actor.json.numbers = [] := by
  unfold Actor.json omitEmpty
  split
  all_goals split
  all_goals rfl

theorem numbers_labelsJson (labels) : (labelsJson labels).numbers = [] := by
  have hitems : Json.itemNumbers (labels.map Label.json) = [] := by
    induction labels with
    | nil => rfl
    | cons l labels ih =>
      rw [map_cons, Json.itemNumbers, ih]
      rfl
  unfold labelsJson
  split
  . rfl
  . exact hitems

theorem numbers_metaJson (labels) : (metaJson labels).numbers = [] := by
  have hmembers : Json.memberNumbers (labels.map fun l => (l.key, Json.str l.value)) = [] := by
    induction labels with
    | nil => rfl
    | cons l labels ih =>
      rw [map_cons, Json.memberNumbers, ih]
      rfl
  unfold metaJson
  split
  . rfl
  . exact hmembers

theorem numbers_canon_eq_nil (h : doc.numbers = []) : (Json.canon doc).numbers = [] :=
  eq_nil_of_subset_nil (h ▸ numbers_canon_subset doc)

theorem genesisDocument_ok (h : genesisDocument tenantID req now = .ok doc)
    : ∃ retention, rawValue req.retention = .ok retention
      ∧ Json.canon doc = .obj [("actor".toList, Json.canon req.actor.json),
        ("created_at".toList, .str (formatTime now)), ("journal_id".toList, .str req.journalID),
        ("kind".toList, .str req.kind), ("labels".toList, Json.canon (labelsJson req.labels)),
        ("meta".toList, Json.canon (metaJson req.meta)), ("retention".toList, Json.canon retention),
        ("source".toList, .str req.source), ("tenant_id".toList, .str tenantID), ("title".toList, .str req.title)] := by
  obtain ⟨retention, hretention, hpure⟩ := of_except_bind h
  cases hpure
  refine ⟨retention, hretention, ?_⟩
  rw [canon_obj]
  . rfl
  . unfold Json.Ordered
    simp only [map_cons, map_nil]
    decide +kernel

theorem plain_genesisDocument (h : genesisDocument tenantID req now = .ok doc)
    (hretention : rawValue req.retention = .ok retention)
    : Plain column (Json.canon doc) ↔ Plain column (Json.canon retention) := by
  obtain ⟨retention', hretention', hdoc⟩ := genesisDocument_ok h
  obtain rfl := Except.ok.inj (hretention.symm.trans hretention')
  unfold Plain
  rw [hdoc]
  simp only [Json.numbers, Json.memberNumbers, numbers_canon_eq_nil (numbers_actor _),
    numbers_canon_eq_nil (numbers_labelsJson _), numbers_canon_eq_nil (numbers_metaJson _), nil_append,
    append_nil]

/--
The numbers of a retention, if there is one, are read again as they are spelled.
-/
def PlainRetention (column : JsonColumn) (retention : Str) : Prop :=
  trimSpace retention ≠ [] → ∀ doc, Json.parse retention = some doc → Plain column (Json.canon doc)

instance (retention : Str) : Decidable (PlainRetention column retention) :=
  match h : Json.parse retention with
  | none => .isTrue fun _ doc hdoc => by rw [h] at hdoc; contradiction
  | some doc =>
    decidable_of_iff (trimSpace retention ≠ [] → Plain column (Json.canon doc)) (by simp [PlainRetention, h])

theorem plain_rawValue (h : normalizeRetention raw = .ok normal)
    : ∃ retention, rawValue normal = .ok retention
      ∧ (Plain column (Json.canon retention) ↔ PlainRetention column raw) := by
  have hblank : trimSpace raw = [] → (Plain column (Json.canon .null) ↔ PlainRetention column raw) := by
    intro hraw
    constructor
    . intro _ hne
      contradiction
    . intro _ n hn
      contradiction
  unfold normalizeRetention canonicalJSONRaw at h
  split at h
  . next hraw =>
    cases h
    exact ⟨.null, rfl, hblank (by rw [hraw]; rfl)⟩
  . split at h
    . next hraw =>
      cases h
      exact ⟨.null, rfl, hblank hraw⟩
    . next hraw =>
      split at h
      . cases h
      . next doc hdoc =>
        cases h
        refine ⟨Json.canon doc, ?_, ?_⟩
        . unfold rawValue
          rw [if_neg, parse_write]
          obtain ⟨c, s, hs, _⟩ := starts_write (Json.canon doc)
          rw [hs]
          apply cons_ne_nil
        . rw [canon_canon]
          simp [PlainRetention, hraw, hdoc]

end Document

section Labels

theorem canon_label (l : Label) : Json.canon l.json = l.json := by
  unfold Label.json
  rw [canon_obj]
  . rfl
  . unfold Json.Ordered
    simp only [map_cons, map_nil]
    decide +kernel

theorem decodeLabels_labelsJson (labels)
    : decodeLabels (Json.canon (labelsJson labels)) = some labels := by
  have hitems : (labels.map Label.json).mapM decodeLabel = some labels := by
    induction labels with
    | nil => rfl
    | cons l labels ih =>
      rw [map_cons, mapM_cons, ih]
      rfl
  unfold labelsJson
  split
  . next h =>
    rw [h]
    rfl
  . have hcanon : (labels.map Label.json).map Json.canon = labels.map Label.json := by
      rw [map_map]
      exact map_congr_left fun l _ => canon_label l
    rw [canon_arr, hcanon]
    exact hitems

theorem decodeMeta_metaJson (labels)
    : ∃ decoded, decodeMeta (Json.canon (metaJson labels)) = some decoded
      ∧ ∀ l ∈ decoded, l ∈ labels := by
  unfold metaJson
  split
  . exact ⟨[], rfl, by simp⟩
  . rw [Json.canon]
    have hmembers : ∀ m ∈ Json.canonMembers (labels.map fun l => (l.key, Json.str l.value)) [],
        ∃ l ∈ labels, m = (l.key, Json.str l.value) := by
      intro m hm
      obtain ⟨m', hm', rfl⟩ := mem_canonMembers hm
      obtain ⟨l, hl, rfl⟩ := mem_map.mp hm'
      exact ⟨l, hl, rfl⟩
    generalize Json.canonMembers (labels.map fun l => (l.key, Json.str l.value)) [] = members at hmembers
    unfold decodeMeta
    dsimp only
    induction members with
    | nil => exact ⟨[], rfl, by simp⟩
    | cons m members ih =>
      rw [forall_mem_cons] at hmembers
      obtain ⟨l, hl, rfl⟩ := hmembers.1
      obtain ⟨decoded, hdecoded, hsub⟩ := ih hmembers.2
      refine ⟨l :: decoded, ?_, forall_mem_cons.mpr ⟨hl, hsub⟩⟩
      rw [mapM_cons, hdecoded]
      rfl

theorem exists_labelsFromGenesis (hl : host.Lawful)
    (hdoc : genesisDocument tenantID req now = .ok doc)
    (hlabels : req.labels = normalizeLabels host raw) (hmeta : req.meta = req.labels)
    (hvalid : validateLabels req.labels = .ok ())
    : ∃ labels, labelsFromGenesis host (Json.write (Json.canon doc)) = .ok labels := by
  obtain ⟨retention, _, hcanon⟩ := genesisDocument_ok hdoc
  obtain ⟨decoded, hdecoded, hsub⟩ := decodeMeta_metaJson req.meta
  have hgenesis : decodeGenesis (Json.canon doc) = some (decoded ++ req.labels) := by
    have hmetaMember : member "meta" (Json.canon doc) = Json.canon (metaJson req.meta) := by
      rw [hcanon]
      rfl
    have hlabelsMember : member "labels" (Json.canon doc) = Json.canon (labelsJson req.labels) := by
      rw [hcanon]
      rfl
    rw [hcanon] at hmetaMember hlabelsMember ⊢
    unfold decodeGenesis
    rw [hmetaMember, hlabelsMember, canon_canon, hdecoded, decodeLabels_labelsJson]
  have hagain : ∀ l ∈ decoded ++ req.labels, l ∈ normalizeLabels host raw := by
    rw [← hlabels, forall_mem_append]
    rw [hmeta] at hsub
    exact ⟨hsub, fun l h => h⟩
  unfold labelsFromGenesis
  rw [parse_write, Option.bind_some, hgenesis]
  dsimp only
  rw [hl.labels (hlabels ▸ hvalid) hagain]
  exact ⟨_, rfl⟩

end Labels

section Create

def journalIDOf (env : Env) (req : CreateRequest) : Str :=
  trimSpace (if req.journalID = [] then env.newID 0 else req.journalID)

theorem normalizeJournalID_ok (h : normalizeJournalID raw = .ok journalID)
    : journalID = trimSpace raw ∧ (journalID ≠ [] → validateJournalID journalID = .ok ()) := by
  unfold normalizeJournalID at h
  split at h
  . next hraw =>
    cases h
    exact ⟨hraw.symm, fun h => absurd rfl h⟩
  . obtain ⟨_, hvalid, hpure⟩ := of_except_bind h
    cases hpure
    exact ⟨rfl, fun _ => hvalid⟩

theorem normalizeCreateRequest_ok (h : normalizeCreateRequest host req = .ok n)
    : normalizeJournalID req.journalID = .ok n.journalID
      ∧ n.labels = normalizeLabels host (req.meta ++ req.labels)
      ∧ n.meta = n.labels
      ∧ normalizeRetention req.retention = .ok n.retention := by
  obtain ⟨_, hid, h1⟩ := of_except_bind h
  obtain ⟨_, _, h2⟩ := of_except_bind h1
  obtain ⟨_, _, h3⟩ := of_except_bind h2
  obtain ⟨_, _, h4⟩ := of_except_bind h3
  obtain ⟨_, hretention, h5⟩ := of_except_bind h4
  cases h5
  exact ⟨hid, rfl, rfl, hretention⟩

structure Founded (host : Host) (req : CreateRequest) (row : JournalRow) (doc : Json) : Prop where
  genesis : Genesis host doc row
  plain : Plain host.column (Json.canon doc) ↔ PlainRetention host.column req.retention
  keys : "prev_hash".toList ∉ (Json.canon doc).keys
  labels : host.Lawful → ∃ labels, labelsFromGenesis host row.genesis = .ok labels

theorem Founded.row {row row' : JournalRow} (h : Founded host req row doc)
    (hgenesis : row'.genesis = row.genesis) (hhash : row'.genesisHash = row.genesisHash)
    : Founded host req row' doc :=
  ⟨⟨hgenesis.trans h.genesis.text, hhash.trans h.genesis.hash⟩, h.plain, h.keys, hgenesis ▸ h.labels⟩

variable {env : Env} {tenantID : Str} {req req' : CreateRequest} {row : JournalRow}

section

variable (h : prepareCreate host env tenantID req = .ok (req', row))

include h

theorem prepareCreate_journalID
    : req'.journalID = journalIDOf env req
      ∧ (req'.journalID ≠ [] → validateJournalID req'.journalID = .ok ()) := by
  obtain ⟨hid, _⟩ := normalizeCreateRequest_ok (prepareCreate_ok h).normalized
  exact normalizeJournalID_ok hid

theorem prepareCreate_founded : ∃ doc, Founded host req row doc := by
  have hp := prepareCreate_ok h
  obtain ⟨_, hlabels, hmeta, hretention⟩ := normalizeCreateRequest_ok hp.normalized
  obtain ⟨createHash, doc, hdoc, rfl⟩ := hp.row
  obtain ⟨retention, hraw, hplain⟩ := plain_rawValue hretention
  refine ⟨doc, ⟨rfl, rfl⟩, ?_, ?_, ?_⟩
  . rw [plain_genesisDocument hdoc hraw, hplain]
  . obtain ⟨_, _, hcanon⟩ := genesisDocument_ok hdoc
    rw [hcanon]
    unfold Json.keys
    simp only [map_cons, map_nil]
    decide +kernel
  . intro hl
    exact exists_labelsFromGenesis hl hdoc hlabels hmeta hp.labels

end

end Create

end Journal
