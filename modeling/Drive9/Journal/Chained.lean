import Drive9.Journal.Lemmas
import Drive9.Lib.HashChain
import Drive9.Lib.Lts

/-!
This module contains the invariant of a journal: its entries are numbered from 1 on and form a hash
chain from the genesis hash to the head hash.
-/

namespace Journal

open List Option FMap

open HashChain (Linked)

variable {host : Host}

section Scan

theorem normalizeTime_normalizeTime (t) : normalizeTime (normalizeTime t) = normalizeTime t := by
  unfold normalizeTime
  simp

theorem getD_nullStr (s) : (nullStr s).getD [] = s := by
  unfold nullStr
  split
  . next h =>
    rw [h]
    rfl
  . rfl

theorem map_stringItem (subjects : List Str)
    : (subjects.map Json.str).map stringItem = subjects := by
  rw [List.map_map]
  exact map_id subjects

theorem nullJSON_arr (items)
    : nullJSON (Json.write (.arr items)) = some (Json.write (.arr items)) := by
  unfold nullJSON
  rw [if_neg]
  rintro (h | h)
  . obtain ⟨c, s, hs, _⟩ := Json.starts_write (.arr items)
    rw [hs] at h
    contradiction
  . exact Json.noConfusion (Json.write_injective (h.trans (show _ = Json.write .null from rfl)))

def sliceJson (f : α → Json) (items : Option (List α)) : Json :=
  (items.map fun items => Json.arr (items.map f)).getD .null

variable {e : Entry}

theorem document_ok (h : e.document = .ok doc)
    : ∃ summary, rawValue e.summary = .ok summary
      ∧ Json.canon doc = .obj [("actor_id".toList, .str e.actor.id), ("actor_type".toList, .str e.actor.type),
        ("artifact_refs".toList, Json.canon (sliceJson ArtifactRef.json e.artifactRefs)),
        ("correlation_id".toList, .str e.correlationID), ("entry_id".toList, .str e.entryID),
        ("journal_id".toList, .str e.journalID), ("observed_at".toList, .str (formatTime e.observedAt)),
        ("occurred_at".toList, .str (formatTime e.occurredAt)), ("parent_entry_id".toList, .str e.parentEntryID),
        ("prev_hash".toList, .str e.prevHash), ("schema_version".toList, .num (.ofInt e.schemaVersion)),
        ("seq".toList, .num (.ofInt e.seq)), ("source".toList, .str e.source), ("status".toList, .str e.status),
        ("subjects".toList, Json.canon (sliceJson .str e.subjects)), ("summary".toList, Json.canon summary),
        ("tenant_id".toList, .str e.tenantID), ("type".toList, .str e.type)] := by
  obtain ⟨summary, hsummary, hpure⟩ := of_except_bind h
  cases hpure
  refine ⟨summary, hsummary, ?_⟩
  rw [Json.canon_obj]
  . rfl
  . unfold Json.Ordered
    simp only [map_cons, map_nil]
    decide +kernel

theorem entryHash_ok {hash : Str} (h : entryHash host e = .ok hash)
    : ∃ doc, e.document = .ok doc ∧ hash = hashCanonical host doc := by
  unfold entryHash at h
  cases hdoc : e.document with
  | error err =>
    rw [hdoc] at h
    cases h
  | ok doc =>
    rw [hdoc] at h
    cases h
    exact ⟨doc, rfl, rfl⟩

section Column

variable {column : JsonColumn}

/--
The numbers of a text come back as they are spelled.
-/
def JsonColumn.Keeps (column : JsonColumn) (raw : Str) : Prop :=
  ∀ doc, Json.parse raw = some doc → ∀ n ∈ (Json.canon doc).numbers, column.spell n = n

instance (raw : Str) : Decidable (column.Keeps raw) :=
  match h : Json.parse raw with
  | none => .isTrue fun doc hdoc => by rw [h] at hdoc; contradiction
  | some doc =>
    decidable_of_iff (∀ n ∈ (Json.canon doc).numbers, column.spell n = n) (by simp [JsonColumn.Keeps, h])

theorem decodeStrings_read (subjects : List Str)
    : decodeStrings (column.read (Json.write (.arr (subjects.map .str)))) = some subjects := by
  have hcanon : Json.canon (.arr (subjects.map .str)) = .arr (subjects.map .str) := by
    rw [Json.canon_arr, List.map_map]
    rfl
  have hplain : (Json.arr (subjects.map .str)).mapNumbers column.spell
      = .arr (subjects.map .str) := by
    rw [Json.mapNumbers, Json.mapItems_eq_map, List.map_map]
    rfl
  obtain ⟨doc', hparse, hdoc', _⟩ := column.read_write (.arr (subjects.map .str))
  rw [hcanon] at hparse hdoc'
  rw [hplain] at hdoc'
  unfold decodeStrings
  rw [hparse]
  cases doc' with
  | arr items =>
    have hitems : (items.map Json.canon).map stringItem = items.map stringItem := by
      rw [List.map_map]
      apply map_congr_left
      intro item _
      cases item with
      | null | bool b | num n | str s | arr items | obj members => rfl
    rw [Json.canon_arr, Json.arr.injEq] at hdoc'
    dsimp only
    rw [← hitems, hdoc', map_stringItem]
  | null | bool b | num n | str s | obj members => contradiction

theorem rawValue_read (h : normalizeSummary raw = .ok s) (hkeeps : column.Keeps raw)
    (hvalue : rawValue s = .ok doc)
    : ∃ doc', rawValue (((nullJSON s).map column.read).getD []) = .ok doc'
      ∧ Json.canon doc' = Json.canon doc := by
  have hnull : s = [] ∨ s = "null".toList → _ := fun hs =>
    have hdoc : doc = .null := by
      cases hs with
      | inl hs | inr hs =>
        rw [hs] at hvalue
        exact (Except.ok.inj hvalue).symm
    show ∃ doc', rawValue (((nullJSON s).map column.read).getD []) = .ok doc' ∧ Json.canon doc' = Json.canon doc by
      unfold nullJSON
      rw [if_pos hs, hdoc]
      exact ⟨.null, rfl, rfl⟩
  unfold normalizeSummary canonicalJSONRaw at h
  split at h
  . cases h
    exact hnull (.inl rfl)
  . obtain ⟨s', hs', hrest⟩ := of_except_bind h
    obtain ⟨_, _, hpure⟩ := of_except_bind hrest
    cases hpure
    split at hs'
    . cases hs'
      exact hnull (.inl rfl)
    . split at hs'
      . cases hs'
      . next v hv =>
        cases hs'
        by_cases hs : Json.write (Json.canon v) = [] ∨ Json.write (Json.canon v) = "null".toList
        . exact hnull hs
        . obtain ⟨doc', hparse, hcanon, _⟩ := column.read_write v
          have hread : column.read (Json.write (Json.canon v)) ≠ [] := by
            intro hnil
            rw [hnil] at hparse
            contradiction
          unfold rawValue at hvalue
          rw [if_neg (not_or.mp hs).1, Json.parse_write] at hvalue
          cases hvalue
          refine ⟨doc', ?_, ?_⟩
          . unfold nullJSON
            rw [if_neg hs, map_some, getD_some]
            unfold rawValue
            rw [if_neg hread, hparse]
          . rw [hcanon, Json.canon_canon, Json.mapNumbers_eq_self_iff]
            exact hkeeps v hv

end Column

structure Entry.Built (inputs : List EntryInput) (e : Entry) : Prop where
  occurredAt : normalizeTime e.occurredAt = e.occurredAt
  observedAt : normalizeTime e.observedAt = e.observedAt
  subjects : ∃ subjects, e.subjects = some subjects
  summary : ∃ input ∈ inputs, normalizeSummary input.summary = .ok e.summary
  artifactRefs : e.artifactRefs = none

theorem Entry.Built.entryHash_read {inputs : List EntryInput} {column : JsonColumn} {hash : Str}
    (h : e.Built inputs)
    (hkeeps : ∀ input ∈ inputs, column.Keeps input.summary)
    (hhash : Journal.entryHash host e = .ok hash)
    : Journal.entryHash host (scanEntry column (entryRow e)) = .ok hash := by
  obtain ⟨subjects, hsubjects⟩ := h.subjects
  obtain ⟨input, hinput, hsummary⟩ := h.summary
  obtain ⟨doc, hdoc, rfl⟩ := entryHash_ok hhash
  obtain ⟨summary, hvalue, hcanon⟩ := document_ok hdoc
  obtain ⟨summary', hvalue', heq⟩ := rawValue_read hsummary (hkeeps input hinput) hvalue
  have hread : ((nullJSON (subjectsText e.subjects)).map column.read).bind decodeStrings
      = e.subjects := by
    rw [hsubjects]
    change ((nullJSON (Json.write (.arr (subjects.map .str)))).map column.read).bind decodeStrings = _
    rw [nullJSON_arr, map_some, bind_some, decodeStrings_read]
  have hrefs : ((nullJSON (artifactRefsText e.artifactRefs)).map column.read).bind decodeArtifactRefs
      = e.artifactRefs := by
    rw [h.artifactRefs]
    rfl
  obtain ⟨doc', hdoc'⟩ : ∃ doc', (scanEntry column (entryRow e)).document = .ok doc' := by
    unfold Entry.document scanEntry entryRow
    dsimp only
    rw [hvalue']
    exact ⟨_, rfl⟩
  obtain ⟨summary'', hvalue'', hcanon'⟩ := document_ok hdoc'
  obtain rfl : summary' = summary'' := Except.ok.inj (hvalue'.symm.trans hvalue'')
  have hsame : Json.canon doc' = Json.canon doc := by
    rw [hcanon, hcanon', heq]
    simp only [scanEntry, entryRow, getD_nullStr, h.occurredAt, h.observedAt, hread, hrefs]
  unfold Journal.entryHash hashCanonical
  rw [hdoc', ← hsame]
  rfl

end Scan

section Batch

variable {b : Batch} {raw inputs : List EntryInput} {entries : List Entry}

structure EntryInput.Normal (raw : List EntryInput) (input : EntryInput) : Prop where
  occurredAt : ∀ t ∈ input.occurredAt, normalizeTime t = t
  summary : ∃ r ∈ raw, normalizeSummary r.summary = .ok input.summary

theorem Batch.entry_built (hb : normalizeTime b.observedAt = b.observedAt) {input : EntryInput}
    (hi : input.Normal raw) (i) (prevHash hash : Str)
    : ({ b.entry i prevHash input with entryHash := hash } : Entry).Built raw where
  occurredAt := by
    change normalizeTime (input.occurredAt.getD b.observedAt) = input.occurredAt.getD b.observedAt
    cases ht : input.occurredAt with
    | none => exact hb
    | some t => exact hi.occurredAt t ht
  observedAt := hb
  subjects := ⟨_, rfl⟩
  summary := hi.summary
  artifactRefs := rfl

structure Batch.Makes (host : Host) (b : Batch) (raw : List EntryInput) (i : Nat) (prevHash : Str)
    (entries : List Entry) : Prop where
  seqs : entries.map (·.seq) = (range entries.length).map fun k => b.nextSeq + (i + k : Nat)
  linked : ∃ last, Linked (·.prevHash) (·.entryHash) prevHash entries last
  journal : ∀ e ∈ entries, e.tenantID = b.tenantID ∧ e.journalID = b.journalID
  built : ∀ e ∈ entries, e.Built raw
  hashes : ∀ e ∈ entries, entryHash host e = .ok e.entryHash

theorem Batch.entries_makes (hb : normalizeTime b.observedAt = b.observedAt)
    (hi : ∀ input ∈ inputs, input.Normal raw) (h : b.entries host i prevHash inputs = .ok entries)
    : Batch.Makes host b raw i prevHash entries := by
  induction inputs generalizing i prevHash entries with
  | nil =>
    cases h
    exact ⟨rfl, ⟨prevHash, rfl⟩, by simp, by simp, by simp⟩
  | cons input inputs ih =>
    rw [forall_mem_cons] at hi
    obtain ⟨hash, hhash, hrest⟩ := of_except_bind h
    obtain ⟨rest, hentries, hpure⟩ := of_except_bind hrest
    cases hpure
    have hmakes := ih hi.2 hentries
    obtain ⟨last, hlast⟩ := hmakes.linked
    refine ⟨?_, ⟨last, rfl, hlast⟩, ?_, ?_, ?_⟩
    . rw [map_cons, hmakes.seqs, length_cons, range_succ_eq_map, map_cons,
        List.map_map]
      congr 1
      apply map_congr_left
      intro k _
      simp only [Function.comp_apply]
      omega
    . rw [forall_mem_cons]
      exact ⟨⟨rfl, rfl⟩, hmakes.journal⟩
    . rw [forall_mem_cons]
      exact ⟨b.entry_built hb hi.1 i prevHash hash, hmakes.built⟩
    . rw [forall_mem_cons]
      exact ⟨hhash, hmakes.hashes⟩

end Batch

variable {req : AppendRequest}

section Prepare

theorem normalizeEntryInput_ok
    (h : normalizeEntryInput host entry defaultType defaultSubjects = .ok n)
    : n.occurredAt = entry.occurredAt.map normalizeTime
      ∧ normalizeSubjects host (defaultSubjects ++ entry.subjects) = .ok n.subjects
      ∧ normalizeSummary entry.summary = .ok n.summary := by
  obtain ⟨_, _, h1⟩ := of_except_bind h
  obtain ⟨_, _, h2⟩ := of_except_bind h1
  obtain ⟨_, _, h3⟩ := of_except_bind h2
  obtain ⟨_, _, h4⟩ := of_except_bind h3
  obtain ⟨_, _, h5⟩ := of_except_bind h4
  obtain ⟨_, hsubjects, h6⟩ := of_except_bind h5
  obtain ⟨_, _, h7⟩ := of_except_bind h6
  obtain ⟨_, hsummary, h8⟩ := of_except_bind h7
  cases h8
  exact ⟨rfl, hsubjects, hsummary⟩

theorem prepareAppend_normal {hash : Str} (h : prepareAppend host req = .ok (normalized, hash))
    : ∀ n ∈ normalized, n.Normal req.entries := by
  intro n hn
  obtain ⟨i, rfl⟩ := mem_iff_get.mp hn
  have hnormalized := (of_prepareAppend h).2
  have hi := i.isLt.trans_eq hnormalized.length_eq.symm
  obtain ⟨_, hwrap, hrest⟩ := of_except_bind (hnormalized.get hi i.isLt)
  obtain ⟨_, _, hpure⟩ := of_except_bind hrest
  obtain ⟨htime, _, hsummary⟩ := normalizeEntryInput_ok (of_wrap hwrap)
  rw [Except.ok.inj hpure] at htime hsummary
  refine ⟨?_, _, get_mem _ ⟨i, hi⟩, hsummary⟩
  intro t ht
  rw [htime] at ht
  obtain ⟨t', _, rfl⟩ := map_eq_some_iff.mp ht
  exact normalizeTime_normalizeTime t'

end Prepare

structure Chained (host : Host) (row : JournalRow) (rows : List EntryRow) : Prop where
  seqs : rows.map (·.seq) = (range rows.length).map fun i : Nat => (i : Int) + 1
  nextSeq : row.nextSeq = rows.length + 1
  linked : Linked (·.prevHash) (·.entryHash) row.genesisHash rows row.headHash
  -- of the texts as they were stored
  hashes : ∀ r ∈ rows, entryHash host (scanEntry .exact r) = .ok r.entryHash

structure Consistent (host : Host) (db : Db) : Prop where
  chained : ∀ tenantID journalID row, db.journals.get? (tenantID, journalID) = some row
    → Chained host row (db.entriesOf tenantID journalID)
  owned : ∀ r ∈ db.entries, (db.journals.get? (r.tenantID, r.journalID)).isSome
  opened : ∀ key row, db.journals.get? key = some row → row.closedAt = none

theorem consistent_empty : Consistent host .empty := by
  constructor
  . intro tenantID journalID row h
    contradiction
  . intro r hr
    contradiction
  . intro key row h
    contradiction

variable {row : JournalRow} {response : AppendResponse}

section Step

variable {env : Env} {db db' : Db}

variable {inserted : List Entry}

theorem Chained.append (h : Chained host row rows) (hb : b.nextSeq = row.nextSeq)
    (hne : inserted ≠ []) (hmakes : Batch.Makes host b raw 0 row.headHash inserted) (updatedAt)
    : Chained host { row with nextSeq := (inserted.getLast?.map (·.seq)).getD 0 + 1,
                              headHash := (inserted.getLast?.map (·.entryHash)).getD [],
                              updatedAt }
        (rows ++ inserted.map entryRow) := by
  obtain ⟨last, hlast⟩ := hmakes.linked
  have hseqs := hmakes.seqs
  rw [hb, h.nextSeq] at hseqs
  constructor
  case seqs =>
    have hrows : (inserted.map entryRow).map (·.seq) = inserted.map (·.seq) := by
      rw [List.map_map]
      rfl
    rw [map_append, hrows, h.seqs, hseqs, length_append, length_map, range_add,
      map_append, List.map_map]
    congr 1
    apply map_congr_left
    intro k _
    simp only [Function.comp_apply]
    omega
  case nextSeq =>
    have hlen := length_pos_of_ne_nil hne
    have hseq : (inserted.getLast?.map (·.seq)).getD 0 = rows.length + inserted.length := by
      rw [← getLast?_map, hseqs, getLast?_map, getLast?_range, if_neg (by omega)]
      simp
      omega
    dsimp only
    rw [hseq, length_append, length_map]
    omega
  case linked =>
    rw [HashChain.linked_append]
    refine ⟨row.headHash, h.linked, ?_⟩
    have heq : (inserted.getLast?.map (·.entryHash)).getD [] = last := by
      rw [hlast.last_eq]
      rw [getLast?_eq_getLast_of_ne_nil hne]
      rfl
    rw [heq]
    rw [HashChain.linked_map]
    exact hlast
  case hashes =>
    intro r hr
    cases mem_append.mp hr with
    | inl hr => exact h.hashes r hr
    | inr hr =>
      obtain ⟨e, he, rfl⟩ := mem_map.mp hr
      exact (hmakes.built e he).entryHash_read (fun _ _ _ _ _ _ => rfl) (hmakes.hashes e he)

theorem entriesOf_of_absent (hc : Consistent host db)
    (h : db.journals.get? (tenantID, journalID) = none)
    : db.entriesOf tenantID journalID = [] := by
  unfold Db.entriesOf
  rw [filter_eq_nil_iff]
  intro r hr hkey
  have hsome := hc.owned r hr
  rw [decide_eq_true_iff] at hkey
  rw [hkey.1, hkey.2, h] at hsome
  contradiction

theorem Consistent.created (hc : Consistent host db) {req : CreateRequest}
    (h : Created host env tenantID req row db db')
    : Consistent host db' := by
  obtain ⟨req', hprepare, habsent, labels, rfl⟩ := h.prepared
  obtain ⟨createHash, genesis, _, rfl⟩ := (prepareCreate_ok hprepare).row
  constructor
  . intro tenantID' journalID' row' hget
    change Chained host row' (db.entriesOf tenantID' journalID')
    rw [get?_set] at hget
    split at hget
    . next heq =>
      cases hget
      rw [Prod.mk.injEq] at heq
      rw [heq.1, heq.2, entriesOf_of_absent hc habsent]
      exact ⟨rfl, rfl, rfl, by simp⟩
    . exact hc.chained tenantID' journalID' row' hget
  . intro r hr
    rw [get?_set]
    split
    . rfl
    . exact hc.owned r hr
  . exact forall_set hc.opened rfl

section

variable (h : Appended host env req response row inserted db db')

include h

theorem Appended.makes : Batch.Makes host
    (batch env req row) req.entries 0 row.headHash inserted := by
  obtain ⟨normalized, hash, hprepare, _, hentries, _⟩ := h.prepared
  exact Batch.entries_makes (normalizeTime_normalizeTime env.now)
    (prepareAppend_normal hprepare) hentries

theorem Appended.entriesOf (tenantID journalID)
    : db'.entriesOf tenantID journalID
      = db.entriesOf tenantID journalID
        ++ if (tenantID, journalID) = (req.tenantID, req.journalID) then inserted.map entryRow else [] := by
  have hjournal := h.makes.journal
  obtain ⟨normalized, hash, _, _, _, _, rows, _, rfl⟩ := h.prepared
  refine (filter_append ..).trans ?_
  congr 1
  split
  . next heq =>
    rw [Prod.mk.injEq] at heq
    rw [filter_eq_self]
    intro r hr
    obtain ⟨e, he, rfl⟩ := mem_map.mp hr
    rw [decide_eq_true_iff, heq.1, heq.2]
    exact hjournal e he
  . next hne =>
    rw [filter_eq_nil_iff]
    intro r hr hkey
    obtain ⟨e, he, rfl⟩ := mem_map.mp hr
    rw [decide_eq_true_iff] at hkey
    apply hne
    rw [← hkey.1, ← hkey.2]
    exact Prod.ext (hjournal e he).1 (hjournal e he).2

theorem Consistent.appended (hc : Consistent host db) : Consistent host db' := by
  have hentries := h.entriesOf
  have hmakes := h.makes
  obtain ⟨normalized, hash, _, _, _, _, rows, _, rfl⟩ := h.prepared
  constructor
  . intro tenantID journalID row' hget
    rw [hentries]
    rw [get?_set] at hget
    split at hget
    . next heq =>
      cases hget
      rw [if_pos heq]
      rw [Prod.mk.injEq] at heq
      rw [heq.1, heq.2]
      exact (hc.chained _ _ row h.journal).append rfl h.nonempty hmakes _
    . next hne =>
      rw [if_neg hne, append_nil]
      exact hc.chained tenantID journalID row' hget
  . intro r hr
    rw [get?_set]
    split
    . rfl
    . next hne =>
      cases mem_append.mp hr with
      | inl hr => exact hc.owned r hr
      | inr hr =>
        obtain ⟨e, he, rfl⟩ := mem_map.mp hr
        exact absurd (Prod.ext (hmakes.journal e he).1 (hmakes.journal e he).2) hne
  . exact forall_set hc.opened (hc.opened _ row h.journal)

end

end Step

inductive Call where
  | create (env : Env) (tenantID : Str) (req : CreateRequest)
  | append (env : Env) (req : AppendRequest)

def committed (db : Db) (r : Except Error (α × Db)) : Db :=
  match r with
  | .ok (_, db') => db'
  | .error _ => db

def Call.run (host : Host) (db : Db) : Call → Db
  | create env tenantID req => committed db (createJournal host env tenantID req db)
  | append env req => committed db (appendJournalEntries host env req db)

def step (host : Host) (db : Db) (c : Call) : Option Db := some (c.run host db)

inductive Effect (host : Host) (db : Db) : Db → Prop where
  | same : Effect host db db
  | created {env tenantID req row db'} : Created host env tenantID req row db db' → Effect host db db'
  | appended {env req response row inserted db'}
    : Appended host env req response row inserted db db' → Effect host db db'

theorem Effect.of_append (h : appendJournalEntries host env req db = .ok (response, db'))
    : Effect host db db' := by
  cases appendJournalEntries_ok h with
  | inl h => exact h.same ▸ .same
  | inr h =>
    obtain ⟨row, inserted, h⟩ := h
    exact .appended h

theorem Call.create_cases (db) (env) (tenantID) (req)
    : (create env tenantID req).run host db = db
      ∨ ∃ row, Created host env tenantID req row db ((create env tenantID req).run host db) := by
  dsimp only [Call.run]
  cases h : createJournal host env tenantID req db with
  | error err => exact .inl rfl
  | ok r =>
    cases createJournal_ok h with
    | inl h => exact .inl h.1
    | inr h => exact .inr ⟨_, h⟩

theorem Call.append_cases (db) (env) (req)
    : (append env req).run host db = db
      ∨ ∃ response row inserted, Appended host env req response row inserted db ((append env req).run host db) := by
  dsimp only [Call.run]
  cases h : appendJournalEntries host env req db with
  | error err => exact .inl rfl
  | ok r =>
    cases appendJournalEntries_ok h with
    | inl h => exact .inl h.same
    | inr h =>
      obtain ⟨row, inserted, h⟩ := h
      exact .inr ⟨_, row, inserted, h⟩

theorem Call.effect (db) (c : Call) : Effect host db (c.run host db) := by
  cases c with
  | create env tenantID req =>
    cases Call.create_cases db env tenantID req with
    | inl h =>
      rw [h]
      exact .same
    | inr h =>
      obtain ⟨row, h⟩ := h
      exact .created h
  | append env req =>
    cases Call.append_cases db env req with
    | inl h =>
      rw [h]
      exact .same
    | inr h =>
      obtain ⟨response, row, inserted, h⟩ := h
      exact .appended h

theorem Consistent.effect (hc : Consistent host db) (h : Effect host db db')
    : Consistent host db' := by
  cases h with
  | same => exact hc
  | created h => exact hc.created h
  | appended h => exact hc.appended h

theorem run_invariant {inv : Db → Prop} (hinv : ∀ db db', Effect host db db' → inv db → inv db')
    (h : inv db) (hexec : Lts.exec (step host) db calls = some db')
    : inv db' := by
  induction calls generalizing db with
  | nil =>
    cases hexec
    exact h
  | cons c calls ih => exact ih (hinv db _ (c.effect db) h) hexec

theorem Consistent.run (hc : Consistent host db) (hexec : Lts.exec (step host) db calls = some db')
    : Consistent host db' :=
  run_invariant (fun _ _ h hc => hc.effect h) hc hexec

theorem Effect.journal (h : Effect host db db') (hkey : db.journals.get? key = some row)
    : ∃ row', db'.journals.get? key = some row' ∧ row'.genesis = row.genesis
      ∧ row'.genesisHash = row.genesisHash := by
  cases h with
  | same => exact ⟨row, hkey, rfl, rfl⟩
  | created h =>
    obtain ⟨req', _, habsent, labels, rfl⟩ := h.prepared
    rw [get?_set]
    split
    . next heq =>
      rw [← heq, hkey] at habsent
      contradiction
    . exact ⟨row, hkey, rfl, rfl⟩
  | appended h =>
    have hjournal := h.journal
    obtain ⟨normalized, hash, _, _, _, _, rows, _, rfl⟩ := h.prepared
    rw [get?_set]
    split
    . next heq =>
      rw [← heq, hkey] at hjournal
      cases hjournal
      exact ⟨_, rfl, rfl, rfl⟩
    . exact ⟨row, hkey, rfl, rfl⟩

theorem Effect.journal_isSome (h : Effect host db db') (hkey : (db.journals.get? key).isSome)
    : (db'.journals.get? key).isSome := by
  obtain ⟨row, hrow⟩ := isSome_iff_exists.mp hkey
  obtain ⟨row', hrow', _⟩ := h.journal hrow
  rw [hrow']
  rfl

theorem Effect.appendRequest (h : Effect host db db') (hkey : db.appendRequests.get? key = some r)
    : db'.appendRequests.get? key = some r := by
  cases h with
  | same => exact hkey
  | created h =>
    obtain ⟨req', _, _, labels, rfl⟩ := h.prepared
    exact hkey
  | appended h =>
    obtain ⟨normalized, hash, _, habsent, _, _, rows, _, rfl⟩ := h.prepared
    rw [get?_set, if_neg]
    . exact hkey
    . rintro rfl
      rw [habsent] at hkey
      contradiction

structure Recorded (host : Host) (req : AppendRequest) (response : AppendResponse)
    (db : Db) : Prop where
  journal : (db.journals.get? (req.tenantID, req.journalID)).isSome
  record : OnRecord host req { response with idempotent := true } db

theorem recorded_of_ok (h : appendJournalEntries host env req db = .ok (response, db'))
    : Recorded host req response db' := by
  cases appendJournalEntries_ok h with
  | inl h =>
    obtain ⟨row, hrow, _⟩ := h.journal
    obtain ⟨normalized, hash, existing, hprepare, hexisting, hmatch, rfl⟩ := h.prepared
    rw [h.same]
    refine ⟨by rw [hrow]; rfl, normalized, hash, existing, hprepare, hexisting, hmatch, rfl⟩
  | inr h =>
    obtain ⟨row, inserted, h⟩ := h
    obtain ⟨normalized, hash, hprepare, _, _, rfl, rows, _, rfl⟩ := h.prepared
    refine ⟨?_, normalized, hash, appendRequestRow req hash inserted, hprepare, ?_,
      ⟨rfl, rfl, rfl, rfl⟩, rfl⟩
    . rw [get?_set_self]
      rfl
    . exact get?_set_self ..

theorem Recorded.effect (h : Recorded host req response db) (he : Effect host db db')
    : Recorded host req response db' := by
  obtain ⟨normalized, hash, existing, hprepare, hexisting, hmatch, hresponse⟩ := h.record
  exact ⟨he.journal_isSome h.journal, normalized, hash, existing, hprepare,
    he.appendRequest hexisting, hmatch, hresponse⟩

theorem Recorded.repeats (h : Recorded host req response db) (hc : Consistent host db)
    (henv : env.fault = false)
    : appendJournalEntries host env req db = .ok ({ response with idempotent := true }, db) := by
  obtain ⟨row, hrow⟩ := isSome_iff_exists.mp h.journal
  obtain ⟨normalized, hash, existing, hprepare, hexisting, hmatch, hresponse⟩ := h.record
  have houtside : outside (prepareAppend host req) db = .ok ((normalized, hash), db) := by
    rw [hprepare]
    rfl
  have hget : (get : Tx Db) db = .ok (db, db) := rfl
  have hlookup : appendToJournalTx host env req row normalized hash db
      = repeatAppendTx req hash existing db := by
    unfold appendToJournalTx
    rw [Transaction.bind_of_ok (Transaction.require_of (hc.opened _ row hrow) _ db),
      Transaction.bind_of_ok hget, hexisting]
  unfold appendJournalEntries
  rw [Transaction.bind_of_ok houtside]
  dsimp only
  rw [Transaction.bind_of_ok (Transaction.require_of henv _ db), Transaction.bind_of_ok hget, hrow]
  dsimp only
  rw [hlookup, hresponse]
  exact Transaction.bind_of_ok (Transaction.require_of hmatch _ db)

/--
In every run of calls, failed ones included, every journal stays chained; and an append that has
gone through, made again any time later, returns the same numbers and hash and adds nothing.
-/
theorem runs_keep_journals_chained {calls : List Call} {db : Db}
    (hexec : Lts.exec (step host) .empty calls = some db)
    : (∀ tenantID journalID row, db.journals.get? (tenantID, journalID) = some row
        → Chained host row (db.entriesOf tenantID journalID))
      ∧ ∀ env req response db1 later db2 env',
        appendJournalEntries host env req db = .ok (response, db1)
        → Lts.exec (step host) db1 later = some db2
        → env'.fault = false
        → appendJournalEntries host env' req db2
          = .ok ({ response with idempotent := true }, db2) := by
  have hc : Consistent host db := consistent_empty.run hexec
  refine ⟨hc.chained, ?_⟩
  intro env req response db1 later db2 env' happend hlater henv'
  have hrecorded :=
    run_invariant (fun _ _ he h => Recorded.effect h he) (recorded_of_ok happend) hlater
  exact hrecorded.repeats ((hc.effect (.of_append happend)).run hlater) henv'

section Sample

def sampleHost : Host := ⟨id, id, id, .exact⟩

def sampleEnv (n : Nat) : Env :=
  ⟨⟨2026, 1, 2, 3, 4, 5, 6000000⟩, fun i => "jre_".toList ++ Decimal.text (n + i), false⟩

def sampleCreate (retention : String) : CreateRequest :=
  ⟨"log".toList, [], [], ⟨[], []⟩, [], [], [⟨"env".toList, "prod".toList⟩], retention.toList⟩

def sampleAppend (appendID : String) (summaries : List String) : AppendRequest :=
  ⟨"t".toList, "log".toList, appendID.toList, ⟨[], [], []⟩, summaries.map fun summary =>
    ⟨"note".toList, 1, [], none, ⟨[], []⟩, [], [], [], ["file:/a".toList], summary.toList, [], []⟩⟩

def sampleDb (retention : String) : Db :=
  Call.run sampleHost .empty (.create (sampleEnv 0) "t".toList (sampleCreate retention))

theorem exec_sampleDb (retention)
    : Lts.exec (step sampleHost) .empty [.create (sampleEnv 0) "t".toList (sampleCreate retention)]
      = some (sampleDb retention) := by
  rfl

theorem exists_sampleAppend
    (h : ((appendJournalEntries sampleHost (sampleEnv n) req db).toOption.map (·.1.count)) = some m)
    : ∃ response db1, appendJournalEntries sampleHost (sampleEnv n) req db = .ok (response, db1)
      ∧ response.count = m := by
  cases happend : appendJournalEntries sampleHost (sampleEnv n) req db with
  | error err =>
    rw [happend] at h
    contradiction
  | ok r =>
    rw [happend] at h
    exact ⟨r.1, r.2, rfl, Option.some.inj h⟩

end Sample

theorem runs_keep_journals_chained_twice
    : ∃ response db1,
        appendJournalEntries sampleHost (sampleEnv 0) (sampleAppend "a1" ["1.0", "[2]"]) (sampleDb "30")
          = .ok (response, db1)
        ∧ response.count = 2
        ∧ appendJournalEntries sampleHost (sampleEnv 7) (sampleAppend "a1" ["1.0", "[2]"]) db1
          = .ok ({ response with idempotent := true }, db1) := by
  obtain ⟨response, db1, happend, hcount⟩ :=
    exists_sampleAppend (show _ = some 2 by
      change ((appendJournalEntries sampleHost (sampleEnv 0) (sampleAppend "a1" ["1.0", "[2]"])
        (sampleDb "30")).toOption.map (·.1.count)) = some 2
      decide +kernel)
  refine ⟨response, db1, happend, hcount, ?_⟩
  exact (runs_keep_journals_chained (exec_sampleDb "30")).2 _ _ _ _ [] _ _ happend rfl rfl

end Journal
