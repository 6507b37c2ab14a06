import Drive9.Journal.Reads

/-!
This module contains what `VerifyJournal` reports of a journal that only `CreateJournal` and
`AppendJournalEntries` have written.
-/

namespace Journal

variable {host : Host} {db db' : Db} {tenantID journalID : Str}

variable {row : JournalRow}

section Consistent

theorem Chained.pairwise (h : Chained host row rows) : (rows.map (·.seq)).Pairwise (· < ·) := by
  rw [h.seqs, List.pairwise_map]
  apply List.pairwise_lt_range.imp
  intro a b hab
  omega

theorem Chained.pos (h : Chained host row rows) (hr : r ∈ rows) : 0 < r.seq := by
  have hmem : r.seq ∈ rows.map (·.seq) := List.mem_map_of_mem hr
  rw [h.seqs] at hmem
  obtain ⟨i, _, heq⟩ := List.mem_map.mp hmem
  omega

section

variable (h : Chained host row (db.entriesOf tenantID journalID))

include h

theorem Chained.stored (column)
    : db.stored column tenantID journalID
      = (db.entriesOf tenantID journalID).map (scanEntry column) := by
  unfold Db.stored
  have hrows : db.entriesAfter tenantID journalID 0 = db.entriesOf tenantID journalID := by
    apply Paging.rows_of_sorted
    . exact (List.pairwise_map.mp h.pairwise).imp le_of_lt
    . exact fun r hr => h.pos hr
  rw [hrows]

theorem Chained.keyed : db.Keyed tenantID journalID :=
  h.pairwise.imp ne_of_lt

theorem Chained.intact
    (hhashes : ∀ r ∈ db.entriesOf tenantID journalID, entryHash host (scanEntry column r) = .ok r.entryHash)
    : Intact host row.genesisHash (db.stored column tenantID journalID) row.headHash := by
  rw [h.stored]
  constructor
  . rw [HashChain.linked_map]
    exact h.linked
  . intro e he
    obtain ⟨r, hr, rfl⟩ := List.mem_map.mp he
    exact hhashes r hr

end

end Consistent

section Errors

structure Readable (host : Host) (db : Db) (tenantID journalID : Str) : Prop where
  tenant : tenantID ≠ []
  journal : journalID ≠ []
  valid : validateJournalID journalID = .ok ()
  row : ∃ row, db.journals.get? (tenantID, journalID) = some row
    ∧ (∃ hash, genesisHashAgain host row = .ok hash)
    ∧ ∃ labels, labelsFromGenesis host (host.column.read row.genesis) = .ok labels
  hashes : ∀ r ∈ db.entriesOf tenantID journalID, ∃ hash,
    entryHash host (scanEntry host.column r) = .ok hash
  subjects : ∀ r ∈ db.subjects, ∃ raw, parseSubject host raw = .ok (r.type, r.id)

def Fine (host : Host) : VerifyPhase → Prop
  | .subjects entries _ => ∀ e ∈ entries, ∃ hash, entryHash host e = .ok hash
  | .done result => ∃ r, result = .ok r
  | _ => True

theorem exists_readRow (hhash : ∃ hash, genesisHashAgain host row = .ok hash)
    (hlabels : ∃ labels, labelsFromGenesis host (host.column.read row.genesis) = .ok labels)
    : ∃ expected p, readRow host row = .ok (expected, p) := by
  obtain ⟨hash, hhash⟩ := hhash
  obtain ⟨labels, hlabels⟩ := hlabels
  unfold genesisHashAgain at hhash
  unfold readRow
  dsimp only
  cases hdoc : unmarshalAny (host.column.read row.genesis) with
  | error err =>
    rw [hdoc] at hhash
    cases hhash
  | ok doc =>
    rw [hlabels]
    exact ⟨_, _, rfl⟩

section

variable (h : Readable host db tenantID journalID)

include h

theorem Readable.page (after : Int)
    : listJournalEntries host.column db tenantID journalID after
      = .ok (pageAfter host.column db tenantID journalID after) := by
  obtain ⟨row, hrow, _⟩ := h.row
  unfold listJournalEntries
  rw [if_neg (by simp [h.tenant, h.journal]), h.valid, hrow]
  rw [if_neg (by simp)]

theorem Readable.exists_loadSubjects (hl : host.Lawful) (first last : Int)
    : ∃ found, loadJournalEntrySubjects host db tenantID journalID first last = .ok found := by
  unfold loadJournalEntrySubjects
  dsimp only
  rw [forM_iff.mpr]
  . exact ⟨_, rfl⟩
  . intro r _
    have hrows : ∀ r' ∈ subjectRows db tenantID journalID r.seq, ∃ raw,
        parseSubject host raw = .ok (r'.type, r'.id) :=
      fun r' hr' => h.subjects r' (List.mem_of_mem_filter hr')
    obtain ⟨subjects, hsubjects⟩ := hl.subjects hrows
    unfold subjectsOfSeq
    rw [hsubjects]
    rfl

theorem Fine.step (hl : host.Lawful) (hfine : Fine host phase)
    : Fine host (verifyStep host db tenantID journalID phase) := by
  cases phase with
  | row =>
    obtain ⟨row, hrow, hhash, hlabels⟩ := h.row
    obtain ⟨expected, p, hread⟩ := exists_readRow hhash hlabels
    unfold verifyStep
    rw [hrow]
    dsimp only
    rw [hread]
    trivial
  | labels expected p => trivial
  | page after p =>
    unfold verifyStep
    dsimp only
    rw [h.page after]
    cases hpage : pageAfter host.column db tenantID journalID after with
    | nil => exact ⟨_, rfl⟩
    | cons e entries =>
      change ∀ e' ∈ e :: entries, ∃ hash, entryHash host e' = .ok hash
      rw [← hpage]
      intro e' he
      obtain ⟨r, hr, rfl⟩ := List.mem_map.mp he
      exact h.hashes r (Paging.mem_rows.mp (List.mem_of_mem_take hr)).1
  | subjects entries p =>
    obtain ⟨found, hfound⟩ := h.exists_loadSubjects hl ((entries.head?.map (·.seq)).getD 0)
      ((entries.getLast?.map (·.seq)).getD 0)
    obtain ⟨p', hp'⟩ := exists_foldlM_verifyEntry found.1 hfine
      { p with projectionOK := p.projectionOK && found.2 }
    have hpage : verifyPage host db tenantID journalID entries p = .ok p' := by
      unfold verifyPage
      rw [hfound]
      exact hp'
    unfold verifyStep
    dsimp only
    rw [hpage]
    trivial
  | done result => exact hfine

theorem Readable.exists_verifyJournal (hl : host.Lawful) (hkeyed : db.Keyed tenantID journalID)
    : ∃ r, verifyJournal host db tenantID journalID = some (.ok r) := by
  obtain ⟨result, hverify, hdone⟩ := Journal.exists_verifyJournal host hkeyed
  have hfine : Fine host (.done result) := by
    rw [← hdone]
    exact Function.Iterate.rec (Fine host) (show Fine host .row from trivial)
      (fun _ => Fine.step h hl) _
  obtain ⟨r, rfl⟩ := hfine
  exact ⟨r, hverify⟩

end

end Errors

variable {req : CreateRequest} {env : Env}

section Runs

def Parsed (host : Host) (db : Db) : Prop :=
  ∀ r ∈ db.subjects, ∃ raw, parseSubject host raw = .ok (r.type, r.id)

theorem Parsed.effect (h : Parsed host db) (he : Effect host db db') : Parsed host db' := by
  cases he with
  | same => exact h
  | created he =>
    obtain ⟨req', _, _, labels, rfl⟩ := he.prepared
    exact h
  | appended he =>
    obtain ⟨normalized, hash, _, _, _, _, rows, hrows, rfl⟩ := he.prepared
    intro r hr
    cases List.mem_append.mp hr with
    | inl hr => exact h r hr
    | inr hr =>
      obtain ⟨e, _, hof⟩ := hrows r hr
      obtain ⟨raw, _, hparse⟩ := hof.parsed
      exact ⟨raw, hparse⟩

def FoundedBy (host : Host) (req : CreateRequest) (tenantID journalID : Str) (db : Db) : Prop :=
  ∃ row doc, db.journals.get? (tenantID, journalID) = some row ∧ Founded host req row doc

theorem FoundedBy.effect (h : FoundedBy host req tenantID journalID db) (he : Effect host db db')
    : FoundedBy host req tenantID journalID db' := by
  obtain ⟨row, doc, hrow, hfounded⟩ := h
  obtain ⟨row', hrow', hgenesis, hhash⟩ := he.journal hrow
  exact ⟨row', doc, hrow', hfounded.row hgenesis hhash⟩

theorem Created.foundedBy (h : Created host env tenantID req row db db')
    : FoundedBy host req tenantID (journalIDOf env req) db' := by
  obtain ⟨req', hprepare, _, labels, rfl⟩ := h.prepared
  obtain ⟨doc, hdoc⟩ := prepareCreate_founded hprepare
  refine ⟨row, doc, ?_, hdoc⟩
  rw [(prepareCreate_journalID hprepare).1]
  exact FMap.get?_set_self ..

theorem created_of_absent (h : createJournal host env tenantID req db = .ok (row, db'))
    (habsent : db.journals.get? (tenantID, journalIDOf env req) = none)
    : Created host env tenantID req row db db' := by
  cases createJournal_ok h with
  | inr h => exact h
  | inl h =>
    obtain ⟨_, req', row', hprepare, hsome⟩ := h
    rw [(prepareCreate_journalID hprepare).1, habsent] at hsome
    contradiction

end Runs

/--
With columns that return the bytes stored, a journal that was created in any run and is left alone
by all but other calls is reported as intact just if its id is not blank and the numbers of its
retention are spelled as doubles are.
-/
theorem untampered_journal_verifies_iff (hl : host.Lawful) (hsha : Function.Injective host.sha256)
    (hcolumn : host.column = .exact)
    {before after : List Call} {db0 db1 db2 : Db} {env : Env} {tenantID : Str} {req : CreateRequest}
    {row : JournalRow} (hbefore : Lts.exec (step host) .empty before = some db0)
    (habsent : db0.journals.get? (tenantID, journalIDOf env req) = none)
    (hcreate : createJournal host env tenantID req db0 = .ok (row, db1))
    (hafter : Lts.exec (step host) db1 after = some db2)
    : (∃ r, verifyJournal host db2 tenantID (journalIDOf env req) = some (.ok r) ∧ r.hashChainOK)
        ↔
      journalIDOf env req ≠ [] ∧ PlainRetention .exact req.retention := by
  rw [← hcolumn]
  have hcreated := created_of_absent hcreate habsent
  have hc : Consistent host db2 :=
    ((consistent_empty.run hbefore).effect (.created hcreated)).run hafter
  have hparsed : Parsed host db2 := by
    have hempty : Parsed host .empty := fun r hr => absurd hr List.not_mem_nil
    have h0 := run_invariant (fun _ _ he h => Parsed.effect h he) hempty hbefore
    exact run_invariant (fun _ _ he h => Parsed.effect h he) (h0.effect (.created hcreated)) hafter
  obtain ⟨row2, doc, hrow2, hfounded⟩ :=
    run_invariant (fun _ _ he h => FoundedBy.effect h he) hcreated.foundedBy hafter
  obtain ⟨req', hprepare, _⟩ := hcreated.prepared
  obtain ⟨hid, hvalid⟩ := prepareCreate_journalID hprepare
  rw [hid] at hvalid
  have hchained := hc.chained _ _ row2 hrow2
  constructor
  . rintro ⟨r, hverify, hok⟩
    obtain ⟨hne, row2', hrow2', hiff⟩ := verifyJournal_ok hchained.keyed hverify
    obtain rfl := Option.some.inj (hrow2.symm.trans hrow2')
    exact ⟨hne, hfounded.plain.mp (hfounded.genesis.plain hsha (hiff.mp hok).genesis)⟩
  . rintro ⟨hne, hplain⟩
    have hgenesis := hfounded.genesis.again (hfounded.plain.mpr hplain)
    have hhashes : ∀ r ∈ db2.entriesOf tenantID (journalIDOf env req),
        entryHash host (scanEntry host.column r) = .ok r.entryHash := by
      rw [hcolumn]
      exact hchained.hashes
    have hlabels : ∃ labels, labelsFromGenesis host (host.column.read row2.genesis) = .ok labels := by
      rw [hcolumn]
      exact hfounded.labels hl
    have hreadable : Readable host db2 tenantID (journalIDOf env req) :=
      ⟨(prepareCreate_ok hprepare).tenant, hne, hvalid hne, ⟨row2, hrow2, ⟨_, hgenesis⟩, hlabels⟩,
        fun r hr => ⟨_, hhashes r hr⟩, hparsed⟩
    obtain ⟨r, hverify⟩ := hreadable.exists_verifyJournal hl hchained.keyed
    obtain ⟨_, row2', hrow2', hiff⟩ := verifyJournal_ok hchained.keyed hverify
    obtain rfl := Option.some.inj (hrow2.symm.trans hrow2')
    exact ⟨r, hverify, hiff.mpr ⟨hgenesis, hchained.intact hhashes⟩⟩

section Sample

theorem sampleHost_lawful : sampleHost.Lawful :=
  ⟨fun _ => rfl, fun _ => rfl, fun _ h => h, fun _ _ => rfl⟩

theorem sampleHost_injective : Function.Injective sampleHost.sha256 := fun _ _ h => h

theorem exists_createJournal
    (h : (createJournal sampleHost env "t".toList req db).toOption.isSome = true)
    : ∃ row, createJournal sampleHost env "t".toList req db
      = .ok (row, Call.run sampleHost db (.create env "t".toList req)) := by
  cases hcreate : createJournal sampleHost env "t".toList req db with
  | error err =>
    rw [hcreate] at h
    contradiction
  | ok r =>
    refine ⟨r.1, ?_⟩
    dsimp only [Call.run]
    rw [hcreate]
    rfl

def sampleRun (retention : String) : Db :=
  Call.run sampleHost (sampleDb retention) (.append (sampleEnv 0) (sampleAppend "a1" ["[2]"]))

def chainReport (host : Host) (db : Db) (tenantID journalID : String) : Option (Option Bool) :=
  (verifyJournal host db tenantID.toList journalID.toList).map fun result => result.toOption.map (·.hashChainOK)

end Sample

theorem untampered_journal_verifies_iff_thirty
    : PlainRetention .exact "30".toList
      ∧ ∃ r, verifyJournal sampleHost (sampleRun "30") "t".toList "log".toList = some (.ok r)
      ∧ r.hashChainOK := by
  have hplain : PlainRetention .exact "30".toList := by decide +kernel
  have hbefore : Lts.exec (step sampleHost) .empty [] = some .empty := rfl
  have hafter : Lts.exec (step sampleHost) (sampleDb "30")
      [.append (sampleEnv 0) (sampleAppend "a1" ["[2]"])] = some (sampleRun "30") := rfl
  obtain ⟨row, hcreate⟩ := exists_createJournal
    (show (createJournal sampleHost (sampleEnv 0) "t".toList (sampleCreate "30") .empty).toOption.isSome = true by
      decide +kernel)
  refine ⟨hplain, ?_⟩
  exact (untampered_journal_verifies_iff sampleHost_lawful sampleHost_injective rfl hbefore rfl hcreate hafter).mpr
    ⟨by decide +kernel, hplain⟩

/--
A retention of `30.0` and an id that is a blank: both requests are accepted, and what is read back
has another hash for one and no entries at all for the other.
-/
theorem accepted_requests_fail_to_verify
    : (createJournal sampleHost (sampleEnv 0) "t".toList (sampleCreate "30.0") .empty).toOption.isSome
      ∧ chainReport sampleHost (sampleRun "30.0") "t" "log" = some (some false)
      ∧ (createJournal sampleHost (sampleEnv 0) "t".toList { sampleCreate "30" with journalID := [' '] }
        .empty).toOption.isSome
      ∧ chainReport sampleHost (Call.run sampleHost .empty
          (.create (sampleEnv 0) "t".toList { sampleCreate "30" with journalID := [' '] })) "t" ""
        = some none := by
  decide +kernel

end Journal
