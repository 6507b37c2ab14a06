import Drive9.Journal.Verify

/-!
This module contains what a call of `CreateJournal` or `AppendJournalEntries` that goes through does
to the tables.
-/

namespace Journal

open Transaction

variable {host : Host} {db db' : Db}

theorem of_outside (h : outside x db = .ok (a, db')) : x = .ok a ∧ db = db' := by
  unfold outside at h
  split at h
  . cases h
    exact ⟨rfl, rfl⟩
  . cases h

theorem of_wrap (h : wrap x = .ok a) : x = .ok a := by
  unfold wrap at h
  split at h
  . cases h
    rfl
  . cases h

theorem of_ensure [Decidable c] (h : ensure c err = .ok a) : c := by
  unfold ensure at h
  split at h
  . assumption
  . cases h

variable {k f : α → Except ε β} {tenantID prevHash : Str} {req req' : CreateRequest}
  {inputs normalized : List EntryInput}

theorem of_except_bind {x : Except ε α} (h : (x >>= k) = .ok b) : ∃ a, x = .ok a ∧ k a = .ok b := by
  cases x with
  | error err => cases h
  | ok a => exact ⟨a, rfl, h⟩

theorem of_input (h : input x db = .ok (a, db')) : x = .ok a ∧ db = db' := by
  obtain ⟨hx, hdb⟩ := of_outside h
  exact ⟨of_wrap hx, hdb⟩

section Loops

theorem insertLabelTx_ok (h : insertLabelTx host tenantID journalID now label db = .ok (a, db'))
    : ∃ labels, db' = { db with labels } := by
  have hrest := of_get h
  obtain ⟨_, hset⟩ := of_require_bind hrest
  cases hset
  exact ⟨_, rfl⟩

theorem insertLabels_ok {labels : List Label}
    (h : labels.forM (insertLabelTx host tenantID journalID now) db = .ok (a, db'))
    : ∃ labels, db' = { db with labels } := by
  induction labels generalizing db with
  | nil =>
    cases h
    exact ⟨_, rfl⟩
  | cons label labels ih =>
    obtain ⟨_, db1, h1, h2⟩ := of_bind h
    obtain ⟨_, rfl⟩ := insertLabelTx_ok h1
    obtain ⟨_, rfl⟩ := ih h2
    exact ⟨_, rfl⟩

structure SubjectRow.Of (host : Host) (e : Entry) (r : SubjectRow) : Prop where
  parsed : ∃ raw ∈ e.subjects.getD [], parseSubject host raw = .ok (r.type, r.id)

theorem insertSubjectTx_ok (h : insertSubjectTx host e raw db = .ok (a, db'))
    : ∃ r : SubjectRow, parseSubject host raw = .ok (r.type, r.id)
      ∧ db' = { db with subjects := db.subjects ++ [r] } := by
  obtain ⟨⟨subjectType, subjectID⟩, _, hinput, hrest⟩ := of_bind h
  obtain ⟨hparse, rfl⟩ := of_input hinput
  have hinsert := of_get hrest
  obtain ⟨_, hset⟩ := of_require_bind hinsert
  cases hset
  exact ⟨_, hparse, rfl⟩

theorem insertSubjects_ok {raws : List Str}
    (h : raws.forM (insertSubjectTx host e) db = .ok (a, db'))
    : ∃ rows : List SubjectRow, (∀ r ∈ rows, ∃ raw ∈ raws, parseSubject host raw = .ok (r.type, r.id))
      ∧ db' = { db with subjects := db.subjects ++ rows } := by
  induction raws generalizing db with
  | nil =>
    cases h
    exact ⟨[], by simp, by simp⟩
  | cons raw raws ih =>
    obtain ⟨_, db1, h1, h2⟩ := of_bind h
    obtain ⟨r, hr, rfl⟩ := insertSubjectTx_ok h1
    obtain ⟨rows, hrows, rfl⟩ := ih h2
    refine ⟨r :: rows, ?_, by simp⟩
    rw [List.forall_mem_cons]
    refine ⟨⟨raw, List.mem_cons_self, hr⟩, ?_⟩
    intro r hr
    obtain ⟨raw, hraw, hparse⟩ := hrows r hr
    exact ⟨raw, List.mem_cons_of_mem _ hraw, hparse⟩

theorem insertJournalEntryTx_ok {e : Entry} (h : insertJournalEntryTx host e db = .ok (a, db'))
    : ∃ rows : List SubjectRow, (∀ r ∈ rows, r.Of host e)
      ∧ db' = { db with entries := db.entries ++ [entryRow e], subjects := db.subjects ++ rows } := by
  have hrest := of_get h
  obtain ⟨_, hinsert⟩ := of_require_bind hrest
  obtain ⟨_, _, hset, hsubjects⟩ := of_bind hinsert
  cases hset
  obtain ⟨rows, hrows, rfl⟩ := insertSubjects_ok hsubjects
  exact ⟨rows, fun r hr => ⟨hrows r hr⟩, rfl⟩

theorem insertEntries_ok {entries : List Entry}
    (h : entries.forM (insertJournalEntryTx host) db = .ok (a, db'))
    : ∃ rows : List SubjectRow, (∀ r ∈ rows, ∃ e ∈ entries, r.Of host e)
      ∧ db' = { db with entries := db.entries ++ entries.map entryRow, subjects := db.subjects ++ rows } := by
  induction entries generalizing db with
  | nil =>
    cases h
    exact ⟨[], by simp, by simp⟩
  | cons e entries ih =>
    obtain ⟨_, db1, h1, h2⟩ := of_bind h
    obtain ⟨rows1, hrows1, rfl⟩ := insertJournalEntryTx_ok h1
    obtain ⟨rows2, hrows2, rfl⟩ := ih h2
    refine ⟨rows1 ++ rows2, ?_, by simp⟩
    intro r hr
    cases List.mem_append.mp hr with
    | inl hr => exact ⟨e, List.mem_cons_self, hrows1 r hr⟩
    | inr hr =>
      obtain ⟨e', he', hof⟩ := hrows2 r hr
      exact ⟨e', List.mem_cons_of_mem _ he', hof⟩

end Loops

structure PreparedCreate (host : Host) (env : Env) (tenantID : Str) (req req' : CreateRequest)
    (row : JournalRow)
    : Prop where
  tenant : tenantID ≠ []
  normalized : normalizeCreateRequest host
    { req with journalID := if req.journalID = [] then env.newID 0 else req.journalID } = .ok req'
  labels : validateLabels req'.labels = .ok ()
  row : ∃ createHash genesis, genesisDocument tenantID req' (normalizeTime env.now) = .ok genesis
    ∧ row = newJournalRow host req' createHash genesis (normalizeTime env.now)

theorem prepareCreate_ok (h : prepareCreate host env tenantID req = .ok (req', row))
    : PreparedCreate host env tenantID req req' row := by
  obtain ⟨_, htenant, h1⟩ := of_except_bind h
  obtain ⟨_, hreq, h2⟩ := of_except_bind h1
  obtain ⟨_, hlabels, h3⟩ := of_except_bind h2
  obtain ⟨createHash, _, h4⟩ := of_except_bind h3
  obtain ⟨genesis, hgenesis, h5⟩ := of_except_bind h4
  cases h5
  exact ⟨of_ensure htenant, of_wrap hreq, of_wrap hlabels, createHash, genesis, of_wrap hgenesis,
    rfl⟩

structure Created (host : Host) (env : Env) (tenantID : Str) (req : CreateRequest)
    (row : JournalRow) (db db' : Db)
    : Prop where
  prepared : ∃ req', prepareCreate host env tenantID req = .ok (req', row)
    ∧ db.journals.get? (tenantID, req'.journalID) = none
    ∧ ∃ labels, db' = { db with journals := db.journals.set (tenantID, req'.journalID) row, labels }

theorem createJournal_ok (h : createJournal host env tenantID req db = .ok (row, db'))
    : (db' = db ∧ ∃ req' row', prepareCreate host env tenantID req = .ok (req', row')
        ∧ (db.journals.get? (tenantID, req'.journalID)).isSome)
      ∨ Created host env tenantID req row db db' := by
  obtain ⟨⟨req', row'⟩, _, houtside, hfault⟩ := of_bind h
  obtain ⟨hprepare, rfl⟩ := of_outside houtside
  obtain ⟨_, htx⟩ := of_require_bind hfault
  have hrest := of_get htx
  cases hrow : db.journals.get? (tenantID, req'.journalID) with
  | some existing =>
    rw [hrow] at hrest
    obtain ⟨_, hpure⟩ := of_require_bind hrest
    cases hpure
    exact .inl ⟨rfl, req', row', hprepare, by rw [hrow]; rfl⟩
  | none =>
    rw [hrow] at hrest
    obtain ⟨_, _, hmodify, hinsert⟩ := of_bind hrest
    cases hmodify
    obtain ⟨_, _, hlabels, hpure⟩ := of_bind hinsert
    obtain ⟨labels, rfl⟩ := insertLabels_ok hlabels
    cases hpure
    exact .inr ⟨req', hprepare, hrow, labels, rfl⟩

def batch (env : Env) (req : AppendRequest) (row : JournalRow) : Batch :=
  ⟨req.tenantID, req.journalID, row.nextSeq, normalizeTime env.now, journalActor row, effectiveWriter req.writer,
    env.newID⟩

def appendRequestRow (req : AppendRequest) (requestHash : Str) (inserted : List Entry)
    : AppendRequestRow :=
  ⟨requestHash, (effectiveWriter req.writer).type, (effectiveWriter req.writer).id, (effectiveWriter req.writer).source,
    (inserted.head?.map (·.seq)).getD 0, (inserted.getLast?.map (·.seq)).getD 0, inserted.length,
    (inserted.getLast?.map (·.entryHash)).getD []⟩

structure Appended (host : Host) (env : Env) (req : AppendRequest) (response : AppendResponse)
    (row : JournalRow)
    (inserted : List Entry) (db db' : Db) : Prop where
  nonempty : inserted ≠ []
  journal : db.journals.get? (req.tenantID, req.journalID) = some row
  prepared : ∃ normalized hash, prepareAppend host req = .ok (normalized, hash)
    ∧ db.appendRequests.get? (req.tenantID, req.journalID, req.appendID) = none
    ∧ (batch env req row).entries host 0 row.headHash normalized = .ok inserted
    ∧ response = { (appendRequestRow req hash inserted).response req.journalID req.appendID with idempotent := false }
    ∧ ∃ rows : List SubjectRow, (∀ r ∈ rows, ∃ e ∈ inserted, r.Of host e)
      ∧ db' = { db with
          journals := db.journals.set (req.tenantID, req.journalID)
            { row with nextSeq := (inserted.getLast?.map (·.seq)).getD 0 + 1,
                       headHash := (inserted.getLast?.map (·.entryHash)).getD [],
                       updatedAt := normalizeTime env.now },
          appendRequests := db.appendRequests.set (req.tenantID, req.journalID, req.appendID)
            (appendRequestRow req hash inserted),
          entries := db.entries ++ inserted.map entryRow, subjects := db.subjects ++ rows }

-- The request is on record, with this answer.
def OnRecord (host : Host) (req : AppendRequest) (response : AppendResponse) (db : Db) : Prop :=
  ∃ normalized hash existing, prepareAppend host req = .ok (normalized, hash)
    ∧ db.appendRequests.get? (req.tenantID, req.journalID, req.appendID) = some existing
    ∧ (existing.requestHash = hash ∧ existing.writerType = (effectiveWriter req.writer).type
      ∧ existing.writerID = (effectiveWriter req.writer).id
      ∧ existing.effectiveSource = (effectiveWriter req.writer).source)
    ∧ response = existing.response req.journalID req.appendID

structure Repeated (host : Host) (req : AppendRequest) (response : AppendResponse)
    (db db' : Db) : Prop where
  journal : ∃ row, db.journals.get? (req.tenantID, req.journalID) = some row ∧ row.closedAt = none
  prepared : OnRecord host req response db
  same : db' = db

theorem forall₂_mapM {l : List α} (h : l.mapM f = .ok l')
    : List.Forall₂ (fun a b => f a = .ok b) l l' := by
  induction l generalizing l' with
  | nil =>
    cases h
    exact .nil
  | cons a l ih =>
    rw [List.mapM_cons] at h
    obtain ⟨b, hb, hrest⟩ := of_except_bind h
    obtain ⟨bs, hbs, hpure⟩ := of_except_bind hrest
    cases hpure
    exact .cons hb (ih hbs)

theorem length_entries {b : Batch} (h : b.entries host i prevHash inputs = .ok entries)
    : entries.length = inputs.length := by
  induction inputs generalizing i prevHash entries with
  | nil =>
    cases h
    rfl
  | cons input inputs ih =>
    obtain ⟨_, _, hrest⟩ := of_except_bind h
    obtain ⟨_, hentries, hpure⟩ := of_except_bind hrest
    cases hpure
    rw [List.length_cons, List.length_cons, ih hentries]

theorem of_prepareAppend {req : AppendRequest} {hash : Str}
    (h : prepareAppend host req = .ok (normalized, hash))
    : req.entries ≠ []
      ∧ List.Forall₂ (fun entry n => normalizeEntry host (effectiveWriter req.writer).source entry = .ok n)
        req.entries normalized := by
  obtain ⟨_, _, h1⟩ := of_except_bind h
  obtain ⟨_, _, h2⟩ := of_except_bind h1
  obtain ⟨_, _, h3⟩ := of_except_bind h2
  obtain ⟨_, _, h4⟩ := of_except_bind h3
  obtain ⟨_, hne, h5⟩ := of_except_bind h4
  obtain ⟨_, _, h6⟩ := of_except_bind h5
  obtain ⟨_, _, h7⟩ := of_except_bind h6
  obtain ⟨n, hmap, h8⟩ := of_except_bind h7
  obtain ⟨_, _, h9⟩ := of_except_bind h8
  obtain ⟨_, _, h10⟩ := of_except_bind h9
  cases h10
  exact ⟨of_ensure hne, forall₂_mapM hmap⟩

theorem appendJournalEntries_ok {req : AppendRequest}
    (h : appendJournalEntries host env req db = .ok (response, db'))
    : Repeated host req response db db'
      ∨ ∃ row inserted, Appended host env req response row inserted db db' := by
  obtain ⟨⟨normalized, hash⟩, _, houtside, hfault⟩ := of_bind h
  obtain ⟨hprepare, rfl⟩ := of_outside houtside
  obtain ⟨_, htx⟩ := of_require_bind hfault
  have hrest := of_get htx
  cases hrow : db.journals.get? (req.tenantID, req.journalID) with
  | none =>
    rw [hrow] at hrest
    cases hrest
  | some row =>
    rw [hrow] at hrest
    obtain ⟨hclosed, hopen⟩ := of_require_bind hrest
    have hlookup := of_get hopen
    cases hexisting : db.appendRequests.get? (req.tenantID, req.journalID, req.appendID) with
    | some existing =>
      rw [hexisting] at hlookup
      obtain ⟨hmatch, hpure⟩ := of_require_bind hlookup
      cases hpure
      exact .inl ⟨⟨row, hrow, hclosed⟩, ⟨normalized, hash, existing, hprepare, hexisting, hmatch, rfl⟩, rfl⟩
    | none =>
      rw [hexisting] at hlookup
      obtain ⟨inserted, _, hinput, hinsert⟩ := of_bind hlookup
      obtain ⟨hentries, rfl⟩ := of_input hinput
      obtain ⟨_, _, hmodify, hrest⟩ := of_bind hinsert
      cases hmodify
      obtain ⟨_, _, hloop, hupdate⟩ := of_bind hrest
      obtain ⟨rows, hrows, rfl⟩ := insertEntries_ok hloop
      obtain ⟨_, _, hmodify, hpure⟩ := of_bind hupdate
      cases hmodify
      cases hpure
      refine .inr ⟨row, inserted, ?_, hrow, normalized, hash, hprepare, hexisting, hentries, rfl,
        rows, hrows, rfl⟩
      rintro rfl
      have hlen := length_entries hentries
      obtain ⟨hne, hnormalized⟩ := of_prepareAppend hprepare
      exact hne (List.length_eq_zero_iff.mp (hnormalized.length_eq.trans hlen.symm))

end Journal
