import Drive9.Journal.Genesis
import Drive9.Lib.Paging

/-!
This module contains what `VerifyJournal` has read, phase by phase, and what it finds on tables that
stay as they are.
-/

namespace Journal

open List

open HashChain (Linked)

variable {host : Host} {db : Db} {tenantID journalID : Str}

def Db.stored (db : Db) (column : JsonColumn) (tenantID journalID : Str) : List Entry :=
  (db.entriesAfter tenantID journalID 0).map (scanEntry column)

structure Intact (host : Host) (first : Str) (entries : List Entry) (last : Str) : Prop where
  linked : Linked (·.prevHash) (·.entryHash) first entries last
  hashes : ∀ e ∈ entries, entryHash host e = .ok e.entryHash

variable {entries read : List Entry}

theorem intact_cons
    : Intact host first (e :: entries) last
        ↔
      (e.prevHash = first ∧ entryHash host e = .ok e.entryHash) ∧ Intact host e.entryHash entries last := by
  constructor
  . rintro ⟨hlinked, hhashes⟩
    rw [forall_mem_cons] at hhashes
    exact ⟨⟨hlinked.1, hhashes.1⟩, hlinked.2, hhashes.2⟩
  . rintro ⟨⟨hprev, hhash⟩, hlinked, hhashes⟩
    exact ⟨⟨hprev, hlinked⟩, forall_mem_cons.mpr ⟨hhash, hhashes⟩⟩

theorem intact_append
    : Intact host first (entries ++ entries') last
        ↔
      ∃ middle, Intact host first entries middle ∧ Intact host middle entries' last := by
  constructor
  . rintro ⟨hlinked, hhashes⟩
    obtain ⟨middle, hmiddle, hlast⟩ := HashChain.linked_append.mp hlinked
    rw [forall_mem_append] at hhashes
    exact ⟨middle, ⟨hmiddle, hhashes.1⟩, hlast, hhashes.2⟩
  . rintro ⟨middle, hentries, hentries'⟩
    refine ⟨HashChain.linked_append.mpr ⟨middle, hentries.linked, hentries'.linked⟩, ?_⟩
    exact forall_mem_append.mpr ⟨hentries.hashes, hentries'.hashes⟩

variable {p p' : Progress}

section Entries

variable {subjects : Int → List Str}

theorem verifyEntry_ok (h : verifyEntry host subjects p e = .ok p')
    : p'.storedHead = p.storedHead
      ∧ entryHash host e = .ok p'.prev
      ∧ (p'.hashChainOK ↔ p.hashChainOK ∧ e.prevHash = p.prev ∧ entryHash host e = .ok e.entryHash) := by
  obtain ⟨hash, hhash, hpure⟩ := of_except_bind h
  cases hpure
  refine ⟨rfl, hhash, ?_⟩
  rw [hhash]
  simp [and_assoc]

theorem foldlM_verifyEntry_ok (h : entries.foldlM (verifyEntry host subjects) p = .ok p')
    : p'.storedHead = p.storedHead
      ∧ (p'.hashChainOK ↔ p.hashChainOK ∧ ∃ last, Intact host p.prev entries last)
      ∧ ∀ last, Intact host p.prev entries last → p'.prev = last := by
  induction entries generalizing p with
  | nil =>
    cases h
    exact ⟨rfl, ⟨fun h => ⟨h, _, rfl, by simp⟩, fun h => h.1⟩, fun last hlast => hlast.linked⟩
  | cons e entries ih =>
    rw [foldlM_cons] at h
    obtain ⟨p1, h1, hrest⟩ := of_except_bind h
    obtain ⟨hhead, hprev, hok⟩ := verifyEntry_ok h1
    obtain ⟨hhead', hok', hlast⟩ := ih hrest
    refine ⟨hhead'.trans hhead, ?_, ?_⟩
    . rw [hok', hok]
      simp only [intact_cons]
      constructor
      . rintro ⟨⟨hp, hfirst, hhash⟩, last, hintact⟩
        rw [Except.ok.inj (hprev.symm.trans hhash)] at hintact
        exact ⟨hp, last, ⟨hfirst, hhash⟩, hintact⟩
      . rintro ⟨hp, last, ⟨hfirst, hhash⟩, hintact⟩
        rw [Except.ok.inj (hprev.symm.trans hhash)]
        exact ⟨⟨hp, hfirst, hhash⟩, last, hintact⟩
    . intro last hintact
      obtain ⟨⟨_, hhash⟩, hintact⟩ := intact_cons.mp hintact
      rw [← Except.ok.inj (hprev.symm.trans hhash)] at hintact
      exact hlast last hintact

theorem exists_foldlM_verifyEntry (subjects)
    (h : ∀ e ∈ entries, ∃ hash, entryHash host e = .ok hash) (p)
    : ∃ p', entries.foldlM (verifyEntry host subjects) p = .ok p' := by
  induction entries generalizing p with
  | nil => exact ⟨p, rfl⟩
  | cons e entries ih =>
    rw [forall_mem_cons] at h
    obtain ⟨hash, hhash⟩ := h.1
    rw [foldlM_cons]
    unfold verifyEntry
    rw [hhash]
    exact ih h.2 _

end Entries

structure Seen (host : Host) (row : JournalRow) (read : List Entry) (p : Progress) : Prop where
  storedHead : p.storedHead = row.headHash
  chain : ∃ first, genesisHashAgain host row = .ok first
    ∧ (p.hashChainOK ↔ first = row.genesisHash ∧ ∃ last, Intact host first read last)
    ∧ ∀ last, Intact host first read last → p.prev = last

structure Verified (host : Host) (row : JournalRow) (entries : List Entry) : Prop where
  genesis : genesisHashAgain host row = .ok row.genesisHash
  intact : Intact host row.genesisHash entries row.headHash

variable {row : JournalRow}

theorem readRow_ok (h : readRow host row = .ok (expected, p)) : Seen host row [] p := by
  obtain ⟨doc, hdoc, hrest⟩ := of_except_bind h
  obtain ⟨labels, _, hpure⟩ := of_except_bind hrest
  cases hpure
  refine ⟨rfl, hashCanonical host doc, ?_, ?_, fun last hlast => hlast.linked⟩
  . unfold genesisHashAgain
    rw [hdoc]
    rfl
  . rw [decide_eq_true_iff]
    exact ⟨fun h => ⟨h, _, rfl, by simp⟩, fun h => h.1⟩

theorem Seen.page (h : Seen host row read p)
    (hpage : verifyPage host db tenantID journalID entries p = .ok p')
    : Seen host row (read ++ entries) p' := by
  obtain ⟨⟨found, subjectsOK⟩, _, hfold⟩ := of_except_bind hpage
  obtain ⟨hhead, hok, hlast⟩ := foldlM_verifyEntry_ok hfold
  obtain ⟨first, hfirst, hchain, hprev⟩ := h.chain
  have hsplit : ∀ last, Intact host first (read ++ entries) last
      ↔ (∃ middle, Intact host first read middle) ∧ Intact host p.prev entries last := by
    intro last
    rw [intact_append]
    constructor
    . rintro ⟨middle, hread, hentries⟩
      rw [hprev middle hread]
      exact ⟨⟨middle, hread⟩, hentries⟩
    . rintro ⟨⟨middle, hread⟩, hentries⟩
      rw [hprev middle hread] at hentries
      exact ⟨middle, hread, hentries⟩
  refine ⟨hhead.trans h.storedHead, first, hfirst, ?_, ?_⟩
  . rw [hok, hchain]
    simp only [hsplit, exists_and_left, and_assoc]
  . intro last hall
    exact hlast last ((hsplit last).mp hall).2

theorem Seen.result (h : Seen host row read p) (journalID)
    : (p.result journalID).hashChainOK ↔ Verified host row read := by
  obtain ⟨first, hfirst, hchain, hprev⟩ := h.chain
  unfold Progress.result
  rw [Bool.and_eq_true, hchain, decide_eq_true_iff, h.storedHead]
  constructor
  . rintro ⟨⟨rfl, last, hintact⟩, hhead⟩
    rw [← hprev last hintact, hhead] at hintact
    exact ⟨hfirst, hintact⟩
  . rintro ⟨hgenesis, hintact⟩
    obtain rfl := Except.ok.inj (hfirst.symm.trans hgenesis)
    exact ⟨⟨rfl, row.headHash, hintact⟩, hprev _ hintact⟩

section Pages

-- `tenant_id, journal_id, seq` is the primary key.
def Db.Keyed (db : Db) (tenantID journalID : Str) : Prop :=
  ((db.entriesOf tenantID journalID).map (·.seq)).Nodup

variable {column : JsonColumn} {after : Int}

theorem entriesAfter_eq_nil (h : pageAfter column db tenantID journalID after = [])
    : db.entriesAfter tenantID journalID after = [] := by
  unfold pageAfter at h
  rw [map_eq_nil_iff, take_eq_nil_iff] at h
  cases h with
  | inl h => contradiction
  | inr h => exact h

theorem entriesAfter_eq_append (h : db.Keyed tenantID journalID)
    (hne : pageAfter column db tenantID journalID after ≠ [])
    : ∃ last, (pageAfter column db tenantID journalID after).getLast?.map (·.seq) = some last
      ∧ (db.entriesAfter tenantID journalID after).map (scanEntry column)
        = pageAfter column db tenantID journalID after
          ++ (db.entriesAfter tenantID journalID last).map (scanEntry column) := by
  unfold pageAfter at hne ⊢
  have hsplit := take_append_drop maxLimit (db.entriesAfter tenantID journalID after)
  generalize (db.entriesAfter tenantID journalID after).take maxLimit = page at hne hsplit ⊢
  cases page using List.reverseRecOn with
  | nil => contradiction
  | append_singleton page r =>
    rw [append_assoc] at hsplit
    have hrest : db.entriesAfter tenantID journalID r.seq
        = (db.entriesAfter tenantID journalID after).drop maxLimit :=
      Paging.rows_eq_append h hsplit.symm
    refine ⟨r.seq, by simp [scanEntry], ?_⟩
    rw [hrest, ← map_append, append_assoc, hsplit]

theorem listJournalEntries_ok
    (h : listJournalEntries column db tenantID journalID after = .ok entries)
    : entries = pageAfter column db tenantID journalID after ∧ journalID ≠ [] := by
  unfold listJournalEntries at h
  split at h
  . cases h
  . next hne =>
    split at h
    . cases h
    . split at h
      . cases h
      . cases h
        exact ⟨rfl, fun hnil => hne (.inr hnil)⟩

end Pages

def Reads (host : Host) (db : Db) (tenantID journalID : Str) : VerifyPhase → Prop
  | .row => True
  | .labels _ p => ∃ row, db.journals.get? (tenantID, journalID) = some row ∧ Seen host row [] p
  | .page after p =>
    ∃ row read, db.journals.get? (tenantID, journalID) = some row ∧ Seen host row read p
    ∧ db.stored host.column tenantID journalID
      = read ++ (db.entriesAfter tenantID journalID after).map (scanEntry host.column)
  | .subjects entries p =>
    ∃ row read last, db.journals.get? (tenantID, journalID) = some row ∧ Seen host row read p
    ∧ entries.getLast?.map (·.seq) = some last
    ∧ db.stored host.column tenantID journalID
      = (read ++ entries) ++ (db.entriesAfter tenantID journalID last).map (scanEntry host.column)
  | .done (.ok r) => journalID ≠ [] ∧ ∃ row, db.journals.get? (tenantID, journalID) = some row
    ∧ (r.hashChainOK ↔ Verified host row (db.stored host.column tenantID journalID))
  | .done (.error _) => True

variable {phase : VerifyPhase}

theorem Reads.step (hkeyed : db.Keyed tenantID journalID)
    (h : Reads host db tenantID journalID phase)
    : Reads host db tenantID journalID (verifyStep host db tenantID journalID phase) := by
  cases phase with
  | row =>
    unfold verifyStep
    dsimp only
    split
    . trivial
    . next row hrow =>
      split
      . trivial
      . next expected p hread => exact ⟨row, hrow, readRow_ok hread⟩
  | labels expected p =>
    obtain ⟨row, hrow, hseen⟩ := h
    exact ⟨row, [], hrow, ⟨hseen.storedHead, hseen.chain⟩, rfl⟩
  | page after p =>
    obtain ⟨row, read, hrow, hseen, hstored⟩ := h
    unfold verifyStep
    dsimp only
    split
    . trivial
    . next entries hentries =>
      obtain ⟨rfl, hjournal⟩ := listJournalEntries_ok hentries
      cases hpage : pageAfter host.column db tenantID journalID after with
      | nil =>
        rw [entriesAfter_eq_nil hpage, map_nil, append_nil] at hstored
        refine ⟨hjournal, row, hrow, ?_⟩
        rw [hstored]
        exact hseen.result journalID
      | cons e entries =>
        obtain ⟨last, hlast, happend⟩ :=
          entriesAfter_eq_append hkeyed (hpage ▸ cons_ne_nil e entries)
        rw [hpage] at hlast happend
        refine ⟨row, read, last, hrow, hseen, hlast, ?_⟩
        rw [hstored, happend, append_assoc]
  | subjects entries p =>
    obtain ⟨row, read, last, hrow, hseen, hlast, hstored⟩ := h
    unfold verifyStep
    dsimp only
    split
    . trivial
    . next p' hpage =>
      refine ⟨row, read ++ entries, hrow, hseen.page hpage, ?_⟩
      rw [hlast]
      exact hstored
  | done result => exact h

theorem Reads.frame (hjournal : db'.journals.get? (tenantID, journalID) = db.journals.get? (tenantID, journalID))
    (hentries : db'.entriesOf tenantID journalID = db.entriesOf tenantID journalID)
    (h : Reads host db tenantID journalID phase)
    : Reads host db' tenantID journalID phase := by
  have hafter : db'.entriesAfter tenantID journalID = db.entriesAfter tenantID journalID := by
    funext after
    unfold Db.entriesAfter
    rw [hentries]
  have hstored : db'.stored host.column tenantID journalID
      = db.stored host.column tenantID journalID := by
    unfold Db.stored
    rw [hafter]
  unfold Reads at h ⊢
  rw [hjournal, hafter, hstored]
  exact h

section Done

def remaining (db : Db) (tenantID journalID : Str) : VerifyPhase → Nat
  | .row => 2 * (db.entriesAfter tenantID journalID 0).length + 3
  | .labels _ _ => 2 * (db.entriesAfter tenantID journalID 0).length + 2
  | .page after _ => 2 * (db.entriesAfter tenantID journalID after).length + 1
  | .subjects entries _ =>
    2 * (db.entriesAfter tenantID journalID ((entries.getLast?.map (·.seq)).getD 0)).length + 2
  | .done _ => 0

theorem remaining_step (host : Host) (hkeyed : db.Keyed tenantID journalID) (phase)
    : remaining db tenantID journalID (verifyStep host db tenantID journalID phase)
      ≤ remaining db tenantID journalID phase - 1 := by
  cases phase with
  | row =>
    unfold verifyStep
    dsimp only
    split
    . apply Nat.zero_le
    . split
      . apply Nat.zero_le
      . apply Nat.le_refl
  | labels expected p => apply Nat.le_refl
  | page after p =>
    unfold verifyStep
    dsimp only
    split
    . apply Nat.zero_le
    . next entries hentries =>
      obtain ⟨rfl, _⟩ := listJournalEntries_ok hentries
      cases hpage : pageAfter host.column db tenantID journalID after with
      | nil => apply Nat.zero_le
      | cons e entries =>
        obtain ⟨last, hlast, happend⟩ :=
          entriesAfter_eq_append hkeyed (hpage ▸ cons_ne_nil e entries)
        have hlen := congrArg List.length happend
        rw [hpage, length_append, length_map, length_map, length_cons] at hlen
        rw [hpage] at hlast
        unfold afterPage remaining
        dsimp only
        rw [hlast, Option.getD_some]
        omega
  | subjects entries p =>
    unfold verifyStep
    dsimp only
    split
    . apply Nat.zero_le
    . apply Nat.le_refl
  | done result => apply Nat.zero_le

theorem exists_done (h : remaining db tenantID journalID phase = 0)
    : ∃ result, phase = .done result := by
  cases phase with
  | done result => exact ⟨result, rfl⟩
  | row | labels expected p | page after p | subjects entries p => contradiction

theorem exists_iterate_eq_done (host : Host) (hkeyed : db.Keyed tenantID journalID)
    (h : remaining db tenantID journalID phase ≤ n)
    : ∃ result, (verifyStep host db tenantID journalID)^[n] phase = .done result := by
  induction n generalizing phase with
  | zero => exact exists_done (Nat.le_zero.mp h)
  | succ n ih =>
    rw [Function.iterate_succ_apply]
    apply ih
    have hstep := remaining_step host hkeyed phase
    omega

theorem exists_verifyJournal (host : Host) (hkeyed : db.Keyed tenantID journalID)
    : ∃ result, verifyJournal host db tenantID journalID = some result
      ∧ (verifyStep host db tenantID journalID)^[2 * db.entries.length + 3] .row
        = .done result := by
  have hlen : remaining db tenantID journalID .row ≤ 2 * db.entries.length + 3 := by
    have hrows : (db.entriesAfter tenantID journalID 0).length
        ≤ (db.entriesOf tenantID journalID).length :=
      Paging.length_rows_le ..
    have hof : (db.entriesOf tenantID journalID).length ≤ db.entries.length := length_filter_le ..
    dsimp only [remaining]
    omega
  obtain ⟨result, hresult⟩ := exists_iterate_eq_done host hkeyed hlen
  refine ⟨result, ?_, hresult⟩
  unfold verifyJournal
  rw [hresult]

end Done

theorem verifyJournal_ok (hkeyed : db.Keyed tenantID journalID)
    (h : verifyJournal host db tenantID journalID = some (.ok r))
    : journalID ≠ [] ∧ ∃ row, db.journals.get? (tenantID, journalID) = some row
      ∧ (r.hashChainOK ↔ Verified host row (db.stored host.column tenantID journalID)) := by
  obtain ⟨result, hverify, hdone⟩ := exists_verifyJournal host hkeyed
  have hreads : Reads host db tenantID journalID (.done result) := by
    rw [← hdone]
    exact Function.Iterate.rec (Reads host db tenantID journalID)
      (show Reads host db tenantID journalID .row from trivial) (fun _ h => h.step hkeyed) _
  rw [h] at hverify
  cases hverify
  exact hreads

end Journal
