import Drive9.Journal.Untampered

/-!
This module contains the reads of `VerifyJournal` with other calls in between.
-/

namespace Journal

variable {host : Host} {db db' : Db} {tenantID journalID : Str}

section Interleaved

inductive Move where
  | call (c : Call)
  | verify

def moveStep (host : Host) (tenantID journalID : Str) (s : Db × VerifyPhase) (m : Move)
    : Option (Db × VerifyPhase) :=
  match m with
  | .call c => some (c.run host s.1, s.2)
  | .verify => some (s.1, verifyStep host s.1 tenantID journalID s.2)

def VerifyPhase.idle : VerifyPhase → Bool
  | row => true
  | done _ => true
  | _ => false

section Undisturbed

variable (column : JsonColumn) (tenantID journalID : Str) (s : Db × VerifyPhase)

def CreatesPlain (env : Env) (t : Str) (req : CreateRequest) : Prop :=
  t = tenantID → journalIDOf env req = journalID → PlainRetention column req.retention

instance (env : Env) (t : Str) (req : CreateRequest)
    : Decidable (CreatesPlain column tenantID journalID env t req) :=
  inferInstanceAs (Decidable (_ → _ → _))

def AppendsKept (phase : VerifyPhase) (req : AppendRequest) : Prop :=
  req.tenantID = tenantID → req.journalID = journalID
    → phase.idle ∧ ∀ entry ∈ req.entries, column.Keeps entry.summary

instance (phase : VerifyPhase) (req : AppendRequest)
    : Decidable (AppendsKept column tenantID journalID phase req) :=
  inferInstanceAs (Decidable (_ → _ → _))

/--
Nothing is appended to the journal while it is verified, and the numbers it is created with and
those that are appended are read again as they are spelled.
-/
def Undisturbed (m : Move) : Prop :=
  match m with
  | .call (.create env t req) => CreatesPlain column tenantID journalID env t req
  | .call (.append _ req) => AppendsKept column tenantID journalID s.2 req
  | .verify => True

instance (m : Move) : Decidable (Undisturbed column tenantID journalID s m) := by
  unfold Undisturbed
  split <;> infer_instance

end Undisturbed

def Found (host : Host) (db : Db) (tenantID journalID : Str) : Prop :=
  ∀ row, db.journals.get? (tenantID, journalID) = some row → genesisHashAgain host row = .ok row.genesisHash

def Kept (host : Host) (db : Db) (tenantID journalID : Str) : Prop :=
  ∀ r ∈ db.entriesOf tenantID journalID, entryHash host (scanEntry host.column r) = .ok r.entryHash

structure Quiet (host : Host) (tenantID journalID : Str) (s : Db × VerifyPhase) : Prop where
  consistent : Consistent host s.1
  found : Found host s.1 tenantID journalID
  kept : Kept host s.1 tenantID journalID
  reads : s.2.idle = false → Reads host s.1 tenantID journalID s.2
  result : ∀ r, s.2 = .done (.ok r) → r.hashChainOK

variable {row : JournalRow}

theorem Found.effect (h : Found host db tenantID journalID) (he : Effect host db db')
    (hrow : db.journals.get? (tenantID, journalID) = some row)
    : Found host db' tenantID journalID := by
  intro row' hrow'
  obtain ⟨row'', hrow'', hgenesis, hhash⟩ := he.journal hrow
  rw [hrow''] at hrow'
  cases hrow'
  have hagain := h row hrow
  unfold genesisHashAgain at hagain ⊢
  rw [hgenesis, hhash]
  exact hagain

theorem Consistent.keyed (hc : Consistent host db) (tenantID journalID)
    : db.Keyed tenantID journalID := by
  cases hrow : db.journals.get? (tenantID, journalID) with
  | some row => exact (hc.chained tenantID journalID row hrow).keyed
  | none =>
    unfold Db.Keyed
    rw [entriesOf_of_absent hc hrow]
    exact List.nodup_nil

variable {phase : VerifyPhase}

theorem Reads.exists_row (h : Reads host db tenantID journalID phase) (hphase : phase.idle = false)
    : ∃ row, db.journals.get? (tenantID, journalID) = some row := by
  cases phase with
  | row | done result => contradiction
  | labels expected p =>
    obtain ⟨row, hrow, _⟩ := h
    exact ⟨row, hrow⟩
  | page after p =>
    obtain ⟨row, read, hrow, _⟩ := h
    exact ⟨row, hrow⟩
  | subjects entries p =>
    obtain ⟨row, read, last, hrow, _⟩ := h
    exact ⟨row, hrow⟩

theorem Quiet.verify (h : Quiet host tenantID journalID (db, phase))
    : Quiet host tenantID journalID (db, verifyStep host db tenantID journalID phase) := by
  -- at the end nothing is done; otherwise the reads fit the tables as they are
  have hcases : (∃ result, phase = .done result) ∨ Reads host db tenantID journalID phase := by
    cases phase with
    | row => exact .inr trivial
    | done result => exact .inl ⟨result, rfl⟩
    | labels expected p | page after p | subjects entries p => exact .inr (h.reads rfl)
  cases hcases with
  | inl hdone =>
    obtain ⟨result, rfl⟩ := hdone
    exact h
  | inr hreads =>
    have hstep := hreads.step (h.consistent.keyed tenantID journalID)
    refine ⟨h.consistent, h.found, h.kept, fun _ => hstep, ?_⟩
    intro r hr
    dsimp only at hr
    rw [hr] at hstep
    obtain ⟨_, row, hrow, hiff⟩ := hstep
    exact hiff.mpr ⟨h.found row hrow, (h.consistent.chained _ _ row hrow).intact h.kept⟩

structure SameJournal (tenantID journalID : Str) (db db' : Db) : Prop where
  journal : db'.journals.get? (tenantID, journalID) = db.journals.get? (tenantID, journalID)
  entries : db'.entriesOf tenantID journalID = db.entriesOf tenantID journalID

variable {env : Env}

theorem Created.other (h : Created host env t req row db db')
    (hne : (tenantID, journalID) ≠ (t, journalIDOf env req))
    : SameJournal tenantID journalID db db' := by
  obtain ⟨req', hprepare, _, labels, rfl⟩ := h.prepared
  refine ⟨?_, rfl⟩
  rw [(prepareCreate_journalID hprepare).1, FMap.get?_set, if_neg hne]

theorem Appended.other (h : Appended host env req response row inserted db db')
    (hne : (tenantID, journalID) ≠ (req.tenantID, req.journalID))
    : SameJournal tenantID journalID db db' := by
  refine ⟨?_, ?_⟩
  . obtain ⟨normalized, hash, _, _, _, _, rows, _, rfl⟩ := h.prepared
    rw [FMap.get?_set, if_neg hne]
  . rw [h.entriesOf, if_neg hne, List.append_nil]

section

variable (h : Quiet host tenantID journalID (db, phase))

include h

theorem Quiet.frame (hsame : SameJournal tenantID journalID db db') (hc : Consistent host db')
    : Quiet host tenantID journalID (db', phase) := by
  refine ⟨hc, ?_, ?_, fun hphase => (h.reads hphase).frame hsame.journal hsame.entries, h.result⟩
  . unfold Found
    rw [hsame.journal]
    exact h.found
  . unfold Kept
    rw [hsame.entries]
    exact h.kept

theorem Quiet.create (hok : CreatesPlain host.column tenantID journalID env t req)
    : Quiet host tenantID journalID ((Call.create env t req).run host db, phase) := by
  cases Call.create_cases db env t req with
  | inl hsame =>
    rw [hsame]
    exact h
  | inr hcreated =>
    obtain ⟨row, hcreated⟩ := hcreated
    have hc := h.consistent.effect (.created hcreated)
    by_cases hkey : (tenantID, journalID) = (t, journalIDOf env req)
    . cases hkey
      obtain ⟨row', doc, hrow', hfounded⟩ := hcreated.foundedBy
      have hagain := hfounded.genesis.again (hfounded.plain.mpr (hok rfl rfl))
      refine ⟨hc, ?_, ?_, ?_, h.result⟩
      . intro row'' hrow''
        rw [hrow'] at hrow''
        cases hrow''
        exact hagain
      . have hentries : ((Call.create env tenantID req).run host db).entries = db.entries := by
          obtain ⟨req', _, _, labels, heq⟩ := hcreated.prepared
          rw [heq]
        unfold Kept Db.entriesOf
        rw [hentries]
        exact h.kept
      . -- the journal was not there to be read
        intro hphase
        obtain ⟨row, hrow⟩ := (h.reads hphase).exists_row hphase
        obtain ⟨req', hprepare, habsent, _⟩ := hcreated.prepared
        rw [(prepareCreate_journalID hprepare).1, hrow] at habsent
        contradiction
    . exact h.frame (hcreated.other hkey) hc

theorem Quiet.append (hok : AppendsKept host.column tenantID journalID phase req)
    : Quiet host tenantID journalID ((Call.append env req).run host db, phase) := by
  cases Call.append_cases db env req with
  | inl hsame =>
    rw [hsame]
    exact h
  | inr happended =>
    obtain ⟨response, row, inserted, happended⟩ := happended
    have hc := h.consistent.effect (.appended happended)
    by_cases hkey : (tenantID, journalID) = (req.tenantID, req.journalID)
    . cases hkey
      refine ⟨hc, h.found.effect (.appended happended) happended.journal, ?_, ?_, h.result⟩
      . intro r hr
        rw [happended.entriesOf, if_pos rfl] at hr
        cases List.mem_append.mp hr with
        | inl hr => exact h.kept r hr
        | inr hr =>
          obtain ⟨e, he, rfl⟩ := List.mem_map.mp hr
          exact (happended.makes.built e he).entryHash_read (hok rfl rfl).2
            (happended.makes.hashes e he)
      . intro hphase
        rw [(hok rfl rfl).1] at hphase
        contradiction
    . exact h.frame (happended.other hkey) hc

end

theorem Quiet.move (h : Quiet host tenantID journalID s)
    (hok : Undisturbed host.column tenantID journalID s m)
    (hstep : moveStep host tenantID journalID s m = some s')
    : Quiet host tenantID journalID s' := by
  cases m with
  | verify =>
    cases hstep
    exact h.verify
  | call c =>
    cases hstep
    cases c with
    | create env t req => exact h.create hok
    | append env req => exact h.append hok

end Interleaved

/--
In every interleaving of calls with the reads of a verification in which nothing is appended to the
journal between the first read and the last, and in which the numbers it was created with and those
that were appended are read again as they are spelled, there is no alarm.
-/
theorem undisturbed_verification_raises_no_alarm {moves : List Move} {db : Db} {r : VerifyResult}
    (hok : Lts.Along (moveStep host tenantID journalID) (Undisturbed host.column tenantID journalID) (.empty, .row)
      moves)
    (hexec : Lts.exec (moveStep host tenantID journalID) (.empty, .row) moves = some (db, .done (.ok r)))
    : r.hashChainOK := by
  have hinit : Quiet host tenantID journalID (.empty, .row) :=
    ⟨consistent_empty, fun row hrow => absurd hrow (by simp [Db.empty]), fun r hr => absurd hr List.not_mem_nil,
      fun h => absurd h (by decide), fun r hr => absurd hr (by simp)⟩
  have hquiet :=
    Lts.exec_invariant (Undisturbed host.column tenantID journalID) (Quiet host tenantID journalID)
    (fun _ _ _ h hok hstep => h.move hok hstep) hinit hok hexec
  exact hquiet.result r rfl

section Sample

def sampleMoves (late : Call) : List Move :=
  [.call (.create (sampleEnv 0) "t".toList (sampleCreate "30")),
    .call (.append (sampleEnv 0) (sampleAppend "a1" ["1.0"])), .verify, .verify, .call late, .verify, .verify, .verify]

def alarm (s : Option (Db × VerifyPhase)) : Option Bool :=
  match s with
  | some (_, .done (.ok r)) => some (!r.hashChainOK)
  | _ => none

theorem exists_of_alarm (h : alarm s = some a)
    : ∃ db r, s = some (db, .done (.ok r)) ∧ r.hashChainOK = !a := by
  unfold alarm at h
  split at h
  . next db r =>
    cases h
    exact ⟨db, r, rfl, (Bool.not_not _).symm⟩
  . contradiction

end Sample

theorem undisturbed_verification_raises_no_alarm_other
    : ∃ db r, Lts.exec (moveStep sampleHost "t".toList "log".toList) (.empty, .row)
          (sampleMoves (.create (sampleEnv 4) "t".toList { sampleCreate "1.0" with journalID := "other".toList }))
        = some (db, .done (.ok r)) ∧ r.hashChainOK := by
  obtain ⟨db, r, hexec, _⟩ := exists_of_alarm
    (show alarm (Lts.exec (moveStep sampleHost "t".toList "log".toList) (.empty, .row)
      (sampleMoves (.create (sampleEnv 4) "t".toList { sampleCreate "1.0" with journalID := "other".toList })))
      = some false by decide +kernel)
  refine ⟨db, r, hexec, undisturbed_verification_raises_no_alarm ?_ hexec⟩
  decide +kernel

theorem append_between_reads_raises_alarm
    : alarm (Lts.exec (moveStep sampleHost "t".toList "log".toList) (.empty, .row)
        (sampleMoves (.append (sampleEnv 4) (sampleAppend "a2" ["2"])))) = some true := by
  decide +kernel

end Journal
