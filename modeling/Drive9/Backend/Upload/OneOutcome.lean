import Drive9.Backend.Upload.Lemmas

/-!
This module contains the outcome of an upload session over every run.
-/

open Datastore

def UploadLabel.isRequest (l : UploadLabel) : Bool :=
  match l with
  | .other _ _ => false
  | _ => true

namespace UploadSession

open UploadPhase

variable {dirID : Str → ID} {s s' : UploadSession} {l : UploadLabel}

/--
What a step may do: a request commits a file only in the transaction that takes the row from
`UPLOADING` to `COMPLETED`, and no request touches the rows of a committed file or deletes its
object.
-/
structure OneOutcome (s : UploadSession) (l : UploadLabel) (s' : UploadSession) : Prop where
  commit_completes : ∀ r fileID key, s'.requests.get? r = some (.committed fileID key)
    → s.requests.get? r ≠ some (.committed fileID key)
    → s.status = some .uploading ∧ s'.status = some .completed
  committed_kept : l.isRequest → ∀ r fileID key, s.requests.get? r = some (.committed fileID key)
    → s'.db.files.get? fileID = s.db.files.get? fileID
      ∧ s'.db.inodes.get? fileID = s.db.inodes.get? fileID
      ∧ (key ∈ s.s3.objects → key ∈ s'.s3.objects)

theorem step_cases (h : step dirID s l = some s')
    : (∃ r req, s.requests.get? r = none ∧ s' = s.setPhase r (.getUpload req))
      ∨ (∃ r p, s.requests.get? r = some p ∧ (InTurn s l → MayAct s p) ∧ Effect s r p s')
      ∨ l.isRequest = false ∧ s'.requests = s.requests ∧ s'.status = s.status := by
  cases l with
  | start r req =>
    unfold step at h
    dsimp only at h
    split at h
    . contradiction
    . next hr =>
      cases h
      rw [Option.not_isSome_iff_eq_none] at hr
      exact .inl ⟨r, req, hr, rfl⟩
  | run r env =>
    obtain ⟨p, hp, hrun⟩ := Option.bind_eq_some_iff.mp h
    exact .inr (.inl ⟨r, p, hp, fun hok => hok p hp, .of_run hrun⟩)
  | fault r =>
    obtain ⟨p, hp, hfault⟩ := Option.bind_eq_some_iff.mp h
    exact .inr (.inl ⟨r, p, hp, fun hok => hok p hp, .of_fault hfault⟩)
  | other db s3 =>
    unfold step at h
    obtain ⟨hrow, rfl⟩ := Lts.of_guard h
    refine .inr (.inr ⟨rfl, rfl, ?_⟩)
    unfold status Db.uploadStatus
    rw [hrow]

theorem rowMove_step (h : step dirID s l = some s') : RowMove s.status s'.status := by
  obtain ⟨r, req, _, rfl⟩ | ⟨r, p, _, _, he⟩ | ⟨_, _, hst⟩ := step_cases h
  . exact .same _
  . exact he.rowMove
  . rw [hst]
    exact .same _

theorem Consistent.step (hinv : Consistent s) (hok : InTurn s l) (h : step dirID s l = some s')
    : Consistent s' := by
  obtain ⟨r, req, _, rfl⟩ | ⟨r, p, hp, hact, he⟩ | ⟨_, hreq, hst⟩ := step_cases h
  . exact hinv.setSame rfl rfl trivial
  . exact hinv.effect hp (hact hok) he
  . unfold Consistent
    rw [hreq, hst]
    exact hinv

section

variable (hreq : s'.requests = s.requests.set r q) (hq : ∀ fileID key, q ≠ .committed fileID key)

include hreq hq

theorem committed_of_set
    (h : s'.requests.get? r' = some (.committed fileID key))
    : s.requests.get? r' = some (.committed fileID key) := by
  rw [hreq, FMap.get?_set] at h
  split at h
  . cases h
    exact absurd rfl (hq fileID key)
  . exact h

theorem OneOutcome.of_frame
    (hfiles : s'.db.files = s.db.files) (hinodes : s'.db.inodes = s.db.inodes)
    (hs3 : s.s3.objects ⊆ s'.s3.objects)
    : OneOutcome s l s' := by
  constructor
  . intro r' fileID key hnew hold
    exact absurd (committed_of_set hreq hq hnew) hold
  . intro _ r' fileID key _
    rw [hfiles, hinodes]
    exact ⟨rfl, rfl, fun hkey => hs3 hkey⟩

end

theorem OneOutcome.of_not_completed (hinv : Consistent s) (hst : s.status ≠ some .completed)
    (hreq : s'.requests = s.requests.set r q) (hq : ∀ fileID key, q ≠ .committed fileID key)
    : OneOutcome s l s' := by
  constructor
  . intro r' fileID key hnew hold
    exact absurd (committed_of_set hreq hq hnew) hold
  . intro _ r' fileID key hcommitted
    exact absurd (hinv r' _ hcommitted) hst

theorem Consistent.oneOutcome_of_effect (hinv : Consistent s) (hp : s.requests.get? r = some p)
    (hok : MayAct s p) (he : Effect s r p s')
    : OneOutcome s l s' := by
  have hfits := hinv r p hp
  cases he with
  | goes hs3 hq => exact .of_frame rfl (hq hfits).2 rfl rfl hs3
  | fails hp | presigns hst =>
    exact .of_frame rfl (fun _ _ hc => by contradiction) rfl rfl (Finset.Subset.refl _)
  | commits hp hdb =>
    subst hp
    rw [hok.1] at hdb
    constructor
    . intro _ _ _ _ _
      exact ⟨hok.1, hdb⟩
    . intro _ r' fileID key hcommitted
      have hcompleted : s.status = some .completed := hinv r' _ hcommitted
      rw [hok.1] at hcompleted
      contradiction
  | destroys hne hdb hq => exact .of_not_completed hinv (hne hfits) rfl (hq hfits).2
  | aborts hold hq =>
    refine .of_frame rfl (hq hfits ?_).2 rfl rfl (Finset.Subset.refl _)
    intro ret upload heq
    subst heq
    exact hok

theorem Consistent.oneOutcome (hinv : Consistent s) (hok : InTurn s l)
    (h : UploadSession.step dirID s l = some s')
    : OneOutcome s l s' := by
  obtain ⟨r, req, _, rfl⟩ | ⟨r, p, hp, hact, he⟩ | ⟨hl, hreq, _⟩ := step_cases h
  . exact .of_frame rfl (fun _ _ hc => by contradiction) rfl rfl (Finset.Subset.refl _)
  . exact hinv.oneOutcome_of_effect hp (hact hok) he
  . constructor
    . intro r' fileID key hnew hold
      rw [hreq] at hnew
      exact absurd hnew hold
    . intro hl'
      rw [hl] at hl'
      contradiction

/--
In every run in which no finalize transaction runs on a session that another request has closed or
is cleaning up, and no v2 abort updates a row that is completed: a request that has run the update
closing the row leaves it closed, the row then keeps its status for ever, and every step has one
outcome.
-/
theorem runs_have_one_outcome {s0 : UploadSession} (hfresh : ∀ r, s0.requests.get? r = none)
    {labels : List UploadLabel} (hok : Lts.Along (UploadSession.step dirID) InTurn s0 labels)
    (hexec : Lts.exec (UploadSession.step dirID) s0 labels = some s)
    : (∀ r p, s.requests.get? r = some p → p.closed → RowClosed s.status)
      ∧ (∀ before after s1 st, labels = before ++ after
          → Lts.exec (UploadSession.step dirID) s0 before = some s1 → s1.status = some st
          → st.terminal
          → s.status = some st)
      ∧ ∀ before l after s1 s2, labels = before ++ l :: after
          → Lts.exec (UploadSession.step dirID) s0 before = some s1
          → UploadSession.step dirID s1 l = some s2 → OneOutcome s1 l s2 := by
  have hinv0 : Consistent s0 := by
    intro r p hp
    rw [hfresh r] at hp
    contradiction
  have hstep : ∀ s l s', Consistent s → InTurn s l → UploadSession.step dirID s l = some s'
      → Consistent s' :=
    fun s l s' hinv hok h => hinv.step hok h
  refine ⟨?_, ?_, ?_⟩
  . intro r p hp hclosed
    exact (Lts.exec_invariant InTurn Consistent hstep hinv0 hok hexec r p hp).rowClosed hclosed
  . intro before after s1 st hsplit hbefore hst hterm
    subst hsplit
    rw [Lts.exec_append, hbefore, Option.bind_some] at hexec
    obtain ⟨_, hafter⟩ := Lts.along_append hok hbefore
    -- From here on the status is an invariant of its own.
    apply Lts.exec_invariant InTurn (fun s => s.status = some st) _ hst hafter hexec
    intro t l t' ht _ htstep
    have hmove := rowMove_step htstep
    rw [ht] at hmove
    exact hmove.terminal hterm
  . intro before l after s1 s2 hsplit hbefore hl
    subst hsplit
    obtain ⟨hpre, hafter⟩ := Lts.along_append hok hbefore
    exact (Lts.exec_invariant InTurn Consistent hstep hinv0 hpre hbefore).oneOutcome hafter.1 hl

def sample : UploadSession where
  uploadID := ['u']
  db :=
    { useLegacyFiles := false
      fileNodes := []
      files := .empty
      inodes := FMap.empty.set ['f'] ⟨8, 1, .pending⟩
      contents := FMap.empty.set ['f'] ⟨.s3, ['k']⟩
      uploads := FMap.empty.set ['u']
        { fileID := ['f']
          targetPath := ['/', 'a']
          s3Key := ['k']
          totalSize := 8
          partSize := 8
          partsTotal := 1
          expectedRevision := none
          status := .uploading
          expiresAt := 100 } }
  s3 := { multipart := true, objects := ∅ }
  requests := .empty

def sampleEnv : UploadEnv where
  now := 1
  parts := [⟨1, 8, ['e']⟩]
  genID := ['n']

def confirmSteps (r : Nat) : List UploadLabel :=
  [.start r .confirm, .run r sampleEnv, .run r sampleEnv, .run r sampleEnv]

def overlap : List UploadLabel :=
  [.start 3 .abort, .run 3 sampleEnv] ++ confirmSteps 1 ++ confirmSteps 2
    ++ [.run 1 sampleEnv, .run 3 sampleEnv, .run 3 sampleEnv]

-- Two confirms and an abort overlap; the second confirm and the abort come too late.
theorem runs_have_one_outcome_overlap
    : Lts.Along (UploadSession.step id) InTurn sample overlap
      ∧ ∃ s, Lts.exec (UploadSession.step id) sample overlap = some s
        ∧ s.requests.get? 1 = some (.committed ['f'] ['k']) ∧ RowClosed s.status := by
  have hok : Lts.Along (UploadSession.step id) InTurn sample overlap := by decide
  refine ⟨hok, _, rfl, rfl, ?_⟩
  exact (runs_have_one_outcome (fun _ => rfl) hok rfl).1 1 _ rfl rfl

/--
A confirm that loses deletes the object and the file of the confirm that won, and a confirm commits
the file of an upload that was aborted.
-/
theorem lost_confirm_destroys_committed_file
    : (∃ s, Lts.exec (UploadSession.step id) sample
          (confirmSteps 1 ++ confirmSteps 2
            ++ [.run 1 sampleEnv, .run 2 sampleEnv, .run 2 sampleEnv, .run 2 sampleEnv, .run 2 sampleEnv]) = some s
        ∧ s.status = some .completed
        ∧ s.requests.get? 1 = some (.committed ['f'] ['k'])
        ∧ s.db.inodes.get? ['f'] = some ⟨8, 1, .deleted⟩
        ∧ ['k'] ∉ s.s3.objects)
      ∧ ∃ s, Lts.exec (UploadSession.step id) sample
          (confirmSteps 1 ++ [.start 2 .abort, .run 2 sampleEnv, .run 2 sampleEnv, .run 2 sampleEnv, .run 1 sampleEnv])
          = some s
        ∧ s.status = some .aborted
        ∧ s.requests.get? 1 = some (.committed ['f'] ['k']) := by
  refine ⟨⟨_, rfl, rfl, rfl, rfl, ?_⟩, ⟨_, rfl, rfl, rfl⟩⟩
  decide

end UploadSession
