import Drive9.Backend.Upload.Session
import Drive9.Datastore.Lemmas

/-!
This module contains the proof that an upload session has one outcome.
-/

open Datastore Transaction

namespace Backend

variable (dirID : Str → ID) (uploadID : ID) (upload : Upload)

theorem keeps_overwriteTx (existingFileID)
    : Keeps (Db.uploadStatus · uploadID) (overwriteTx uploadID upload existingFileID) := by
  apply Keeps.bind (.require _ _)
  intro _
  apply Keeps.bind
  . apply Keeps.tryCatch
    . exact keeps_uploadStatus (keeps_getFileStorageMetaForUpdateTx _) uploadID
    . intro err
      exact .throw _
  . intro storageMeta
    apply Keeps.bind (.require _ _)
    intro _
    apply Keeps.bind (keeps_uploadStatus (keeps_updateFileContentTx _ _ _ _ _) uploadID)
    intro _
    apply Keeps.bind (keeps_uploadStatus (keeps_deletePendingFileTx _) uploadID)
    intro _
    exact .bind (keeps_setUploadFileID _ _) fun _ => .pure _

theorem keeps_createTx (nodeID) : Keeps (Db.uploadStatus · uploadID) (createTx upload nodeID) := by
  apply keeps_uploadStatus
  apply Keeps.bind (.require _ _)
  intro _
  apply Keeps.bind (keeps_confirmPendingFileTx _ _ _ _)
  intro _
  apply Keeps.bind
  . apply Keeps.tryCatch (keeps_insertNodeTx _)
    intro err
    exact .throw _
  . intro _
    exact .pure _

theorem keeps_attachTx (nodeID)
    : Keeps (Db.uploadStatus · uploadID) (attachTx dirID uploadID upload nodeID) := by
  apply Keeps.bind (keeps_uploadStatus (keeps_ensureParentDirsTx _ _) uploadID)
  intro _
  apply Keeps.bind .get
  intro db
  split
  . exact keeps_overwriteTx uploadID upload _
  . exact keeps_createTx uploadID upload nodeID

theorem uploadStatus_finalizeTx (h : finalizeTx dirID uploadID upload nodeID db = .ok (fileID, db'))
    : db'.uploadStatus uploadID
        =
      (db.uploadStatus uploadID).map fun st => if st ∈ [.uploading] then .completed else st := by
  obtain ⟨_, db1, hcomplete, h⟩ := of_bind h
  cases hcomplete
  rw [← Db.uploadStatus_transitionUpload]
  exact keeps_attachTx dirID uploadID upload nodeID _ _ _ h

end Backend

inductive RowMove : Option UploadStatus → Option UploadStatus → Prop where
  | same (st : Option UploadStatus) : RowMove st st
  | upload : RowMove (some .initiated) (some .uploading)
  | abort {st} (h : st = .initiated ∨ st = .uploading) : RowMove (some st) (some .aborted)
  | complete : RowMove (some .uploading) (some .completed)

variable {st st' : Option UploadStatus}

namespace RowMove

theorem of_abort (old : List UploadStatus) (hold : ∀ st ∈ old, st = .initiated ∨ st = .uploading)
    (st)
    : RowMove st (st.map fun st => if st ∈ old then .aborted else st) := by
  cases st with
  | none => exact .same none
  | some st =>
    rw [Option.map_some]
    split
    . next h => exact .abort (hold st h)
    . exact .same _

theorem terminal {st : UploadStatus} (h : RowMove (some st) st') (hst : st.terminal)
    : st' = some st := by
  cases h with
  | same => rfl
  | upload | complete => contradiction
  | abort h =>
    cases h with
    | inl h | inr h => rw [h] at hst; contradiction

end RowMove

def RowClosed (st : Option UploadStatus) : Prop := ∃ x, st = some x ∧ x.terminal

def RowStarted (st : Option UploadStatus) : Prop := ∃ x, st = some x ∧ x ≠ .initiated

namespace UploadPhase

def Fits (st : Option UploadStatus) (p : UploadPhase) : Prop :=
  match p with
  | .getUpload _ => True
  | .listParts _ _ => RowStarted st
  | .completeMultipart _ => RowStarted st
  | .finalizeTx _ => RowStarted st
  | .deleteBlob _ _ => st.isSome ∧ st ≠ some .completed
  | .abortMetadata _ _ => st.isSome ∧ st ≠ some .completed
  | .markLegacyFile (.cleanup _) closed _ => st ≠ some .completed ∧ (closed → RowClosed st)
  | .markInode (.cleanup _) closed _ => st ≠ some .completed ∧ (closed → RowClosed st)
  | .markLegacyFile (.abortV2 _) _ _ => st ≠ some .completed ∧ RowClosed st
  | .markInode (.abortV2 _) _ _ => st ≠ some .completed ∧ RowClosed st
  | .abortMultipart false _ _ => RowStarted st
  | .abortMultipart true _ _ => st.isSome
  | .abortRow false _ _ => RowStarted st
  | .abortRow true _ _ => st.isSome
  | .transition _ => True
  | .refresh => True
  | .committed _ _ => st = some .completed
  | .returned closed _ => closed → RowClosed st

def cleaning (p : UploadPhase) : Bool :=
  match p with
  | .deleteBlob _ _ => true
  | .abortMetadata _ _ => true
  | .markLegacyFile (.cleanup _) _ _ => true
  | .markInode (.cleanup _) _ _ => true
  | _ => false

def closed (p : UploadPhase) : Bool :=
  match p with
  | .committed _ _ => true
  | .returned closed _ => closed
  | _ => false

end UploadPhase

theorem RowClosed.move (h : RowClosed st) (hmove : RowMove st st') : st' = st := by
  obtain ⟨x, rfl, hx⟩ := h
  exact hmove.terminal hx

theorem RowStarted.move (h : RowStarted st) (hmove : RowMove st st') : RowStarted st' := by
  obtain ⟨x, rfl, hx⟩ := h
  cases hmove with
  | same => exact ⟨x, rfl, hx⟩
  | upload => contradiction
  | abort => exact ⟨.aborted, rfl, by decide⟩
  | complete => exact ⟨.completed, rfl, by decide⟩

theorem RowMove.isSome (hmove : RowMove st st') (h : st.isSome) : st'.isSome := by
  cases hmove with
  | same => exact h
  | upload | abort | complete => rfl

variable {p q : UploadPhase}

namespace UploadPhase

theorem ne_completed_of_move (h : st ≠ some .completed) (hne : st ≠ st' → st' ≠ some .completed)
    : st' ≠ some .completed := by
  by_cases heq : st = st'
  . rw [← heq]
    exact h
  . exact hne heq

theorem Fits.move (h : p.Fits st) (hmove : RowMove st st')
    (hclean : p.cleaning → st ≠ st' → st' ≠ some .completed)
    : p.Fits st' := by
  cases p with
  | getUpload | transition | refresh => trivial
  | listParts | completeMultipart | finalizeTx => exact RowStarted.move h hmove
  | deleteBlob | abortMetadata => exact ⟨hmove.isSome h.1, ne_completed_of_move h.2 (hclean rfl)⟩
  | markLegacyFile caller | markInode caller =>
    cases caller with
    | cleanup =>
      refine ⟨ne_completed_of_move h.1 (hclean rfl), ?_⟩
      intro hc
      rw [RowClosed.move (h.2 hc) hmove]
      exact h.2 hc
    | abortV2 =>
      rw [RowClosed.move h.2 hmove]
      exact h
  | abortMultipart v2 | abortRow v2 =>
    cases v2 with
    | true => exact hmove.isSome h
    | false => exact RowStarted.move h hmove
  | committed =>
    rw [Fits] at *
    rw [h] at hmove
    exact hmove.terminal rfl
  | returned closed =>
    intro hc
    rw [RowClosed.move (h hc) hmove]
    exact h hc

theorem Fits.rowClosed (h : p.Fits st) (hp : p.closed) : RowClosed st := by
  cases p with
  | committed => exact ⟨.completed, h, rfl⟩
  | returned closed => exact h hp
  | _ => contradiction

end UploadPhase

namespace UploadPhase

def Goes (st : Option UploadStatus) (q : UploadPhase) : Prop :=
  q.Fits st ∧ ∀ fileID key, q ≠ .committed fileID key

theorem Goes.returned (st : Option UploadStatus) (err : Option UploadError)
    : Goes st (.returned false err) := by
  refine ⟨?_, ?_⟩
  . intro hc
    contradiction
  . intro _ _ hc
    contradiction

def sawUploading (q : UploadPhase) : Bool :=
  match q with
  | .listParts _ _ => true
  | .completeMultipart _ => true
  | .finalizeTx _ => true
  | .abortMultipart v2 _ _ => !v2
  | .abortRow v2 _ _ => !v2
  | _ => false

theorem Goes.started (h : RowStarted st) (hq : q.sawUploading) : Goes st q := by
  cases q with
  | listParts | completeMultipart | finalizeTx => exact ⟨h, fun _ _ hc => by contradiction⟩
  | abortMultipart v2 | abortRow v2 =>
    cases v2 with
    | true => contradiction
    | false => exact ⟨h, fun _ _ hc => by contradiction⟩
  | _ => contradiction

end UploadPhase

variable {s s' : UploadSession} {closed : Bool}

namespace UploadSession

open UploadPhase

theorem status_of_getUpload (h : s.db.getUpload s.uploadID = .ok upload)
    : s.status = some upload.status := by
  unfold Db.getUpload at h
  unfold status Db.uploadStatus
  cases hu : s.db.uploads.get? s.uploadID with
  | none =>
    rw [hu] at h
    contradiction
  | some u =>
    rw [hu] at h
    cases h
    rfl

theorem goes_notLoaded (st) (req) (err) : Goes st (notLoaded req err) := by
  unfold notLoaded
  split
  . exact .returned _ _
  . exact .returned _ _

theorem goes_abortExpired (st) : Goes st abortExpired := by
  exact ⟨trivial, fun _ _ hc => by contradiction⟩

theorem goes_loaded (req) (upload : Upload) (env)
    : Goes (some upload.status) (loaded req upload env) := by
  have hstarted : ¬ upload.status ≠ .uploading → RowStarted (some upload.status) := by
    intro h
    rw [not_not.mp h]
    exact ⟨.uploading, rfl, by decide⟩
  unfold loaded
  split
  . split
    . exact .returned _ _
    . next h => exact .started (hstarted h) rfl
  . split
    . exact .returned _ _
    . next h =>
      split
      . exact goes_abortExpired _
      . split
        . exact .returned _ _
        . exact .started (hstarted h) rfl
  . split
    . exact .returned _ _
    . next h => exact .started (hstarted h) rfl
  . split
    . exact .returned _ _
    . exact ⟨rfl, fun _ _ hc => by contradiction⟩
  . split
    . exact .returned _ _
    . next h =>
      split
      . exact .started (hstarted h) rfl
      . exact .returned _ _
  . split
    . exact .returned _ _
    . split
      . exact goes_abortExpired _
      . split
        . exact .returned _ _
        . exact ⟨trivial, fun _ _ hc => by contradiction⟩

theorem goes_refreshed (st) (upload) (env) : Goes st (refreshed upload env) := by
  unfold refreshed
  split
  . exact .returned _ _
  . split
    . exact .returned _ _
    . split
      . exact goes_abortExpired _
      . exact .returned _ _

theorem goes_listed (h : RowStarted st) (clientParts) (upload) (parts)
    : Goes st (listed clientParts upload parts) := by
  unfold listed
  dsimp only
  split
  . exact .returned _ _
  . exact .started h rfl

theorem goes_marked (caller) (h : closed → RowClosed st) : Goes st (marked caller closed) := by
  cases caller with
  | cleanup err | abortV2 ret => exact ⟨h, fun _ _ hc => by contradiction⟩

theorem goes_mark_cleanup (s : UploadSession) (err) (upload) (hne : st ≠ some .completed)
    (h : closed → RowClosed st)
    : Goes st (s.mark (.cleanup err) closed upload) := by
  unfold mark
  split
  . exact goes_marked _ h
  . split
    all_goals exact ⟨⟨hne, h⟩, fun _ _ hc => by contradiction⟩

theorem goes_mark_abortV2 (s : UploadSession) (ret) (upload) (hne : st ≠ some .completed)
    (h : RowClosed st)
    : Goes st (s.mark (.abortV2 ret) true upload) := by
  unfold mark
  split
  . exact goes_marked _ fun _ => h
  . split
    all_goals exact ⟨⟨hne, h⟩, fun _ _ hc => by contradiction⟩

end UploadSession

namespace UploadSession

open UploadPhase

def abortedRow (old : List UploadStatus) (st : Option UploadStatus) : Option UploadStatus :=
  st.map fun st => if st ∈ old then .aborted else st

theorem abortedRow_ne_completed (h : st ≠ some .completed)
    : abortedRow old st ≠ some .completed := by
  unfold abortedRow
  cases st with
  | none => exact h
  | some st =>
    rw [Option.map_some]
    split
    . intro hc
      cases hc
    . exact h

theorem abortedRow_ne_completed_of_ne (h : st ≠ abortedRow old st)
    : abortedRow old st ≠ some .completed := by
  intro hc
  by_cases hst : st = some .completed
  . rw [hc] at h
    exact h hst
  . exact abortedRow_ne_completed hst hc

theorem rowClosed_abortedRow_v1 (h : RowStarted st) : RowClosed (abortedRow [.uploading] st) := by
  obtain ⟨x, rfl, hx⟩ := h
  cases x with
  | initiated => contradiction
  | uploading | aborted => exact ⟨.aborted, rfl, rfl⟩
  | completed => exact ⟨.completed, rfl, rfl⟩
  | expired => exact ⟨.expired, rfl, rfl⟩

theorem rowClosed_abortedRow_v2 (h : st.isSome)
    : RowClosed (abortedRow [.initiated, .uploading] st) := by
  obtain ⟨x, rfl⟩ := Option.isSome_iff_exists.mp h
  cases x with
  | initiated | uploading | aborted => exact ⟨.aborted, rfl, rfl⟩
  | completed => exact ⟨.completed, rfl, rfl⟩
  | expired => exact ⟨.expired, rfl, rfl⟩

inductive Effect (s : UploadSession) (r : Nat) (p : UploadPhase) : UploadSession → Prop where
  -- It goes on with what it has; S3 may gain the object.
  | goes {q s3} (hs3 : s.s3.objects ⊆ s3.objects)
      (hq : p.Fits s.status → q.Goes s.status)
      : Effect s r p { s.setPhase r q with s3 := s3 }
  | fails {upload err} (hp : p = .finalizeTx upload)
      : Effect s r p (s.setPhase r (.deleteBlob upload err))
  | commits {upload fileID db} (hp : p = .finalizeTx upload)
      (hdb : db.uploadStatus s.uploadID = s.status.map fun st => if st ∈ [.uploading] then .completed else st)
      : Effect s r p { s.setPhase r (.committed fileID upload.s3Key) with db := db }
  -- It deletes the object or marks the file deleted.
  | destroys {q db s3} (hp : p.Fits s.status → s.status ≠ some .completed)
      (hdb : db.uploadStatus s.uploadID = s.status) (hq : p.Fits s.status → q.Goes s.status)
      : Effect s r p { s.setPhase r q with db := db, s3 := s3 }
  | aborts {q old}
      (hold : ∀ st ∈ old, st = .initiated ∨ st = .uploading)
      (hq : p.Fits s.status → (∀ ret upload, p = .abortRow true ret upload → s.status ≠ some .completed)
        → q.Goes (abortedRow old s.status))
      : Effect s r p { s.setPhase r q with db := s.db.transitionUpload s.uploadID old .aborted }
  | presigns (hst : s.status = some .initiated)
      : Effect s r p
          { s.setPhase r (.returned false none) with
            db := s.db.transitionUpload s.uploadID [.initiated] .uploading }

theorem Effect.quiet (s : UploadSession) (r) (hq : p.Fits s.status → q.Goes s.status)
    : Effect s r p (s.setPhase r q) := by
  exact .goes (Finset.Subset.refl _) hq

variable {r : Nat}

theorem Effect.of_run (h : s.run dirID r env p = some s') : Effect s r p s' := by
  unfold run at h
  cases p with
  | getUpload req =>
    dsimp only at h
    split at h
    . cases h
      exact .quiet s r fun _ => goes_notLoaded _ _ _
    . next upload hu =>
      cases h
      apply Effect.quiet s r
      intro _
      rw [status_of_getUpload hu]
      exact goes_loaded req upload env
  | listParts clientParts upload =>
    cases h
    exact .quiet s r fun hp => goes_listed hp _ _ _
  | completeMultipart upload =>
    dsimp only at h
    split at h
    . cases h
      exact .goes (Finset.subset_insert _ _) fun hp => .started hp rfl
    . cases h
      exact .quiet s r fun _ => .returned _ _
  | finalizeTx upload =>
    dsimp only at h
    split at h
    . next hdb =>
      cases h
      exact .commits rfl (Backend.uploadStatus_finalizeTx _ _ _ hdb)
    . cases h
      exact .fails rfl
  | deleteBlob upload err =>
    cases h
    refine .destroys ?_ rfl ?_
    . intro hp
      exact hp.2
    . intro hp
      exact ⟨hp, fun _ _ hc => by contradiction⟩
  | abortMetadata upload err =>
    cases h
    refine .aborts ?_ ?_
    . decide
    . intro hp _
      exact goes_mark_cleanup s err upload (abortedRow_ne_completed hp.2) fun _ => rowClosed_abortedRow_v2 hp.1
  | markLegacyFile caller closed upload =>
    cases h
    cases caller with
    | cleanup err | abortV2 ret =>
      exact .destroys (fun hp => hp.1) rfl fun hp => ⟨hp, fun _ _ hc => by contradiction⟩
  | markInode caller closed upload =>
    cases h
    cases caller with
    | cleanup err => exact .destroys (fun hp => hp.1) rfl fun hp => goes_marked _ hp.2
    | abortV2 ret => exact .destroys (fun hp => hp.1) rfl fun hp => goes_marked _ fun _ => hp.2
  | abortMultipart v2 ret upload =>
    cases h
    cases v2 with
    | true => exact .goes (Finset.Subset.refl _) fun hp => ⟨hp, fun _ _ hc => by contradiction⟩
    | false => exact .goes (Finset.Subset.refl _) fun hp => .started hp rfl
  | abortRow v2 ret upload =>
    cases v2 with
    | true =>
      cases h
      refine .aborts ?_ ?_
      . decide
      . intro hp hne
        exact goes_mark_abortV2 s ret upload (abortedRow_ne_completed (hne ret upload rfl))
          (rowClosed_abortedRow_v2 hp)
    | false =>
      cases h
      refine .aborts ?_ ?_
      . decide
      . intro hp _
        exact ⟨fun _ => rowClosed_abortedRow_v1 hp, fun _ _ hc => by contradiction⟩
  | transition upload =>
    dsimp only at h
    split at h
    . next db htx =>
      cases h
      obtain ⟨db0, _, hget, htx⟩ := of_bind htx
      cases hget
      obtain ⟨_, _, hreq, htx⟩ := of_bind htx
      cases htx
      unfold require at hreq
      split at hreq
      . next hst =>
        cases hreq
        exact .presigns hst
      . cases hreq
    . cases h
      exact .quiet s r fun _ => ⟨trivial, fun _ _ hc => by contradiction⟩
  | refresh =>
    dsimp only at h
    split at h
    . cases h
      exact .quiet s r fun _ => .returned _ _
    . cases h
      exact .quiet s r fun _ => goes_refreshed _ _ _
  | committed | returned => contradiction

theorem Effect.of_fault (h : s.fault r p = some s') : Effect s r p s' := by
  cases p with
  | getUpload req =>
    cases h
    exact .quiet s r fun _ => goes_notLoaded _ _ _
  | listParts | completeMultipart | abortRow | transition | refresh =>
    cases h
    exact .quiet s r fun _ => .returned _ _
  | finalizeTx =>
    cases h
    exact .fails rfl
  | deleteBlob =>
    cases h
    exact .quiet s r fun hp => ⟨hp, fun _ _ hc => by contradiction⟩
  | abortMetadata upload err =>
    cases h
    exact .quiet s r fun hp => goes_mark_cleanup s err upload hp.2 fun hc => by contradiction
  | markLegacyFile caller closed upload | markInode caller closed upload =>
    cases h
    cases caller with
    | cleanup err => exact .quiet s r fun hp => goes_marked _ hp.2
    | abortV2 ret => exact .quiet s r fun hp => goes_marked _ fun _ => hp.2
  | abortMultipart v2 ret upload =>
    cases h
    cases v2 with
    | true => exact .quiet s r fun hp => ⟨hp, fun _ _ hc => by contradiction⟩
    | false => exact .quiet s r fun hp => .started hp rfl
  | committed | returned => contradiction

theorem rowMove_complete (st)
    : RowMove st (st.map fun st => if st ∈ [.uploading] then .completed else st) := by
  cases st with
  | none => exact .same none
  | some st =>
    rw [Option.map_some]
    split
    . next h =>
      rw [List.mem_singleton.mp h]
      exact .complete
    . exact .same _

theorem Effect.rowMove (h : Effect s r p s') : RowMove s.status s'.status := by
  cases h with
  | goes | fails => exact .same _
  | commits hp hdb =>
    change RowMove s.status (Db.uploadStatus _ s.uploadID)
    rw [hdb]
    exact rowMove_complete _
  | destroys hp hdb hq =>
    change RowMove s.status (Db.uploadStatus _ s.uploadID)
    rw [hdb]
    exact .same _
  | aborts hold hq =>
    change RowMove s.status (Db.uploadStatus _ s.uploadID)
    rw [Db.uploadStatus_transitionUpload]
    exact .of_abort _ hold _
  | presigns hst =>
    change RowMove s.status (Db.uploadStatus _ s.uploadID)
    rw [Db.uploadStatus_transitionUpload]
    change RowMove s.status (s.status.map _)
    rw [hst]
    exact .upload

-- The request `r` takes its finalize transaction to a session that is still open, and that no other
-- request is cleaning up; a v2 abort does not come after a commit.
def MayAct (s : UploadSession) (p : UploadPhase) : Prop :=
  match p with
  | .finalizeTx _ =>
    s.status = some .uploading ∧ ∀ r ∈ s.requests.keys, ∀ p ∈ s.requests.get? r, p.cleaning = false
  | .abortRow true _ _ => s.status ≠ some .completed
  | _ => True

instance (s : UploadSession) (p : UploadPhase) : Decidable (MayAct s p) := by
  unfold MayAct
  split <;> infer_instance

def InTurn (s : UploadSession) (l : UploadLabel) : Prop :=
  match l with
  | .run r _ => ∀ p ∈ s.requests.get? r, MayAct s p
  | .fault r => ∀ p ∈ s.requests.get? r, MayAct s p
  | .start _ _ => True
  | .other _ _ => True

instance (s : UploadSession) (l : UploadLabel) : Decidable (InTurn s l) := by
  unfold InTurn
  split <;> infer_instance

def Consistent (s : UploadSession) : Prop := ∀ r p, s.requests.get? r = some p → p.Fits s.status

section

variable (h : Consistent s) (hreq : s'.requests = s.requests.set r q)

include h hreq

theorem Consistent.set (hst : s'.status = st)
    (hmove : RowMove s.status st)
    (hclean : ∀ r p, s.requests.get? r = some p → p.cleaning → s.status ≠ st → st ≠ some .completed)
    (hq : q.Fits st)
    : Consistent s' := by
  intro r' p' hp'
  rw [hst]
  rw [hreq, FMap.get?_set] at hp'
  split at hp'
  . cases hp'
    exact hq
  . exact (h r' p' hp').move hmove (hclean r' p' hp')

theorem Consistent.setSame (hst : s'.status = s.status)
    (hq : q.Fits s.status)
    : Consistent s' := by
  exact h.set hreq hst (.same _) (fun _ _ _ _ hne => absurd rfl hne) hq

end

theorem Consistent.effect (h : Consistent s) (hp : s.requests.get? r = some p) (hok : MayAct s p)
    (he : Effect s r p s')
    : Consistent s' := by
  have hfits := h r p hp
  cases he with
  | goes hs3 hq => exact h.setSame rfl rfl (hq hfits).1
  | fails hp =>
    subst hp
    refine h.setSame rfl rfl ?_
    rw [hok.1]
    exact ⟨rfl, by decide⟩
  | commits hp hdb =>
    subst hp
    refine h.set rfl hdb (rowMove_complete _) ?_ ?_
    . intro r' p' hp' hclean
      rw [hok.2 r' ((FMap.mem_keys _ _).mpr (by rw [hp']; rfl)) p' hp'] at hclean
      contradiction
    . rw [hok.1]
      rfl
  | destroys hp hdb hq => exact h.setSame rfl hdb (hq hfits).1
  | aborts hold hq =>
    refine h.set rfl (Db.uploadStatus_transitionUpload _ _ _ _) (.of_abort _ hold _) ?_ ?_
    . intro r' p' hp' hclean
      exact abortedRow_ne_completed_of_ne
    . apply (hq hfits _).1
      intro ret upload heq
      subst heq
      exact hok
  | presigns hst =>
    refine h.set rfl (Db.uploadStatus_transitionUpload _ _ _ _) ?_ ?_ (Goes.returned _ _).1
    . change RowMove s.status (s.status.map _)
      rw [hst]
      exact .upload
    . intro r' p' hp' hclean hne
      change s.status.map _ ≠ _
      rw [hst]
      decide

end UploadSession
