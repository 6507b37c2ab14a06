import Drive9.Fuse.Handle.Impl
import Drive9.Fuse.WriteBuffer.Lemmas.Bounds

/-!
This module contains the conditional uploads of one handle.
-/

namespace FileHandle

variable {fh fh' : FileHandle}

theorem expectedRevision_setRevision (h : 0 < committedRev)
    : (fh.setRevision committedRev).expectedRevisionForHandle = committedRev := by
  unfold setRevision expectedRevisionForHandle
  rw [if_neg Bool.false_ne_true, if_pos h]

theorem expectedRevision_finalize (h : 0 ≤ expectedRevision)
    : (fh.finalizeHandleFlushLocked expectedRevision).expectedRevisionForHandle
      = expectedRevision + 1 := by
  unfold finalizeHandleFlushLocked committedRevisionFromExpectedRevision expectedRevisionForHandle
  dsimp only
  rw [if_neg Bool.false_ne_true, if_neg (not_lt.mpr h), Option.getD_some, if_pos (by omega)]

structure Same (fh fh' : FileHandle) : Prop where
  dirty : fh'.dirty = fh.dirty
  dirtySeq : fh'.dirtySeq = fh.dirtySeq
  origSize : fh'.origSize = fh.origSize
  isNew : fh'.isNew = fh.isNew
  baseRev : fh'.baseRev = fh.baseRev
  streamer : fh'.streamer = fh.streamer

theorem Same.refl (fh)
    : Same fh fh := ⟨rfl, rfl, rfl, rfl, rfl, rfl⟩

section

variable (h : Same fh fh')

include h

theorem Same.trans (h' : Same fh' fh'') : Same fh fh'' where
  dirty := h'.dirty.trans h.dirty
  dirtySeq := h'.dirtySeq.trans h.dirtySeq
  origSize := h'.origSize.trans h.origSize
  isNew := h'.isNew.trans h.isNew
  baseRev := h'.baseRev.trans h.baseRev
  streamer := h'.streamer.trans h.streamer

theorem Same.expectedRevision : fh'.expectedRevisionForHandle = fh.expectedRevisionForHandle := by
  unfold expectedRevisionForHandle
  rw [h.isNew, h.baseRev]

theorem Same.hasDirtyParts : fh'.hasDirtyParts = fh.hasDirtyParts := by
  unfold FileHandle.hasDirtyParts
  rw [h.dirty]

theorem Same.size : fh'.size = fh.size := by
  unfold FileHandle.size
  rw [h.dirty]

end

-- A flush that goes through the patch upload has a dirty part to send.
def PatchOk (fs : Dat9FS) (fh : FileHandle) : Prop :=
  match fh.dirty with
  | none => True
  | some wb =>
    wb.touched → wb.size = 0 ∨ (fs.negotiatedInlineThreshold > 0 ∧ wb.size < fs.negotiatedInlineThreshold)
      ∨ fh.origSize < fs.negotiatedInlineThreshold ∨ wb.dirtyParts.Nonempty

-- A flush that goes through the streamer finds the handle's revision there.
def StreamerOk (fs : Dat9FS) (fh : FileHandle) : Prop :=
  match fh.streamer with
  | none => True
  | some su =>
    su.started ∨ fh.size ≥ fs.inlineThreshold → su.expectedRevision = fh.expectedRevisionForHandle

instance (fs : Dat9FS) (fh : FileHandle) : Decidable (PatchOk fs fh) := by
  unfold PatchOk
  split <;> infer_instance

instance (fs : Dat9FS) (fh : FileHandle) : Decidable (StreamerOk fs fh) := by
  unfold StreamerOk
  split <;> infer_instance

theorem Same.patchOk (h : Same fh fh') (hok : PatchOk fs fh) : PatchOk fs fh' := by
  unfold PatchOk at *
  rw [h.dirty, h.origSize]
  exact hok

theorem Same.streamerOk (h : Same fh fh') (hok : StreamerOk fs fh) : StreamerOk fs fh' := by
  unfold StreamerOk at *
  rw [h.streamer, h.size, h.expectedRevision]
  exact hok

theorem patchOk_clearDirty (fs) (fh : FileHandle) : PatchOk fs fh.clearDirty := by
  unfold PatchOk clearDirty
  cases fh.dirty with
  | none => trivial
  | some wb =>
    intro htouched
    contradiction

theorem StreamerOk.clearDirty (h : StreamerOk fs fh) : StreamerOk fs fh.clearDirty := by
  have hsize : fh.clearDirty.size = fh.size := by
    unfold FileHandle.clearDirty FileHandle.size
    cases fh.dirty <;> rfl
  unfold StreamerOk at *
  rw [hsize]
  exact h

theorem stageShadowLocked_fst (fs) (env) (fh)
    : (Session.stageShadowLocked fs env fh).1 = fh
        ∨ (Session.stageShadowLocked fs env fh).1 = { fh with shadowReady := true } := by
  unfold Session.stageShadowLocked
  split
  . exact .inr rfl
  . exact .inl rfl

theorem same_stageShadowLocked (fs) (env) (fh)
    : Same fh (Session.stageShadowLocked fs env fh).1 := by
  rcases stageShadowLocked_fst fs env fh with heq | heq
  . rw [heq]
    exact .refl fh
  . rw [heq]
    exact ⟨rfl, rfl, rfl, rfl, rfl, rfl⟩

end FileHandle

namespace Session

variable {fs : Dat9FS} {env : Env} {s : Session} {fh : FileHandle}

structure InSync (s : Session) : Prop where
  rev : s.fh.expectedRevisionForHandle = s.rev
  rev_nonneg : 0 ≤ s.rev
  buffer : ∀ wb, s.fh.dirty = some wb → wb.Bounded
  seq_le : s.fh.dirtySeq ≤ s.seq
  -- A deferred upload that will not be dropped is conditional on the server's revision.
  deferred : ∀ d, s.deferred = some d → d.snapshotSeq ≠ 0 ∧ d.snapshotSeq ≤ s.seq ∧
    (s.fh.dirtySeq = d.snapshotSeq → d.expectedRevision = s.rev)
  uploads : ∀ u, u ∈ s.uploads → u.expected = u.current

theorem InSync.handle (h : InSync s)
    (hrev : fh.expectedRevisionForHandle = s.fh.expectedRevisionForHandle)
    (hbuffer : ∀ wb, fh.dirty = some wb → wb.Bounded) (hseq : fh.dirtySeq = s.fh.dirtySeq)
    : InSync { s with fh := fh } := by
  constructor
  . exact hrev.trans h.rev
  . exact h.rev_nonneg
  . exact hbuffer
  . exact le_of_eq_of_le hseq h.seq_le
  . intro d hd
    obtain ⟨hne, hle, hcurrent⟩ := h.deferred d hd
    exact ⟨hne, hle, fun heq => hcurrent (hseq.symm.trans heq)⟩
  . exact h.uploads

variable {seq : Nat} {wb : WriteBuffer}

theorem InSync.stamp (h : InSync s)
    (hrev : fh.expectedRevisionForHandle = s.fh.expectedRevisionForHandle)
    (hbuffer : ∀ wb, fh.dirty = some wb → wb.Bounded) (hle : s.seq ≤ seq)
    (hseq : fh.dirtySeq = 0 ∨ fh.dirtySeq = seq ∧ s.seq < seq)
    : InSync { s with fh := fh, seq := seq } := by
  refine { h with rev := hrev.trans h.rev, buffer := hbuffer, seq_le := ?_, deferred := ?_ }
  . dsimp only
    omega
  . intro d hd
    obtain ⟨hne, hd_le, _⟩ := h.deferred d hd
    refine ⟨hne, le_trans hd_le hle, fun heq => ?_⟩
    dsimp only at heq
    omega

theorem InSync.same (h : InSync s) (hsame : s.fh.Same fh) : InSync { s with fh := fh } := by
  apply h.handle hsame.expectedRevision _ hsame.dirtySeq
  intro wb hwb
  rw [hsame.dirty] at hwb
  exact h.buffer wb hwb

theorem InSync.cached (h : InSync s) (cached) : InSync { s with cached := cached } :=
  { h with }

theorem upload_rev (s : Session)
    : s.upload s.rev
        =
      ({ s with rev := s.rev + 1, uploads := s.uploads ++ [{ expected := s.rev, current := s.rev }] }, true) := by
  unfold upload
  rw [if_pos rfl]

section

variable (h : InSync s)

include h

theorem InSync.committed {deferred : Option Deferred}
    (hrev : fh.expectedRevisionForHandle = s.rev + 1)
    (hbuffer : ∀ wb, fh.dirty = some wb → wb.Bounded)
    (hseq : fh.dirtySeq = 0 ∧ deferred = s.deferred ∨ fh.dirtySeq = s.fh.dirtySeq ∧ deferred = none)
    : InSync
        { s with
          fh := fh
          deferred := deferred
          rev := s.rev + 1
          uploads := s.uploads ++ [{ expected := s.rev, current := s.rev }] } := by
  constructor
  . exact hrev
  . have hnonneg := h.rev_nonneg
    dsimp only
    omega
  . exact hbuffer
  . rcases hseq with ⟨hzero, _⟩ | ⟨hsame, _⟩
    . exact le_of_eq_of_le hzero (Nat.zero_le _)
    . exact le_of_eq_of_le hsame h.seq_le
  . intro d hd
    rcases hseq with ⟨hzero, hdeferred⟩ | ⟨_, hdeferred⟩
    . obtain ⟨hne, hle, _⟩ := h.deferred d (hdeferred.symm.trans hd)
      exact ⟨hne, hle, fun heq => absurd (heq.symm.trans hzero) hne⟩
    . rw [show deferred = some d from hd] at hdeferred
      contradiction
  . intro u hu
    rcases List.mem_append.mp hu with hold | hnew
    . exact h.uploads u hold
    . rw [List.mem_singleton.mp hnew]

theorem InSync.clearDirty (wb) (hwb : s.fh.clearDirty.dirty = some wb) : wb.Bounded := by
  unfold FileHandle.clearDirty at hwb
  rw [Option.map_eq_some_iff] at hwb
  obtain ⟨wb', hwb', heq⟩ := hwb
  rw [← heq]
  exact (h.buffer wb' hwb').clearDirty

theorem InSync.finishFlush (hc : committedRev = 0 ∨ committedRev = s.rev + 1)
    : InSync
        (finishFlush
          { s with
            rev := s.rev + 1
            uploads := s.uploads ++ [{ expected := s.rev, current := s.rev }] } s.rev committedRev) := by
  have hnonneg := h.rev_nonneg
  unfold Session.finishFlush
  split
  . next hpos =>
    apply h.committed
    . rw [FileHandle.expectedRevision_setRevision hpos]
      omega
    . exact h.clearDirty
    . exact .inl ⟨rfl, rfl⟩
  . apply h.committed
    . exact FileHandle.expectedRevision_finalize hnonneg
    . exact h.clearDirty
    . exact .inl ⟨rfl, rfl⟩

theorem InSync.flushBuffer (hdirty : wb.hasDirtyParts) (hpatch : wb.touched → wb.size = 0
      ∨ (fs.negotiatedInlineThreshold > 0 ∧ wb.size < fs.negotiatedInlineThreshold)
      ∨ s.fh.origSize < fs.negotiatedInlineThreshold ∨ wb.dirtyParts.Nonempty)
    : InSync (flushBuffer fs env s wb).1 := by
  unfold Session.flushBuffer
  dsimp only
  rw [h.rev, upload_rev]
  split
  . apply h.finishFlush
    unfold reported
    split
    . exact .inr rfl
    . exact .inl rfl
  . next hput =>
    split
    . next horig =>
      have hparts : wb.dirtyPartNumbers.Nonempty := by
        unfold WriteBuffer.dirtyPartNumbers
        rw [Finset.image_nonempty]
        unfold WriteBuffer.hasDirtyParts at hdirty
        rw [Bool.or_eq_true, decide_eq_true_iff] at hdirty
        rcases hdirty with htouched | hnonempty
        . rcases hpatch htouched with hzero | hsmall | hgrown | hnonempty
          . exact absurd (.inl hzero) hput
          . exact absurd (.inr hsmall) hput
          . exact absurd horig (not_le.mpr hgrown)
          . exact hnonempty
        . exact hnonempty
      rw [if_pos hparts]
      exact h.finishFlush (.inl rfl)
    . exact h.finishFlush (.inl rfl)

theorem InSync.uploadStream (hexpected : expectedRevision = s.fh.expectedRevisionForHandle)
    : InSync (uploadStream s expectedRevision).1 := by
  unfold Session.uploadStream
  rw [hexpected, h.rev, upload_rev]
  exact h.finishFlush (.inl rfl)

end

theorem inlineThreshold_pos (fs : Dat9FS) : 0 < fs.inlineThreshold := by
  unfold Dat9FS.inlineThreshold
  dsimp only
  split
  . next h => exact h
  . decide

section

variable (h : InSync s)

include h

theorem InSync.uploadAll (hwb : s.fh.dirty = some wb)
    (hsu : su.expectedRevision = s.fh.expectedRevisionForHandle)
    (hsize : wb.size ≥ fs.inlineThreshold)
    : InSync (uploadAll s su wb).1 := by
  have hpos : 0 < wb.size := lt_of_lt_of_le (inlineThreshold_pos fs) hsize
  unfold Session.uploadAll
  rw [if_pos ((h.buffer wb hwb).any_partData hpos)]
  apply InSync.uploadStream
  . exact h.handle rfl h.buffer rfl
  . exact hsu

theorem InSync.flushHandle (hpatch : s.fh.PatchOk fs) (hstreamer : s.fh.StreamerOk fs)
    : InSync (flushHandle fs env s).1 := by
  unfold Session.flushHandle
  split
  . exact h
  . next wb hwb =>
    unfold FileHandle.PatchOk at hpatch
    rw [hwb] at hpatch
    split
    . exact h
    . next hdirty =>
      split
      . exact h.flushBuffer (not_not.mp hdirty) hpatch
      . next su hsu =>
        unfold FileHandle.StreamerOk FileHandle.size at hstreamer
        rw [hsu, hwb] at hstreamer
        split
        . next hstarted => exact h.uploadStream (hstreamer (.inl hstarted))
        . split
          . next hsize => exact h.uploadAll hwb (hstreamer (.inr hsize)) hsize
          . exact h.flushBuffer (not_not.mp hdirty) hpatch

theorem InSync.flushHandleDebounced {force : Bool} (hpatch : s.fh.PatchOk fs)
    (hstreamer : s.fh.StreamerOk fs) (hseq : force ∨ s.fh.dirtySeq ≠ 0 ∨ ¬ s.fh.hasDirtyParts)
    : InSync (flushHandleDebounced fs env s force).1 := by
  unfold Session.flushHandleDebounced
  split
  . exact h.flushHandle hpatch hstreamer
  . next hdefer =>
    split
    . exact h.flushHandle hpatch hstreamer
    . refine { h with deferred := ?_ }
      intro d hd
      cases hd
      refine ⟨?_, h.seq_le, fun _ => h.rev⟩
      rcases hseq with hforce | hne | hclean
      . exact absurd (.inl hforce) hdefer
      . exact hne
      . exact absurd (.inr hclean) hdefer

theorem InSync.fire : InSync (fire env s) := by
  unfold Session.fire
  split
  . exact h
  . next d hd =>
    obtain ⟨_, _, hcurrent⟩ := h.deferred d hd
    have hdropped : InSync { s with deferred := none } :=
      { h with deferred := fun d' hd' => absurd hd'.symm (Option.some_ne_none d') }
    dsimp only
    split
    . exact hdropped
    . next hkept =>
      rw [not_or, not_not] at hkept
      have hrev := upload_rev { s with deferred := none }
      rw [hcurrent hkept.2, hrev]
      have hnonneg := h.rev_nonneg
      have hnew : ∀ fh : FileHandle, fh.expectedRevisionForHandle = s.rev + 1
          → fh.dirty = s.fh.dirty →
          fh.dirtySeq = s.fh.dirtySeq →
          InSync
            { s with
              fh := fh.clearDirty
              deferred := none
              rev := s.rev + 1
              uploads := s.uploads ++ [{ expected := s.rev, current := s.rev }] } := by
        intro fh hfh hdirty hseq
        apply h.committed
        . exact hfh
        . intro wb hwb
          unfold FileHandle.clearDirty at hwb
          rw [hdirty] at hwb
          exact h.clearDirty wb hwb
        . exact .inr ⟨hseq, rfl⟩
      dsimp only
      split
      . next hpos =>
        apply hnew
        . rw [FileHandle.expectedRevision_setRevision hpos]
          unfold reported at *
          split at hpos
          . next hreports => rw [if_pos hreports]
          . omega
        . rfl
        . rfl
      . apply hnew
        . exact FileHandle.expectedRevision_finalize hnonneg
        . rfl
        . rfl

theorem InSync.syncHandleToRemoteLocked (hpatch : s.fh.PatchOk fs) (hstreamer : s.fh.StreamerOk fs)
    : InSync (syncHandleToRemoteLocked fs env s).1 := by
  unfold Session.syncHandleToRemoteLocked
  split
  . exact h
  . split
    . dsimp only
      unfold uploadFromShadowRemote
      by_cases hsync : env.shadowSync
      . rw [if_pos hsync, h.rev, upload_rev]
        have hfinished := h.finishFlush (.inl rfl)
        exact hfinished.same ⟨rfl, rfl, rfl, rfl, rfl, rfl⟩
      . rw [if_neg hsync]
        exact h
    . exact h.flushHandle hpatch hstreamer

end

theorem snapshotWriteBackLocked_eq (fs) (env) (s)
    : ∃ cached, (snapshotWriteBackLocked fs env s).1 = { s with cached := cached } := by
  unfold snapshotWriteBackLocked
  split
  . exact ⟨s.cached, rfl⟩
  . split
    . exact ⟨s.cached, rfl⟩
    . split
      . exact ⟨s.cached, rfl⟩
      . split
        . exact ⟨_, rfl⟩
        . exact ⟨s.cached, rfl⟩

theorem InSync.staged (fs) (env) (h : InSync s) (hsame : s.fh.Same fh)
    : InSync (snapshotWriteBackLocked fs env { s with fh := fh }).1.snapshotSeq := by
  obtain ⟨cached, hcached⟩ := snapshotWriteBackLocked_eq fs env { s with fh := fh }
  rw [hcached]
  exact ((h.same hsame).cached cached).same ⟨rfl, rfl, rfl, rfl, rfl, rfl⟩

namespace flush

theorem snapshotOnly_inSync (fs) (env) (h : InSync s)
    : InSync (snapshotOnly fs env s).1
        ∧ ((snapshotOnly fs env s).2 = false → s.fh.Same (snapshotOnly fs env s).1.fh) := by
  obtain ⟨cached, hcached⟩ := snapshotWriteBackLocked_eq fs env s
  unfold snapshotOnly
  split
  . next s1 heq =>
    rw [heq] at hcached
    dsimp only at hcached
    constructor
    . rw [hcached]
      exact (h.cached cached).same ⟨rfl, rfl, rfl, rfl, rfl, rfl⟩
    . intro hfalse
      contradiction
  . next s1 heq =>
    rw [heq] at hcached
    rw [hcached]
    exact ⟨h.cached cached, fun _ => .refl _⟩

theorem small_inSync (fs) (env) (h : InSync s)
    : InSync (small fs env s).1
      ∧ ((small fs env s).2 = false → s.fh.Same (small fs env s).1.fh) := by
  unfold small
  split
  . exact ⟨h, fun _ => .refl s.fh⟩
  . split
    . exact ⟨h, fun _ => .refl s.fh⟩
    . split
      . split
        . have hsame := FileHandle.same_stageShadowLocked fs env s.fh
          split
          . next fh heq =>
            rw [heq] at hsame
            refine ⟨h.staged fs env hsame, ?_⟩
            intro hfalse
            contradiction
          . next fh heq =>
            rw [heq] at hsame
            obtain ⟨hsync, hkept⟩ := snapshotOnly_inSync fs env (h.same hsame)
            exact ⟨hsync, fun hfalse => hsame.trans (hkept hfalse)⟩
        . exact snapshotOnly_inSync fs env h
      . exact ⟨h, fun _ => .refl s.fh⟩

theorem small_of_large (fs) (env) (hsize : s.fh.size ≥ writeBackThreshold)
    : (small fs env s).1 = s := by
  unfold small
  split
  . rfl
  . split
    . rfl
    . rw [if_neg]
      intro hsmall
      exact absurd hsize (not_le.mpr hsmall.1)

end flush

-- The content is staged on the local disk.
def Stages (fs : Dat9FS) (env : Env) (fh : FileHandle) : Prop :=
  fs.syncMode = .interactive ∧ fh.canStageShadowFastLocked fs ∧ env.shadowWrite ∧ env.shadowSync

instance (fs : Dat9FS) (env : Env) (fh : FileHandle) : Decidable (Stages fs env fh) :=
  inferInstanceAs (Decidable (_ ∧ _))

theorem Stages.eq (h : Stages fs env fh)
    : stageShadowLocked fs env fh = ({ fh with shadowReady := true }, true) := by
  obtain ⟨_, hcan, hwrite, hsync⟩ := h
  unfold stageShadowLocked
  rw [if_pos ⟨hcan, hwrite⟩, hsync]

theorem Stages.stores (h : Stages fs env fh) : fs.shadowStore ∧ fs.pendingIndex := by
  obtain ⟨_, hcan, _⟩ := h
  unfold FileHandle.canStageShadowFastLocked at hcan
  split at hcan
  . contradiction
  . rw [Bool.and_eq_true, Bool.and_eq_true] at hcan
    exact hcan.1

theorem InSync.large (h : InSync s) (hpatch : s.fh.PatchOk fs) (hstreamer : s.fh.StreamerOk fs)
    (hspill : s.fh.shadowSpill → Stages fs env s.fh)
    : InSync (flush.large fs env s).1 := by
  unfold flush.large
  split
  . next hspilled =>
    have hstages := hspill hspilled
    rw [if_pos ⟨hstages.1, hstages.stores⟩, hstages.eq]
    exact h.same ⟨rfl, rfl, rfl, rfl, rfl, rfl⟩
  . split
    . have hsame := FileHandle.same_stageShadowLocked fs env s.fh
      split
      . next fh heq =>
        rw [heq] at hsame
        have hstaged := h.staged fs env hsame
        exact hstaged.handle rfl hstaged.buffer rfl
      . next fh heq =>
        rw [heq] at hsame
        exact (h.same hsame).flushHandle (hsame.patchOk hpatch) (hsame.streamerOk hstreamer)
    . exact h.flushHandle hpatch hstreamer

/--
The calls after which the handle and the server agree again. The conditions rule out, in this order:
a zero-length write on a write-sync handle that uploads patches; a deferred upload of a handle
without a sequence number; uploads that the handle is not told about, from the shadow of a spilled
file and from the write-back cache; a patch without dirty parts; and a streamer that was left
behind.
-/
def CasOk (fs : Dat9FS) (s : Session) (op : HandleOp) : Prop :=
  match op with
  | .write _ data _ =>
    s.fh.writePolicy = .writeSync → data ≠ [] ∨ s.fh.origSize < fs.negotiatedInlineThreshold
  | .flush env =>
    (s.fh.hasDirtyParts → s.fh.dirtySeq ≠ 0)
      ∧ (s.fh.shadowSpill ∧ s.fh.writePolicy = .writeBack ∧ s.fh.size ≥ writeBackThreshold →
          Stages fs env s.fh)
      ∧ s.fh.PatchOk fs ∧ s.fh.StreamerOk fs
  | .fsync env =>
    fs.syncMode = .interactive ∧ (¬ s.fh.hasDirtyParts ∨ Stages fs env s.fh)
      ∨ ¬ (s.fh.shadowSpill ∧ fs.shadowStore)
        ∧ ¬ (fs.writeBack ∧ fs.uploader ∧ s.fh.writeBackSeq ≠ 0 ∧ s.fh.writeBackSeq = s.fh.dirtySeq
            ∧ s.cached.isSome)
        ∧ s.fh.PatchOk fs ∧ s.fh.StreamerOk fs
  | .fire _ => True

instance (fs : Dat9FS) (s : Session) (op : HandleOp) : Decidable (CasOk fs s op) := by
  unfold CasOk
  split <;> infer_instance

theorem InSync.flush (h : InSync s) (hok : CasOk fs s (.flush env))
    : InSync (flush fs env s).1 := by
  obtain ⟨hseq, hspill, hpatch, hstreamer⟩ := hok
  unfold Session.flush
  split
  . exact h.syncHandleToRemoteLocked hpatch hstreamer
  . next hpolicy =>
    obtain ⟨hsmall, hsame⟩ := flush.small_inSync fs env h
    split
    . next s1 heq =>
      rw [heq] at hsmall
      exact hsmall
    . next s1 heq =>
      rw [heq] at hsmall hsame
      have hsame1 : s.fh.Same s1.fh := hsame rfl
      split
      . next hlarge =>
        -- A large file has gone past the write-back path untouched.
        have hs1 : s1 = s := by
          have hunchanged := flush.small_of_large fs env (hsame1.size ▸ hlarge.2)
          rw [heq] at hunchanged
          exact hunchanged
        subst hs1
        apply h.large hpatch hstreamer
        intro hspilled
        refine hspill ⟨hspilled, ?_, hlarge.2⟩
        by_contra hne
        exact hpolicy ⟨hlarge.1, hne⟩
      . apply hsmall.flushHandleDebounced (hsame1.patchOk hpatch) (hsame1.streamerOk hstreamer)
        right
        rw [hsame1.dirtySeq, hsame1.hasDirtyParts]
        by_cases hdirty : s.fh.hasDirtyParts
        . exact .inl (hseq hdirty)
        . exact .inr hdirty

theorem InSync.remote (h : InSync s) (hspill : ¬ (s.fh.shadowSpill ∧ fs.shadowStore))
    (hcached : ¬ (fs.writeBack ∧ fs.uploader ∧ s.fh.writeBackSeq ≠ 0 ∧ s.fh.writeBackSeq = s.fh.dirtySeq
      ∧ s.cached.isSome))
    (hpatch : s.fh.PatchOk fs) (hstreamer : s.fh.StreamerOk fs)
    : InSync (fsync.remote fs env s).1 := by
  unfold fsync.remote
  rw [if_neg hspill]
  split
  . next hcurrent =>
    -- The snapshot is gone: nothing is uploaded, and the buffer is clean from here on.
    have hnone : s.cached = none := by
      rw [← Option.not_isSome_iff_eq_none]
      intro hsome
      exact hcached ⟨hcurrent.1, hcurrent.2.1, hcurrent.2.2.1, hcurrent.2.2.2, hsome⟩
    unfold uploadSync
    rw [hnone]
    dsimp only
    split
    . have hcleared : InSync { s with fh := { s.fh.clearDirty with writeBackSeq := 0 } } :=
        h.handle rfl h.clearDirty rfl
      apply hcleared.flushHandleDebounced
      . exact FileHandle.patchOk_clearDirty fs { s.fh with writeBackSeq := 0 }
      . exact hstreamer.clearDirty
      . exact .inl rfl
    . exact h.flushHandleDebounced hpatch hstreamer (.inl rfl)
  . split
    . have hdropped : InSync { s with cached := none, fh := { s.fh with writeBackSeq := 0 } } :=
        (h.cached none).same ⟨rfl, rfl, rfl, rfl, rfl, rfl⟩
      apply hdropped.flushHandleDebounced hpatch hstreamer
      exact .inl rfl
    . exact h.flushHandleDebounced hpatch hstreamer (.inl rfl)

theorem InSync.fsync (h : InSync s) (hok : CasOk fs s (.fsync env))
    : InSync (fsync fs env s).1 := by
  unfold Session.fsync
  rcases hok with ⟨hmode, hlocal⟩ | ⟨hspill, hcached, hpatch, hstreamer⟩
  . rw [if_pos hmode]
    split
    . exact h
    . next hdirty =>
      rcases hlocal with hclean | hstages
      . exact absurd hclean hdirty
      . rw [hstages.eq]
        dsimp only
        split
        . exact h.same ⟨rfl, rfl, rfl, rfl, rfl, rfl⟩
        . exact h.staged fs env ⟨rfl, rfl, rfl, rfl, rfl, rfl⟩
  . split
    . split
      . exact h
      . have hsame := FileHandle.same_stageShadowLocked fs env s.fh
        split
        . next fh heq =>
          rw [heq] at hsame
          split
          . exact h.same { hsame with }
          . exact h.staged fs env hsame
        . next fh heq =>
          have hfh := FileHandle.stageShadowLocked_fst fs env s.fh
          rw [heq] at hsame hfh
          have hcommon : fh.shadowSpill = s.fh.shadowSpill
              ∧ fh.writeBackSeq = s.fh.writeBackSeq := by
            dsimp only at hfh
            rcases hfh with hsame | hready
            . rw [hsame]
              exact ⟨rfl, rfl⟩
            . rw [hready]
              exact ⟨rfl, rfl⟩
          apply (h.same hsame).remote
          . rw [← hcommon.1] at hspill
            exact hspill
          . rw [← hcommon.2, ← hsame.dirtySeq] at hcached
            exact hcached
          . exact hsame.patchOk hpatch
          . exact hsame.streamerOk hstreamer
    . exact h.remote hspill hcached hpatch hstreamer

theorem bounded_newWriteBuffer (fs : Dat9FS) : (fs.newWriteBuffer 0 0).Bounded := by
  have hnew : (WriteBuffer.new 0 0).Bounded := ⟨by decide, by decide, by decide⟩
  unfold Dat9FS.newWriteBuffer WriteBuffer.setSmallFileMax
  split
  . exact hnew
  . exact ⟨hnew.partSize_pos, hnew.size_le, hnew.max_le⟩

theorem InSync.restore (h : InSync s) (hwb : wb.Bounded)
    : InSync (write.restoreFailedWriteSyncLocked fs s wb) := by
  have hbuffer : ∀ wb', some wb = some wb' → wb'.Bounded := by
    intro wb' heq
    cases heq
    exact hwb
  unfold write.restoreFailedWriteSyncLocked
  dsimp only
  split
  . split
    all_goals exact h.stamp rfl hbuffer (Nat.le_succ _) (.inr ⟨rfl, Nat.lt_succ_self _⟩)
  . split
    all_goals exact h.stamp rfl hbuffer (Nat.le_refl _) (.inl rfl)

theorem InSync.syncWrite (fs : Dat9FS) (env) (h : InSync s)
    (hpatch : s.fh.origSize < fs.negotiatedInlineThreshold ∨ wb.dirtyParts.Nonempty)
    : InSync (write.syncWriteHandleToRemoteLocked fs env s wb).1 := by
  unfold write.syncWriteHandleToRemoteLocked
  split
  . exact h
  . next hdirty =>
    apply h.flushBuffer (not_not.mp hdirty)
    intro _
    exact .inr (.inr hpatch)

theorem InSync.write (h : InSync s) {data : Bytes} (hok : CasOk fs s (.write off data env))
    {r : Session × FuseStatus} (hwrite : write fs env s off data = some r)
    : InSync r.1 := by
  have hwb : (s.fh.dirty.getD (fs.newWriteBuffer 0 0)).Bounded := by
    cases hdirty : s.fh.dirty with
    | none => exact bounded_newWriteBuffer fs
    | some wb => exact h.buffer wb hdirty
  unfold Session.write at hwrite
  dsimp only at hwrite
  generalize s.fh.dirty.getD (fs.newWriteBuffer 0 0) = wb at *
  have hbuffer : ∀ wb', some wb = some wb' → wb'.Bounded := by
    intro wb' heq
    cases heq
    exact hwb
  have hopened : InSync { s with fh := { s.fh with dirty := some wb } } := h.handle rfl hbuffer rfl
  split at hwrite
  . cases hwrite
    exact hopened
  . split at hwrite
    . cases hwrite
      exact hopened
    . split at hwrite
      . contradiction
      . next r1 hr1 =>
        have hbuf : ∀ wb', some r1.buf = some wb' → wb'.Bounded := by
          intro wb' heq
          cases heq
          exact hwb.write hr1
        split at hwrite
        . cases hwrite
          exact h.handle rfl hbuf rfl
        . next herr =>
          have hstamped : InSync
              { s with
                fh :=
                  { s.fh with
                    dirty := some r1.buf
                    streamer :=
                      s.fh.streamer.map (fun su => r1.full.foldl (fun su e => su.submitPart (e.1 + 1) e.2) su)
                    shadowReady := s.fh.shadowReady && (s.fh.shadowSpill || !fs.shadowStore || env.shadowWrite)
                    dirtySeq := s.seq + 1 }
                seq := s.seq + 1 } :=
            h.stamp rfl hbuf (Nat.le_succ _) (.inr ⟨rfl, Nat.lt_succ_self _⟩)
          split at hwrite
          . next hpolicy =>
            have hpatch : s.fh.origSize < fs.negotiatedInlineThreshold
                ∨ r1.buf.dirtyParts.Nonempty := by
              rcases hok hpolicy with hdata | hgrown
              . exact .inr ((WriteBuffer.write_grown hr1).dirtyParts hdata herr)
              . exact .inl hgrown
            have hsynced := hstamped.syncWrite fs env hpatch
            split at hwrite
            . next heq =>
              cases hwrite
              rw [heq] at hsynced
              exact hsynced
            . next heq =>
              cases hwrite
              rw [heq] at hsynced
              exact hsynced.restore hwb
          . cases hwrite
            exact hstamped

theorem InSync.step (h : InSync s) (hok : CasOk fs s op) (hstep : step fs s op = some s')
    : InSync s' := by
  cases op with
  | write off data env =>
    unfold Session.step at hstep
    rw [Option.map_eq_some_iff] at hstep
    obtain ⟨r, hr, heq⟩ := hstep
    rw [← heq]
    exact h.write hok hr
  | flush env =>
    cases hstep
    exact h.flush hok
  | fsync env =>
    cases hstep
    exact h.fsync hok
  | fire env =>
    cases hstep
    exact h.fire

-- A handle that has just been opened, at the revision that the file has on the server.
structure Opened (s : Session) : Prop where
  rev : s.fh.expectedRevisionForHandle = s.rev
  rev_nonneg : 0 ≤ s.rev
  buffer : ∀ wb, s.fh.dirty = some wb → wb.Bounded
  seq_le : s.fh.dirtySeq ≤ s.seq
  deferred : s.deferred = none
  uploads : s.uploads = []

theorem Opened.inSync (h : Opened s) : InSync s :=
  { h with
    deferred := by
      rw [h.deferred]
      intro d hd
      contradiction
    uploads := by
      rw [h.uploads]
      intro u hu
      exact absurd hu List.not_mem_nil }

theorem opened_create (fs) (policy) (ensured) (seq) : Opened (create fs policy ensured seq) := by
  refine ⟨rfl, le_refl 0, ?_, le_refl _, rfl, rfl⟩
  intro wb hwb
  cases hwb
  have hnew : (WriteBuffer.new streamingWriteMaxSize 0).Bounded := ⟨by decide, by decide, by decide⟩
  unfold Dat9FS.newWriteBuffer WriteBuffer.setSmallFileMax
  split
  all_goals exact ⟨hnew.partSize_pos, hnew.size_le, hnew.max_le⟩

theorem runs_upload_at_revision {s' : Session} (h : Opened s) {ops : List HandleOp}
    (hok : Lts.Along (step fs) (CasOk fs) s ops) (hexec : Lts.exec (step fs) s ops = some s')
    {u : Attempt} (hu : u ∈ s'.uploads)
    : u.expected = u.current := by
  have hsync : InSync s' :=
    Lts.exec_invariant (CasOk fs) InSync (fun _ _ _ h hok hs => h.step hok hs) h.inSync hok hexec
  exact hsync.uploads u hu

def allWell : Env where
  diskSpace := true
  shadowWrite := true
  shadowSync := true
  snapshotPut := true
  reportsRevision := true

def strictMount (shadow writeBack : Bool) (smallFileMax : Int) : Dat9FS where
  syncMode := .strict
  shadowStore := shadow
  pendingIndex := shadow
  writeBack := writeBack
  uploader := writeBack
  smallFileMax := smallFileMax
  debounceDelay := 0

def twoSyncs (data : Bytes) : List HandleOp :=
  [.write 0 [1] allWell, .fsync allWell, .write 0 data allWell, .fsync allWell]

theorem runs_upload_at_revision_two_syncs
    : ∃ s', Lts.exec (step (strictMount false false 10)) (create (strictMount false false 10) .writeBack true 0)
          (twoSyncs [2]) = some s'
        ∧ s'.uploads.length = 2
        ∧ ∀ u, u ∈ s'.uploads → u.expected = u.current := by
  have hok : Lts.Along (step (strictMount false false 10)) (CasOk (strictMount false false 10))
      (create (strictMount false false 10) .writeBack true 0) (twoSyncs [2]) := by decide +kernel
  refine ⟨_, rfl, rfl, ?_⟩
  intro u hu
  exact runs_upload_at_revision (opened_create _ _ _ _) hok rfl hu

-- The second upload is conditional on the file not being there, as the first one was: with the
-- content in the shadow, with an uploaded write-back snapshot, and with a streamer that was not
-- told.
theorem second_upload_conditional_on_old_revision
    : (∃ s', Lts.exec (step (strictMount true false 10)) (create (strictMount true false 10) .writeBack true 0)
          (twoSyncs [2]) = some s'
        ∧ s'.uploads = [{ expected := 0, current := 0 }, { expected := 0, current := 1 }])
      ∧ (∃ s', Lts.exec (step (strictMount false true 10)) (create (strictMount false true 10) .writeBack true 0)
            (.write 0 [1] allWell :: .flush allWell :: (twoSyncs [2]).drop 1) = some s'
          ∧ s'.uploads = [{ expected := 0, current := 0 }, { expected := 0, current := 1 }])
      ∧ ∃ s', Lts.exec (step (strictMount false false 2)) (create (strictMount false false 2) .writeBack true 0)
            (twoSyncs [2, 3]) = some s'
          ∧ s'.uploads = [{ expected := 0, current := 0 }, { expected := 0, current := 1 }] :=
  ⟨⟨_, rfl, rfl⟩, ⟨_, rfl, rfl⟩, ⟨_, rfl, rfl⟩⟩

end Session
