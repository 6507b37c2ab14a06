import Drive9.Fuse.Shadow.Impl

/-!
This module contains the invariant of the shadow store, and what the calls that write leave alone.
-/

namespace Shadow

open Shadow.ShadowStore

variable {hashPath : String → String} {start : Nat} {s : ShadowStore}

structure Inv (hashPath : String → String) (start : Nat) (s : ShadowStore) : Prop where
  disk : s.disk.Ok
  start_le : start ≤ s.disk.nextInode
  -- a file that was created here, or is open, has its name as a current or a retired file
  named : ∀ n i, s.disk.names.get? n = some i → (start ≤ i ∨ ∃ f, s.disk.fds.get? f = some i)
    → (∃ p f, n = shadowPath hashPath p ∧ s.files.get? p = some f)
      ∨ ∃ g rt, s.retired.get? g = some rt ∧ rt.diskPath = n
  files_open : ∀ p f, s.files.get? p = some f
    → ∃ i, s.disk.fds.get? f = some i ∧ s.disk.names.get? (shadowPath hashPath p) = some i
  active_file : ∀ p g, s.active.get? p = some g
    → ∃ f, s.files.get? p = some f ∧ s.genFile.get? g = some f
  gen_active : ∀ p g f, s.genFile.get? g = some f → s.files.get? p = some f
    → s.active.get? p = some g
  gen_open : ∀ g f, s.genFile.get? g = some f → ∃ i, s.disk.fds.get? f = some i
  gen_le : ∀ g f, s.genFile.get? g = some f → g ≤ s.nextGen
  refs_le : ∀ g r, s.refs.get? g = some r → 0 < r ∧ g ≤ s.nextGen
  pinned : ∀ g r, s.refs.get? g = some r
    → (∃ f, s.genFile.get? g = some f) ∨ ∃ rt, s.retired.get? g = some rt
  retired_ref : ∀ g rt, s.retired.get? g = some rt → ∃ r, s.refs.get? g = some r
  retired_gen : ∀ g rt g', s.retired.get? g = some rt → s.genFile.get? g' ≠ some rt.fd
  retired_inactive : ∀ g rt, s.retired.get? g = some rt → s.genFile.get? g = none
  retired_name : ∀ g rt, s.retired.get? g = some rt → ∃ hash, rt.diskPath = .retired hash g
  retired_open : ∀ g rt, s.retired.get? g = some rt
    → ∃ i, s.disk.fds.get? rt.fd = some i ∧ s.disk.names.get? rt.diskPath = some i

section Consequences

section

variable (h : Inv hashPath start s)

include h

theorem Inv.files_inj (hhash : Function.Injective hashPath) (hp : s.files.get? p = some f)
    (hp' : s.files.get? p' = some f)
    : p = p' := by
  obtain ⟨i, hf, hn⟩ := h.files_open p f hp
  obtain ⟨i', hf', hn'⟩ := h.files_open p' f hp'
  rw [hf] at hf'
  cases hf'
  exact hhash (Name.shadow.inj (h.disk.names_inj _ _ _ hn hn'))

theorem Inv.retired_file (hrt : s.retired.get? g = some rt) (p) : s.files.get? p ≠ some rt.fd := by
  intro hp
  obtain ⟨i, hf, hn⟩ := h.files_open p rt.fd hp
  obtain ⟨i', hf', hn'⟩ := h.retired_open g rt hrt
  obtain ⟨hash, hname⟩ := h.retired_name g rt hrt
  rw [hf] at hf'
  cases hf'
  have heq := h.disk.names_inj _ _ _ hn hn'
  rw [hname] at heq
  contradiction

theorem Inv.retired_inj (hrt : s.retired.get? g = some rt)
    (hrt' : s.retired.get? g' = some rt') (hfd : rt.fd = rt'.fd)
    : g = g' := by
  obtain ⟨i, hf, hn⟩ := h.retired_open g rt hrt
  obtain ⟨i', hf', hn'⟩ := h.retired_open g' rt' hrt'
  obtain ⟨hash, hname⟩ := h.retired_name g rt hrt
  obtain ⟨hash', hname'⟩ := h.retired_name g' rt' hrt'
  rw [hfd, hf'] at hf
  cases hf
  have heq := h.disk.names_inj _ _ _ hn hn'
  rw [hname, hname'] at heq
  exact (Name.retired.inj heq).2

theorem Inv.closed (hhash : Function.Injective hashPath) (hp : s.files.get? p = none)
    (hn : s.disk.names.get? (shadowPath hashPath p) = some i) (f)
    : s.disk.fds.get? f ≠ some i := by
  intro hf
  cases h.named _ i hn (.inr ⟨f, hf⟩) with
  | inl hcurrent =>
    obtain ⟨p', f', heq, hp'⟩ := hcurrent
    rw [hhash (Name.shadow.inj heq), hp'] at hp
    contradiction
  | inr hretired =>
    obtain ⟨g, rt, hrt, heq⟩ := hretired
    obtain ⟨hash, hname⟩ := h.retired_name g rt hrt
    rw [heq] at hname
    contradiction

end

end Consequences

section Frame

structure SameShape (s s' : ShadowStore) : Prop where
  names : s'.disk.names = s.disk.names
  fds : s'.disk.fds = s.disk.fds
  nextInode : s'.disk.nextInode = s.disk.nextInode
  nextFd : s'.disk.nextFd = s.disk.nextFd
  files : s'.files = s.files
  nextGen : s'.nextGen = s.nextGen
  active : s'.active = s.active
  genFile : s'.genFile = s.genFile
  refs : s'.refs = s.refs
  retired : s'.retired = s.retired

theorem SameShape.trans (h : SameShape s s') (h' : SameShape s' s'') : SameShape s s'' :=
  ⟨h'.names.trans h.names, h'.fds.trans h.fds, h'.nextInode.trans h.nextInode, h'.nextFd.trans h.nextFd,
    h'.files.trans h.files, h'.nextGen.trans h.nextGen, h'.active.trans h.active, h'.genFile.trans h.genFile,
    h'.refs.trans h.refs, h'.retired.trans h.retired⟩

theorem Inv.shape (h : Inv hashPath start s) (hs : SameShape s s') : Inv hashPath start s' := by
  obtain ⟨⟨names', data', fds', nextInode', nextFd'⟩, shadows', files', nextGen', active', genFile',
    refs', retired'⟩ := s'
  obtain ⟨rfl, rfl, rfl, rfl, rfl, rfl, rfl, rfl, rfl, rfl⟩ := hs
  exact { h with disk := { h.disk with } }

structure Wrote (sf : Nat) (s s' : ShadowStore) : Prop extends SameShape s s' where
  data : ∀ i, s.disk.fds.get? sf ≠ some i → s'.disk.data.get? i = s.disk.data.get? i

variable {sf : Nat} {disk : Disk Name}

theorem Wrote.refl (sf) (s) : Wrote sf s s :=
  ⟨⟨rfl, rfl, rfl, rfl, rfl, rfl, rfl, rfl, rfl, rfl⟩, fun _ _ => rfl⟩

theorem Wrote.trans (h : Wrote sf s s') (h' : Wrote sf s' s'') : Wrote sf s s'' := by
  refine ⟨h.toSameShape.trans h'.toSameShape, ?_⟩
  intro i hi
  rw [h'.data i (h.fds ▸ hi), h.data i hi]

theorem wrote_setFile (s) (sf) (f : ShadowFile → ShadowFile) : Wrote sf s (s.setFile sf f) :=
  ⟨⟨rfl, rfl, rfl, rfl, rfl, rfl, rfl, rfl, rfl, rfl⟩, fun _ _ => rfl⟩

theorem wrote_update (h : s.disk.update sf f = some disk) : Wrote sf s { s with disk } := by
  unfold Disk.update at h
  split at h
  . contradiction
  . next inode hfd =>
    cases h
    refine ⟨⟨rfl, rfl, rfl, rfl, rfl, rfl, rfl, rfl, rfl, rfl⟩, ?_⟩
    intro i hi
    apply FMap.get?_set_ne
    rintro rfl
    exact hi hfd

theorem wrote_disk_truncate (h : s.disk.truncate sf size = some disk)
    : Wrote sf s { s with disk } := by
  unfold Disk.truncate at h
  split at h
  . contradiction
  . exact wrote_update h

theorem wrote_disk_writeAt (h : s.disk.writeAt sf data offset = some disk)
    : Wrote sf s { s with disk } := by
  unfold Disk.writeAt at h
  split at h
  . contradiction
  . split at h
    . cases h
      exact Wrote.refl sf s
    . exact wrote_update h

section

variable (s)

theorem wrote_writeParts (sf) (parts)
    : Wrote sf s { s with disk := (writeParts s.disk sf parts).1 } := by
  induction parts generalizing s with
  | nil => exact Wrote.refl sf s
  | cons part parts ih =>
    unfold writeParts
    split
    . exact Wrote.refl sf s
    . next disk hwrite => exact (wrote_disk_writeAt hwrite).trans (ih { s with disk })

variable {path : String} {baseRev : Int} {data : Bytes}

-- The file of the path, which is opened first where it was not open, has been written to.
def WroteFile (hashPath : String → String) (s : ShadowStore) (path : String) (baseRev : Int)
    (s' : ShadowStore)
    : Prop :=
  Wrote (s.ensureShadowFile hashPath path baseRev).2 (s.ensureShadowFile hashPath path baseRev).1 s'

theorem wrote_ensure (path) (size baseRev)
    : WroteFile hashPath s path baseRev (s.ensure hashPath path size baseRev) := by
  unfold ShadowStore.ensure
  dsimp only
  split
  . apply Wrote.refl
  . next disk htrunc =>
    apply (wrote_disk_truncate htrunc).trans
    apply wrote_setFile

theorem wrote_truncate (path) (size baseRev)
    : WroteFile hashPath s path baseRev (s.truncate hashPath path size baseRev) := wrote_ensure s path size baseRev

theorem wrote_writeAt (path) (offset) (data) (baseRev)
    : WroteFile hashPath s path baseRev (s.writeAt hashPath path offset data baseRev) := by
  unfold ShadowStore.writeAt
  dsimp only
  split
  . apply Wrote.refl
  . next disk hwrite =>
    apply (wrote_disk_writeAt hwrite).trans
    apply wrote_setFile

theorem wrote_writeFull (path) (data) (baseRev)
    : WroteFile hashPath s path baseRev (s.writeFull hashPath path data baseRev) := by
  unfold ShadowStore.writeFull
  dsimp only
  split
  . apply Wrote.refl
  . next disk hempty =>
    apply (wrote_disk_truncate hempty).trans
    split
    . apply Wrote.refl
    . next disk hwrite =>
      apply (wrote_disk_writeAt hwrite).trans
      split
      . apply Wrote.refl
      . next disk htrunc =>
        apply (wrote_disk_truncate htrunc).trans
        apply wrote_setFile

theorem wrote_writeExtents (path) (wb) (baseRev)
    : WroteFile hashPath s path baseRev (s.writeExtents hashPath path wb baseRev) := by
  unfold ShadowStore.writeExtents
  dsimp only
  have hparts := wrote_writeParts (s.ensureShadowFile hashPath path baseRev).1
    (s.ensureShadowFile hashPath path baseRev).2 (dirtyData wb)
  split
  . next disk heq =>
    rw [heq] at hparts
    exact hparts
  . next disk heq =>
    rw [heq] at hparts
    apply hparts.trans
    split
    . apply wrote_setFile
    . next disk htrunc =>
      apply (wrote_setFile _ _ _).trans
      exact wrote_disk_truncate htrunc

end

end Frame

end Shadow
