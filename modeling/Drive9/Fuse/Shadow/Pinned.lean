import Drive9.Fuse.Shadow.Steps
import Drive9.Lib.Lts

/-!
This module contains the proof that a pinned generation stays readable, that its bytes stay as they
were when its path was removed, and that no file stays behind in the shadow directory.
-/

namespace Shadow

open Shadow.ShadowStore Option FMap

variable {hashPath : String → String} {start gen : Nat} {s s' : ShadowStore}

def Held (gen f : Nat) (s : ShadowStore) : Prop :=
  s.genFile.get? gen = some f ∨ ∃ rt, s.retired.get? gen = some rt ∧ rt.fd = f

theorem Held.fd_open (hheld : Held gen f s) (h : Inv hashPath start s)
    : ∃ i, s.disk.fds.get? f = some i := by
  cases hheld with
  | inl hgen => exact h.gen_open gen f hgen
  | inr hret =>
    obtain ⟨rt, hrt, rfl⟩ := hret
    obtain ⟨i, hi, _⟩ := h.retired_open gen rt hrt
    exact ⟨i, hi⟩

theorem Held.readAtGen (hheld : Held gen f s) (h : Inv hashPath start s) (offset) (len)
    : s.readAtGen gen offset len = s.disk.readAt f offset len := by
  unfold ShadowStore.readAtGen
  cases hheld with
  | inl hgen => rw [hgen]
  | inr hret =>
    obtain ⟨rt, hrt, rfl⟩ := hret
    rw [h.retired_inactive gen rt hrt, hrt]

theorem Inv.held (h : Inv hashPath start s) (hr : s.refs.get? gen = some r)
    : ∃ f, Held gen f s := by
  cases h.pinned gen r hr with
  | inl hgen =>
    obtain ⟨f, hf⟩ := hgen
    exact ⟨f, .inl hf⟩
  | inr hret =>
    obtain ⟨rt, hrt⟩ := hret
    exact ⟨rt.fd, .inr ⟨rt, hrt, rfl⟩⟩

theorem Inv.held_ne (h : Inv hashPath start s) (hfile : s.files.get? path = some sf)
    (hactive : s.active.get? path ≠ some gen) (hheld : Held gen f s)
    : f ≠ sf := by
  rintro rfl
  cases hheld with
  | inl hgen => exact hactive (h.gen_active path gen f hgen hfile)
  | inr hret =>
    obtain ⟨rt, hrt, rfl⟩ := hret
    exact h.retired_file hrt path hfile

structure Keeps (gen : Nat) (s s' : ShadowStore) : Prop where
  nextGen : s.nextGen ≤ s'.nextGen
  active : ∀ p, s'.active.get? p = some gen → ∃ p', s.active.get? p' = some gen
  held : ∀ f, Held gen f s' → Held gen f s
  content : ∀ f, Held gen f s' → s'.disk.content f = s.disk.content f

theorem Keeps.refl (gen) (s) : Keeps gen s s :=
  ⟨Nat.le_refl _, fun p hp => ⟨p, hp⟩, fun _ h => h, fun _ _ => rfl⟩

theorem Keeps.trans (h : Keeps gen s s') (h' : Keeps gen s' s'') : Keeps gen s s'' where
  nextGen := Nat.le_trans h.nextGen h'.nextGen
  active := by
    intro p hp
    obtain ⟨p', hp'⟩ := h'.active p hp
    exact h.active p' hp'
  held f hf := h.held f (h'.held f hf)
  content := by
    intro f hf
    rw [h'.content f hf, h.content f (h'.held f hf)]

section Steps

theorem keeps_addFile (h : Inv hashPath start s)
    (ho : Disk.Opened s.disk (shadowPath hashPath path) opened inode) (baseRev)
    : Keeps gen s (s.addFile path opened baseRev) := by
  refine ⟨Nat.le_refl _, fun p hp => ⟨p, hp⟩, fun _ hf => hf, ?_⟩
  intro f hf
  obtain ⟨i, hi⟩ := Held.fd_open (s := s) hf h
  have hlt := h.disk.fd_lt f i hi
  have hne : f ≠ opened.1 := by
    rw [ho.fd]
    omega
  apply Disk.content_congr
  . exact (ho.fds f).trans (if_neg hne)
  . intro i' hi'
    rw [hi] at hi'
    cases hi'
    exact ho.data i hlt.2

theorem keeps_wrote (h : Inv hashPath start s) (hw : Wrote sf s s') (hsf : ¬ Held gen sf s)
    : Keeps gen s s' := by
  have hheld : ∀ f, Held gen f s' → Held gen f s := by
    intro f hf
    unfold Held at hf ⊢
    rw [hw.genFile, hw.retired] at hf
    exact hf
  refine ⟨Nat.le_of_eq hw.nextGen.symm, ?_, hheld, ?_⟩
  . intro p hp
    rw [hw.active] at hp
    exact ⟨p, hp⟩
  . intro f hf
    have hne : f ≠ sf := by
      rintro rfl
      exact hsf (hheld f hf)
    apply Disk.content_congr
    . rw [hw.fds]
    . intro i hi
      exact hw.data i fun hi' => hne (h.disk.fds_inj f sf i hi hi')

theorem keeps_pinFile (path) (sf) (hgen : gen ≤ s.nextGen) : Keeps gen s (s.pinFile path sf) := by
  unfold ShadowStore.pinFile
  split
  . exact { Keeps.refl gen s with }
  . have hne : gen ≠ s.nextGen + 1 := by omega
    refine ⟨Nat.le_succ _, ?_, ?_, fun _ _ => rfl⟩
    . intro p hp
      change (s.active.set path (s.nextGen + 1)).get? p = _ at hp
      rw [get?_set] at hp
      split at hp
      . exact absurd (Option.some.inj hp).symm hne
      . exact ⟨p, hp⟩
    . intro f hf
      cases hf with
      | inl hf =>
        change (s.genFile.set (s.nextGen + 1) sf).get? gen = _ at hf
        rw [get?_set_ne _ _ hne] at hf
        exact .inl hf
      | inr hret => exact .inr hret

theorem keeps_unpin (h : Inv hashPath start s) (gen') : Keeps gen s (s.unpin gen') := by
  unfold ShadowStore.unpin
  dsimp only
  split
  . exact Keeps.refl gen s
  . split
    . split
      . exact { Keeps.refl gen s with }
      . next rt hrt =>
        -- what is still held was not closed
        have hheld : ∀ f, s.genFile.get? gen = some f
            ∨ (∃ rt', (s.retired.del gen').get? gen = some rt' ∧ rt'.fd = f)
            → Held gen f s ∧ f ≠ rt.fd := by
          intro f hf
          cases hf with
          | inl hf =>
            refine ⟨.inl hf, ?_⟩
            rintro rfl
            exact h.retired_gen gen' rt gen hrt hf
          | inr hret =>
            obtain ⟨rt', hrt', rfl⟩ := hret
            obtain ⟨hne, hold⟩ := of_get?_del hrt'
            exact ⟨.inr ⟨rt', hold, rfl⟩, fun hfd => hne (h.retired_inj hold hrt hfd)⟩
        refine ⟨Nat.le_refl _, fun p hp => ⟨p, hp⟩, fun f hf => (hheld f hf).1, ?_⟩
        intro f hf
        apply Disk.content_congr
        . exact (get?_del ..).trans (if_neg (hheld f hf).2)
        . exact fun _ _ => rfl
    . exact { Keeps.refl gen s with }

theorem keeps_dropFile (h : Inv hashPath start s) (hactive : s.active.get? path = none)
    : Keeps gen s (s.dropFile hashPath path) := by
  unfold ShadowStore.dropFile
  split
  . next sf hfile =>
    refine ⟨Nat.le_refl _, fun p hp => ⟨p, hp⟩, fun _ hf => hf, ?_⟩
    intro f hf
    have hne : f ≠ sf := by
      refine h.held_ne hfile ?_ (show Held gen f s from hf)
      rw [hactive]
      exact (some_ne_none gen).symm
    apply Disk.content_congr
    . exact (get?_del ..).trans (if_neg hne)
    . exact fun _ _ => rfl
  . exact { Keeps.refl gen s with }

theorem content_retireDisk (disk : Disk Name) (hash : String) (gen f)
    : (retireDisk disk hash gen).1.content f = disk.content f := by
  unfold retireDisk Disk.rename
  cases disk.names.get? (.shadow hash) with
  | none | some inode => rfl

section

variable (h : Inv hashPath start s)

include h

theorem keeps_retire (hactive : s.active.get? path = some gen')
    : Keeps gen s (s.retire hashPath path gen') := by
  obtain ⟨sf, hfile, hgenfile⟩ := h.active_file path gen' hactive
  have hdisk : ∀ f, (s.retire hashPath path gen').disk.content f = s.disk.content f :=
    fun f => content_retireDisk s.disk (hashPath path) gen' f
  refine ⟨Nat.le_refl _, ?_, ?_, fun f _ => hdisk f⟩
  . intro p hp
    exact ⟨p, (of_get?_del hp).2⟩
  . intro f hf
    unfold Held ShadowStore.retire at hf
    rw [hfile] at hf
    rw [get?_del, get?_set] at hf
    split at hf
    . next heq =>
      cases hf with
      | inl hf => contradiction
      | inr hret =>
        -- the file was that of the generation
        obtain ⟨rt, hrt, rfl⟩ := hret
        cases hrt
        exact .inl (heq ▸ hgenfile)
    . exact hf

theorem keeps_remove (hhash : Function.Injective hashPath) (path)
    : Keeps gen s (s.remove hashPath path) := by
  unfold ShadowStore.remove
  split
  . next hactive => exact keeps_dropFile h hactive
  . next gen' hactive =>
    split
    . exact keeps_retire h hactive
    . next hpos =>
      have href : s.refs.get? gen' = none := by
        cases hr : s.refs.get? gen' with
        | none => rfl
        | some r =>
          rw [hr] at hpos
          exact absurd (h.refs_le gen' r hr).1 hpos
      have hdrop : Keeps gen s { s with
          active := s.active.del path
          genFile := s.genFile.del gen'
          refs := s.refs.del gen' } := by
        refine ⟨Nat.le_refl _, ?_, ?_, fun _ _ => rfl⟩
        . intro p hp
          exact ⟨p, (of_get?_del hp).2⟩
        . intro f hf
          unfold Held at hf
          rw [get?_del] at hf
          split at hf
          . exact .inr (hf.resolve_left (some_ne_none f).symm)
          . exact hf
      apply hdrop.trans
      apply keeps_dropFile (h.dropGen hhash hactive href)
      rw [get?_del, if_pos rfl]

theorem keeps_rename (hren : Renamable s oldPath newPath)
    : Keeps gen s (s.rename hashPath oldPath newPath) := by
  unfold ShadowStore.rename
  split
  . exact Keeps.refl gen s
  . next sf hfile =>
    obtain ⟨inode, hfd, hname⟩ := h.files_open oldPath sf hfile
    unfold Disk.rename
    rw [hname]
    refine ⟨Nat.le_refl _, ?_, fun _ hf => hf, fun _ _ => rfl⟩
    intro p hp
    rw [get?_moveActive s.active (hren.resolve_left (by rw [hfile]; exact some_ne_none sf))] at hp
    split at hp
    . exact ⟨oldPath, hp⟩
    . split at hp
      . contradiction
      . exact ⟨p, hp⟩

theorem keeps_write (hhash : Function.Injective hashPath)
    (hw : WroteFile hashPath s path baseRev s') (hactive : ∀ p, s.active.get? p ≠ some gen)
    : Keeps gen s s' := by
  obtain ⟨hinv, hfile⟩ := h.ensureShadowFile hhash path baseRev
  have hopen : Keeps gen s (s.ensureShadowFile hashPath path baseRev).1 := by
    unfold ShadowStore.ensureShadowFile
    split
    . exact { Keeps.refl gen s with }
    . obtain ⟨inode, ho⟩ := Disk.opened_openCreate s.disk (shadowPath hashPath path)
      exact keeps_addFile h ho baseRev
  apply hopen.trans
  apply keeps_wrote hinv hw
  intro hheld
  refine hinv.held_ne hfile ?_ hheld rfl
  intro hp
  obtain ⟨p', hp'⟩ := hopen.active path hp
  exact hactive p' hp'

theorem keeps_run (hhash : Function.Injective hashPath) (hop : OpOk s op)
    (hgen : gen ≤ s.nextGen) (hactive : ∀ p, s.active.get? p ≠ some gen)
    : Keeps gen s (run hashPath s op) := by
  cases op with
  | ensure path size baseRev => exact keeps_write h hhash (wrote_ensure s path size baseRev) hactive
  | writeAt path offset data baseRev =>
    exact keeps_write h hhash (wrote_writeAt s path offset data baseRev) hactive
  | writeFull path data baseRev =>
    exact keeps_write h hhash (wrote_writeFull s path data baseRev) hactive
  | writeExtents path wb baseRev =>
    exact keeps_write h hhash (wrote_writeExtents s path wb baseRev) hactive
  | truncate path size baseRev =>
    exact keeps_write h hhash (wrote_truncate s path size baseRev) hactive
  | pin path =>
    obtain ⟨sf, hfile⟩ := ne_none_iff_exists'.mp hop
    have hpin : run hashPath s (.pin path) = s.pinFile path sf := pin_eq_pinFile hfile
    rw [hpin]
    exact keeps_pinFile path sf hgen
  | pinIfExists path =>
    unfold Shadow.run ShadowStore.pinIfExists
    dsimp only
    split
    . exact keeps_pinFile path _ hgen
    . split
      . exact Keeps.refl gen s
      . next opened hopen =>
        obtain ⟨inode, ho⟩ := Disk.opened_open? hopen
        exact (keeps_addFile h ho 0).trans (keeps_pinFile path _ hgen)
  | unpin gen' => exact keeps_unpin h gen'
  | remove path => exact keeps_remove h hhash path
  | rename oldPath newPath => exact keeps_rename h hop

end

end Steps

section Runs

section

variable (h : Inv hashPath start s) (hhash : Function.Injective hashPath)

include h hhash

theorem Inv.exec
    (hok : Lts.Along (step hashPath) OpOk s ops) (hexec : Lts.exec (step hashPath) s ops = some s')
    : Inv hashPath start s' := by
  apply Lts.exec_invariant OpOk (Inv hashPath start) _ h hok hexec
  intro s op s' h hop hstep
  cases hstep
  exact h.run hhash hop

theorem keeps_exec (hgen : gen ≤ s.nextGen)
    (hactive : ∀ p, s.active.get? p ≠ some gen) (hok : Lts.Along (step hashPath) OpOk s ops)
    (hexec : Lts.exec (step hashPath) s ops = some s')
    : Keeps gen s s' := by
  have hboth : Inv hashPath start s' ∧ Keeps gen s s' := by
    apply Lts.exec_invariant OpOk (fun s' => Inv hashPath start s' ∧ Keeps gen s s') _
      ⟨h, Keeps.refl gen s⟩ hok hexec
    intro s1 op s2 hs1 hop hstep
    cases hstep
    refine ⟨hs1.1.run hhash hop, hs1.2.trans (keeps_run hs1.1 hhash hop (Nat.le_trans hgen hs1.2.nextGen) ?_)⟩
    intro p hp
    obtain ⟨p', hp'⟩ := hs1.2.active p hp
    exact hactive p' hp'
  exact hboth.2

end

theorem Keeps.readAtGen (hk : Keeps gen s s') (h : Inv hashPath start s)
    (h' : Inv hashPath start s') (hr : s'.refs.get? gen = some r) (offset) (len)
    : s'.readAtGen gen offset len = s.readAtGen gen offset len := by
  obtain ⟨f, hf⟩ := h'.held hr
  rw [hf.readAtGen h', (hk.held f hf).readAtGen h]
  unfold Disk.readAt
  rw [hk.content f hf]

theorem Inv.inactive_remove (h : Inv hashPath start s) (hhash : Function.Injective hashPath)
    (hactive : s.active.get? path = some gen) (p)
    : (s.remove hashPath path).active.get? p ≠ some gen := by
  have hdel : ∀ p, (s.remove hashPath path).active.get? p = if p = path then none else s.active.get? p := by
    intro p
    unfold ShadowStore.remove ShadowStore.dropFile
    rw [hactive]
    dsimp only
    split
    . exact get?_del ..
    . split
      all_goals exact get?_del ..
  rw [hdel]
  split
  . exact (some_ne_none gen).symm
  . next hne =>
    intro hp
    obtain ⟨f, hf, hg⟩ := h.active_file p gen hp
    obtain ⟨f', hf', hg'⟩ := h.active_file path gen hactive
    rw [hg] at hg'
    cases hg'
    exact hne (h.files_inj hhash hf hf')

end Runs

def Pinned (gen : Nat) (s : ShadowStore) : Prop := 0 < (s.refs.get? gen).getD 0

instance decidablePinned (gen : Nat) (s : ShadowStore) : Decidable (Pinned gen s) :=
  inferInstanceAs (Decidable (0 < (s.refs.get? gen).getD 0))

theorem Pinned.refs (h : Pinned gen s) : ∃ r, s.refs.get? gen = some r := by
  unfold Pinned at h
  cases hr : s.refs.get? gen with
  | none =>
    rw [hr] at h
    contradiction
  | some r => exact ⟨r, rfl⟩

/--
In a directory with any files, after calls that pin a path only with its file and rename it only
with its generation or onto a path that has none.
-/
theorem pinned_generations_kept (hashPath : String → String) (hhash : Function.Injective hashPath)
    (files : List (Name × Bytes)) (ops : List Op) (s : ShadowStore)
    (hexec : Lts.exec (step hashPath) (newShadowStore (.ofFiles files)) ops = some s)
    (hok : Lts.Along (step hashPath) OpOk (newShadowStore (.ofFiles files)) ops)
    : (∀ path gen, s.active.get? path = some gen → ∃ sf, s.files.get? path = some sf ∧ s.genFile.get? gen = some sf)
      ∧ (∀ gen, Pinned gen s → ∀ offset len, 0 ≤ offset → (s.readAtGen gen offset len).isSome)
      ∧ (∀ path gen, Pinned gen s → (s.active.get? path = some gen ∨ ∀ p, s.active.get? p ≠ some gen)
          → ∀ later s', Lts.exec (step hashPath) s (.remove path :: later) = some s'
          → Lts.Along (step hashPath) OpOk s (.remove path :: later) → Pinned gen s'
          → ∀ offset len, s'.readAtGen gen offset len = s.readAtGen gen offset len)
      ∧ ∀ name inode, s.disk.names.get? name = some inode → (Disk.ofFiles files).nextInode ≤ inode
          → (∃ path sf, name = shadowPath hashPath path ∧ s.files.get? path = some sf
              ∧ s.disk.fds.get? sf = some inode)
            ∨ ∃ gen rt, s.retired.get? gen = some rt ∧ rt.diskPath = name
              ∧ s.disk.fds.get? rt.fd = some inode
              ∧ Pinned gen s := by
  obtain ⟨hdisk, hfds⟩ := Disk.ok_ofFiles files
  have h := (inv_newShadowStore hdisk hfds).exec hhash hok hexec
  refine ⟨h.active_file, ?_, ?_, ?_⟩
  . intro gen hpin offset len hoffset
    obtain ⟨r, hr⟩ := hpin.refs
    obtain ⟨f, hf⟩ := h.held hr
    obtain ⟨i, hi⟩ := hf.fd_open h
    rw [hf.readAtGen h]
    unfold Disk.readAt Disk.content
    rw [if_neg (Int.not_lt.mpr hoffset), hi]
    rfl
  . intro path gen hpin hpath later s' hexec' hok' hpin' offset len
    obtain ⟨r, hr⟩ := hpin.refs
    obtain ⟨r', hr'⟩ := hpin'.refs
    have hkeep : Keeps gen s (s.remove hashPath path) := keeps_remove h hhash path
    have hinactive : ∀ p, (s.remove hashPath path).active.get? p ≠ some gen := by
      cases hpath with
      | inl hactive => exact h.inactive_remove hhash hactive
      | inr hnone =>
        intro p hp
        obtain ⟨p', hp'⟩ := hkeep.active p hp
        exact hnone p' hp'
    have hrem := h.remove hhash path
    have hlater := keeps_exec hrem hhash (Nat.le_trans (h.refs_le gen r hr).2 hkeep.nextGen) hinactive hok'.2 hexec'
    exact (hkeep.trans hlater).readAtGen h (hrem.exec hhash hok'.2 hexec') hr' offset len
  . intro name inode hname hstart
    cases h.named name inode hname (.inl hstart) with
    | inl hcurrent =>
      obtain ⟨path, sf, rfl, hfile⟩ := hcurrent
      obtain ⟨i, hi, hn⟩ := h.files_open path sf hfile
      rw [hname] at hn
      cases hn
      exact .inl ⟨path, sf, rfl, hfile, hi⟩
    | inr hret =>
      obtain ⟨gen, rt, hrt, rfl⟩ := hret
      obtain ⟨i, hi, hn⟩ := h.retired_open gen rt hrt
      obtain ⟨r, hr⟩ := h.retired_ref gen rt hrt
      rw [hname] at hn
      cases hn
      refine .inr ⟨gen, rt, hrt, rfl, hi, ?_⟩
      unfold Pinned
      rw [hr]
      exact (h.refs_le gen r hr).1

-- A file is pinned, renamed, removed and written again under the same name: the pin still reads the
-- old bytes.
theorem pinned_generations_kept_rewritten
    : ∃ s s', Lts.exec (step id) (newShadowStore (.ofFiles []))
          [.writeFull "/a" [1, 2] 0, .pin "/a", .rename "/a" "/b"] = some s
        ∧ Lts.exec (step id) s [.remove "/b", .writeFull "/b" [3] 0] = some s'
        ∧ (∃ sf, s.files.get? "/b" = some sf ∧ s.genFile.get? 1 = some sf)
        ∧ s'.readAtGen 1 0 2 = s.readAtGen 1 0 2 ∧ (s.readAtGen 1 0 2).isSome := by
  obtain ⟨hactive, hreads, hkept, _⟩ := pinned_generations_kept id Function.injective_id []
    [.writeFull "/a" [1, 2] 0, .pin "/a", .rename "/a" "/b"] _ rfl (by decide +kernel)
  refine ⟨_, _, rfl, rfl, hactive "/b" 1 (by decide +kernel), ?_,
    hreads 1 (by decide +kernel) 0 2 (by decide)⟩
  exact hkept "/b" 1 (by decide +kernel) (.inl (by decide +kernel)) [.writeFull "/b" [3] 0] _ rfl
    (by decide +kernel) (by decide +kernel) 0 2

-- Pinned without its file, the generation never gets one; renamed onto a pinned path, a file comes
-- under the generation of another; renamed to itself, a path loses its generation, and the file is
-- closed with the path.
theorem pinned_generation_unreadable
    : (∃ s, Lts.exec (step id) (newShadowStore (.ofFiles [])) [.pin "/a", .writeFull "/a" [1, 2] 0] = some s
        ∧ s.active.get? "/a" = some 1 ∧ Pinned 1 s ∧ s.files.get? "/a" = some 0
        ∧ s.genFile.get? 1 = none
        ∧ s.readAtGen 1 0 2 = none)
      ∧ (∃ s, Lts.exec (step id) (newShadowStore (.ofFiles []))
            [.writeFull "/a" [1, 2] 0, .writeFull "/b" [3, 4] 0, .pin "/b", .rename "/a" "/b"] = some s
        ∧ s.active.get? "/b" = some 1 ∧ Pinned 1 s ∧ s.files.get? "/b" = some 0
        ∧ s.genFile.get? 1 = some 1
        ∧ s.readAtGen 1 0 2 = some [3, 4] ∧ (s.remove id "/b").readAtGen 1 0 2 = some [1, 2])
      ∧ ∃ s, Lts.exec (step id) (newShadowStore (.ofFiles []))
            [.writeFull "/a" [1, 2] 0, .pin "/a", .rename "/a" "/a", .remove "/a"] = some s
        ∧ Pinned 1 s ∧ s.readAtGen 1 0 2 = none :=
  ⟨⟨_, rfl, by decide +kernel⟩, ⟨_, rfl, by decide +kernel⟩, ⟨_, rfl, by decide +kernel⟩⟩

end Shadow
