import Drive9.Fuse.Shadow.Lemmas

/-!
This module contains the proof that the calls of the shadow store keep its invariant, as long as a
path is pinned with its file and renamed with its generation.
-/

namespace Shadow

open Shadow.ShadowStore Option FMap

variable {hashPath : String → String} {start : Nat} {s : ShadowStore}

variable {path : String}

theorem Inv.addFile (h : Inv hashPath start s) (hhash : Function.Injective hashPath)
    (hpath : s.files.get? path = none)
    (ho : Disk.Opened s.disk (shadowPath hashPath path) opened inode) (baseRev : Int)
    : Inv hashPath start (s.addFile path opened baseRev) := by
  have hclosed : ∀ f, s.disk.fds.get? f ≠ some inode := by
    cases ho.found with
    | inl hn => exact h.closed hhash hpath hn
    | inr hn =>
      intro f hf
      have hlt := (h.disk.fd_lt f inode hf).2
      omega
  have hname : ∀ n, s.disk.names.get? n = some inode → n = shadowPath hashPath path := by
    intro n hn
    cases ho.found with
    | inl hn' => exact h.disk.names_inj _ _ _ hn hn'
    | inr hn' =>
      have hlt := h.disk.name_lt n inode hn
      omega
  have hfresh : ∀ f i, s.disk.fds.get? f = some i → f ≠ opened.1 := by
    intro f i hf
    have hlt := (h.disk.fd_lt f i hf).1
    rw [ho.fd]
    omega
  have hnames := ho.names
  have hfds := ho.fds
  refine { h with
    disk := ?disk, start_le := ?start_le, named := ?named, files_open := ?files_open, active_file := ?active_file,
    gen_active := ?gen_active, gen_open := ?gen_open, retired_open := ?retired_open }
  case disk => exact ho.ok h.disk hclosed
  case start_le => exact Nat.le_trans h.start_le ho.nextInode
  case named =>
    intro n i hn hi
    dsimp only [ShadowStore.addFile] at hn hi ⊢
    by_cases heq : n = shadowPath hashPath path
    . exact .inl ⟨path, opened.1, heq, get?_set_self ..⟩
    . rw [hnames, if_neg heq] at hn
      have hi' : start ≤ i ∨ ∃ f, s.disk.fds.get? f = some i := by
        grind
      cases h.named n i hn hi' with
      | inl hcurrent =>
        obtain ⟨p, f, hp, hf⟩ := hcurrent
        refine .inl ⟨p, f, hp, ?_⟩
        grind
      | inr hretired => exact .inr hretired
  case files_open =>
    intro p f hp
    dsimp only [ShadowStore.addFile] at hp ⊢
    have hopen := h.files_open p f
    grind [shadowPath]
  case active_file =>
    intro p g hp
    obtain ⟨f, hf, hg⟩ := h.active_file p g hp
    refine ⟨f, ?_, hg⟩
    dsimp only [ShadowStore.addFile]
    grind
  case gen_active =>
    intro p g f hg hp
    obtain ⟨i, hi⟩ := h.gen_open g f hg
    have hactive := h.gen_active p g f hg
    dsimp only [ShadowStore.addFile] at hp ⊢
    grind
  case gen_open =>
    intro g f hg
    obtain ⟨i, hi⟩ := h.gen_open g f hg
    refine ⟨i, ?_⟩
    dsimp only [ShadowStore.addFile]
    rw [hfds, if_neg (hfresh f i hi)]
    exact hi
  case retired_open =>
    intro g rt hrt
    obtain ⟨i, hi, hn⟩ := h.retired_open g rt hrt
    obtain ⟨hash, hdisk⟩ := h.retired_name g rt hrt
    refine ⟨i, ?_, ?_⟩
    . dsimp only [ShadowStore.addFile]
      rw [hfds, if_neg (hfresh _ i hi)]
      exact hi
    . dsimp only [ShadowStore.addFile]
      rw [hnames, if_neg]
      . exact hn
      . rw [hdisk]
        apply Name.noConfusion

variable {gen sf : Nat}

section

variable (h : Inv hashPath start s)

include h

theorem Inv.setRefs {refs : FMap Nat Int}
    (hsub : ∀ g r, refs.get? g = some r → 0 < r ∧ ((∃ r', s.refs.get? g = some r') ∨ ∃ f, s.genFile.get? g = some f))
    (hretired : ∀ g rt, s.retired.get? g = some rt → ∃ r, refs.get? g = some r)
    : Inv hashPath start { s with refs } :=
  { h with
    refs_le := by
      intro g r hr
      obtain ⟨hpos, hold⟩ := hsub g r hr
      refine ⟨hpos, ?_⟩
      cases hold with
      | inl hold =>
        obtain ⟨r', hr'⟩ := hold
        exact (h.refs_le g r' hr').2
      | inr hgen =>
        obtain ⟨f, hf⟩ := hgen
        exact h.gen_le g f hf
    pinned := by
      intro g r hr
      cases (hsub g r hr).2 with
      | inl hold =>
        obtain ⟨r', hr'⟩ := hold
        exact h.pinned g r' hr'
      | inr hgen => exact .inl hgen
    retired_ref := hretired }

theorem Inv.addRef {gen f : Nat} (hgen : s.genFile.get? gen = some f)
    : Inv hashPath start (s.addRef gen) := by
  apply h.setRefs
  . intro g r hr
    rw [get?_set] at hr
    split at hr
    . next heq =>
      cases hr
      refine ⟨?_, .inr ⟨f, heq ▸ hgen⟩⟩
      cases hold : s.refs.get? gen with
      | none => exact Int.one_pos
      | some r =>
        have hpos := (h.refs_le gen r hold).1
        rw [getD_some]
        omega
    . exact ⟨(h.refs_le g r hr).1, .inl ⟨r, hr⟩⟩
  . intro g rt hrt
    obtain ⟨r, hr⟩ := h.retired_ref g rt hrt
    rw [get?_set]
    split
    . exact ⟨_, rfl⟩
    . exact ⟨r, hr⟩

section

variable (hhash : Function.Injective hashPath) (hfile : s.files.get? path = some sf)

include hhash hfile

theorem Inv.addGen (hactive : s.active.get? path = none) : Inv hashPath start { s with
        nextGen := s.nextGen + 1
        active := s.active.set path (s.nextGen + 1)
        genFile := s.genFile.set (s.nextGen + 1) sf } := by
  -- no other generation has the file, and none has the new number
  have hfresh : s.genFile.get? (s.nextGen + 1) = none := by
    cases hg : s.genFile.get? (s.nextGen + 1) with
    | none => rfl
    | some f =>
      have hle := h.gen_le _ f hg
      omega
  constructor
  case disk => exact h.disk
  case start_le => exact h.start_le
  case named => exact h.named
  case files_open => exact h.files_open
  case active_file =>
    intro p g hp
    have hold := h.active_file p g
    grind
  case gen_active =>
    intro p g f hg hp
    have hold := h.gen_active p g f
    have hinj : s.files.get? p = some sf → p = path := fun hp => h.files_inj hhash hp hfile
    grind
  case gen_open =>
    obtain ⟨i, hi, _⟩ := h.files_open path sf hfile
    exact forall_set h.gen_open ⟨i, hi⟩
  case gen_le =>
    intro g f hg
    dsimp only at hg ⊢
    rw [get?_set] at hg
    split at hg
    . omega
    . have hle := h.gen_le g f hg
      omega
  case refs_le =>
    intro g r hr
    have hle := h.refs_le g r hr
    dsimp only
    omega
  case pinned =>
    intro g r hr
    have hle := (h.refs_le g r hr).2
    rw [get?_set, if_neg (by omega)]
    exact h.pinned g r hr
  case retired_ref => exact h.retired_ref
  case retired_gen =>
    intro g rt g' hrt
    rw [get?_set]
    split
    . intro heq
      rw [Option.some.inj heq] at hfile
      exact h.retired_file hrt path hfile
    . exact h.retired_gen g rt g' hrt
  case retired_inactive =>
    intro g rt hrt
    obtain ⟨r, hr⟩ := h.retired_ref g rt hrt
    have hle := (h.refs_le g r hr).2
    rw [get?_set, if_neg (by omega)]
    exact h.retired_inactive g rt hrt
  case retired_name => exact h.retired_name
  case retired_open => exact h.retired_open

theorem Inv.pinFile : Inv hashPath start (s.pinFile path sf) := by
  unfold ShadowStore.pinFile
  split
  . next gen hactive =>
    obtain ⟨f, _, hgen⟩ := h.active_file path gen hactive
    exact h.addRef hgen
  . next hactive => exact (h.addGen hhash hfile hactive).addRef (get?_set_self ..)

end

theorem Inv.dropRetired (hrt : s.retired.get? gen = some rt)
    : Inv hashPath start { s with
        refs := s.refs.del gen
        retired := s.retired.del gen
        disk := (s.disk.close rt.fd).remove rt.diskPath } := by
  obtain ⟨hash, hname⟩ := h.retired_name gen rt hrt
  have hfds : ∀ f, ((s.disk.close rt.fd).remove rt.diskPath).fds.get? f
      = if f = rt.fd then none else s.disk.fds.get? f := fun f => get?_del ..
  have hnames : ∀ n, ((s.disk.close rt.fd).remove rt.diskPath).names.get? n
      = if n = rt.diskPath then none else s.disk.names.get? n := fun n => get?_del ..
  have hsub : ∀ g rt', (s.retired.del gen).get? g = some rt'
      → g ≠ gen ∧ s.retired.get? g = some rt' := by grind
  constructor
  case disk => exact (h.disk.close rt.fd).remove rt.diskPath
  case start_le => exact h.start_le
  case named =>
    intro n i hn hi
    have hold := h.named n i
    grind
  case files_open =>
    intro p f hp
    obtain ⟨i, hi, hn⟩ := h.files_open p f hp
    have hfd : f ≠ rt.fd := by
      intro heq
      exact h.retired_file hrt p (heq ▸ hp)
    refine ⟨i, ?_, ?_⟩
    . rw [hfds, if_neg hfd, hi]
    . rw [hnames, if_neg (by rw [hname]; exact Name.noConfusion), hn]
  case active_file => exact h.active_file
  case gen_active => exact h.gen_active
  case gen_open =>
    intro g f hg
    obtain ⟨i, hi⟩ := h.gen_open g f hg
    have hfd : f ≠ rt.fd := by
      intro heq
      exact h.retired_gen gen rt g hrt (heq ▸ hg)
    exact ⟨i, by rw [hfds, if_neg hfd, hi]⟩
  case gen_le => exact h.gen_le
  case refs_le =>
    intro g r hr
    have hold := h.refs_le g r
    grind
  case pinned =>
    intro g r hr
    have hold := h.pinned g r
    grind
  case retired_ref =>
    intro g rt' hg
    obtain ⟨hne, hg⟩ := hsub g rt' hg
    rw [get?_del, if_neg hne]
    exact h.retired_ref g rt' hg
  case retired_gen => exact fun g rt' g' hg => h.retired_gen g rt' g' (hsub g rt' hg).2
  case retired_inactive => exact fun g rt' hg => h.retired_inactive g rt' (hsub g rt' hg).2
  case retired_name => exact fun g rt' hg => h.retired_name g rt' (hsub g rt' hg).2
  case retired_open =>
    intro g rt' hg
    obtain ⟨hne, hg⟩ := hsub g rt' hg
    obtain ⟨i, hi, hn⟩ := h.retired_open g rt' hg
    obtain ⟨hash', hname'⟩ := h.retired_name g rt' hg
    refine ⟨i, ?_, ?_⟩
    . rw [hfds, if_neg (fun heq => hne (h.retired_inj hg hrt heq)), hi]
    . rw [hnames, if_neg (by rw [hname, hname']; exact fun heq => hne (Name.retired.inj heq).2), hn]

theorem Inv.unpin (gen) : Inv hashPath start (s.unpin gen) := by
  unfold ShadowStore.unpin
  dsimp only
  split
  . exact h
  . split
    . split
      . next hnone =>
        apply h.setRefs
        . intro g r hr
          have hold := (of_get?_del hr).2
          exact ⟨(h.refs_le g r hold).1, .inl ⟨r, hold⟩⟩
        . intro g rt hrt
          obtain ⟨r, hr⟩ := h.retired_ref g rt hrt
          refine ⟨r, ?_⟩
          rw [get?_del, if_neg, hr]
          rintro rfl
          rw [hrt] at hnone
          contradiction
      . next rt hrt => exact h.dropRetired hrt
    . next hpos =>
      cases hold : s.refs.get? gen with
      | none =>
        rw [hold] at hpos
        contradiction
      | some r =>
        rw [hold, getD_some] at hpos
        rw [getD_some]
        apply h.setRefs
        . intro g r' hr'
          rw [get?_set] at hr'
          split at hr'
          . next heq =>
            cases hr'
            exact ⟨by omega, .inl ⟨r, heq ▸ hold⟩⟩
          . exact ⟨(h.refs_le g r' hr').1, .inl ⟨r', hr'⟩⟩
        . intro g rt hrt
          rw [get?_set]
          split
          . exact ⟨_, rfl⟩
          . exact h.retired_ref g rt hrt

section

variable (hhash : Function.Injective hashPath)

include hhash

theorem Inv.retire (hactive : s.active.get? path = some gen) (href : s.refs.get? gen = some r)
    : Inv hashPath start (s.retire hashPath path gen) := by
  obtain ⟨sf, hfile, hgenfile⟩ := h.active_file path gen hactive
  obtain ⟨inode, hfd, hname⟩ := h.files_open path sf hfile
  cases hren : s.disk.rename (.shadow (hashPath path)) (.retired (hashPath path) gen) with
  | none =>
    unfold Disk.rename at hren
    unfold shadowPath at hname
    rw [hname] at hren
    contradiction
  | some disk =>
    have hnames := Disk.get?_names_rename hren
    have hok := h.disk.rename hren
    have hsame : disk.fds = s.disk.fds ∧ disk.nextInode = s.disk.nextInode := by
      unfold Disk.rename at hren
      split at hren
      . contradiction
      . cases hren
        exact ⟨rfl, rfl⟩
    unfold ShadowStore.retire retireDisk
    rw [hren, hfile]
    have hnotyet : s.retired.get? gen = none := by
      cases hrt : s.retired.get? gen with
      | none => rfl
      | some rt =>
        rw [h.retired_inactive gen rt hrt] at hgenfile
        contradiction
    have hpath : ∀ p, p ≠ path → shadowPath hashPath p ≠ Name.shadow (hashPath path) :=
      fun p hne heq => hne (hhash (Name.shadow.inj heq))
    constructor
    case disk => exact hok
    case start_le =>
      rw [hsame.2]
      exact h.start_le
    case named =>
      intro n i hn hi
      rw [hnames] at hn
      rw [hsame.1] at hi
      split at hn
      . next heq => exact .inr ⟨gen, _, get?_set_self .., heq.symm⟩
      . split at hn
        . contradiction
        . next hne =>
          cases h.named n i hn hi with
          | inl hcurrent =>
            obtain ⟨p, f, hp, hf⟩ := hcurrent
            have hpne : p ≠ path := by
              rintro rfl
              exact hne hp
            exact .inl ⟨p, f, hp, by rw [get?_del, if_neg hpne, hf]⟩
          | inr hret =>
            obtain ⟨g, rt, hrt, hn⟩ := hret
            exact .inr ⟨g, rt, by grind, hn⟩
    case files_open =>
      intro p f hp
      rw [get?_del] at hp
      split at hp
      . contradiction
      . next hne =>
        obtain ⟨i, hi, hn⟩ := h.files_open p f hp
        refine ⟨i, ?_, ?_⟩
        . rw [hsame.1, hi]
        . rw [hnames, if_neg Name.noConfusion, if_neg (hpath p hne), hn]
    case active_file =>
      intro p g hp
      have hold := h.active_file p g
      have hinj : s.files.get? p = some sf → p = path := fun hp => h.files_inj hhash hp hfile
      grind
    case gen_active =>
      intro p g f hg hp
      have hold := h.gen_active p g f
      grind
    case gen_open =>
      intro g f hg
      rw [hsame.1]
      exact h.gen_open g f (by grind)
    case gen_le => exact fun g f hg => h.gen_le g f (by dsimp only at hg; grind)
    case refs_le => exact h.refs_le
    case pinned =>
      intro g r hr
      rw [get?_del, get?_set]
      split
      . exact .inr ⟨_, rfl⟩
      . exact h.pinned g r hr
    case retired_ref =>
      intro g rt hrt
      have hold := h.retired_ref g rt
      grind
    case retired_gen =>
      intro g rt g' hrt
      have hold := h.retired_gen g rt g'
      have hsf : s.genFile.get? g' = some sf → g' = gen := by
        intro hg'
        have heq := h.gen_active path g' sf hg' hfile
        rw [hactive] at heq
        exact (Option.some.inj heq).symm
      grind
    case retired_inactive =>
      intro g rt hrt
      have hold := h.retired_inactive g rt
      grind
    case retired_name =>
      exact forall_set h.retired_name ⟨hashPath path, rfl⟩
    case retired_open =>
      intro g rt hrt
      rw [get?_set] at hrt
      rw [hsame.1]
      split at hrt
      . cases hrt
        exact ⟨inode, hfd, by rw [hnames, if_pos rfl]; exact hname⟩
      . next hne =>
        obtain ⟨i, hi, hn⟩ := h.retired_open g rt hrt
        obtain ⟨hash', hname'⟩ := h.retired_name g rt hrt
        refine ⟨i, hi, ?_⟩
        rw [hname'] at hn ⊢
        rw [hnames, if_neg (fun heq => hne (Name.retired.inj heq).2), if_neg Name.noConfusion, hn]

theorem Inv.forget (hactive : s.active.get? path = none) {disk : Disk Name}
    {files : FMap String Nat} (hdisk : disk.Ok) (hnext : disk.nextInode = s.disk.nextInode)
    (hfiles : ∀ p, files.get? p = if p = path then none else s.files.get? p)
    (hnames : ∀ n, disk.names.get? n = if n = shadowPath hashPath path then none else s.disk.names.get? n)
    (hfds : ∀ f, disk.fds.get? f = if s.files.get? path = some f then none else s.disk.fds.get? f)
    : Inv hashPath start { s with disk, files } := by
  have hshadow : ∀ p, p ≠ path → shadowPath hashPath p ≠ shadowPath hashPath path :=
    fun p hne heq => hne (hhash (Name.shadow.inj heq))
  refine { h with
    disk := hdisk, start_le := ?start_le, named := ?named, files_open := ?files_open, active_file := ?active_file,
    gen_active := ?gen_active, gen_open := ?gen_open, retired_open := ?retired_open }
  case start_le =>
    rw [hnext]
    exact h.start_le
  case named =>
    intro n i hn hi
    have hold := h.named n i
    grind
  case files_open =>
    intro p f hp
    have hold := h.files_open p f
    have hinj : s.files.get? p = some f → s.files.get? path = some f → p = path := h.files_inj hhash
    grind
  case active_file =>
    intro p g hp
    have hold := h.active_file p g hp
    have hne : p ≠ path := by
      rintro rfl
      rw [hactive] at hp
      contradiction
    rw [hfiles, if_neg hne]
    exact hold
  case gen_active =>
    intro p g f hg hp
    rw [hfiles] at hp
    split at hp
    . contradiction
    . exact h.gen_active p g f hg hp
  case gen_open =>
    intro g f hg
    have hne : s.files.get? path ≠ some f := by
      intro hfile
      rw [h.gen_active path g f hg hfile] at hactive
      contradiction
    rw [hfds, if_neg hne]
    exact h.gen_open g f hg
  case retired_open =>
    intro g rt hrt
    obtain ⟨hash, hname⟩ := h.retired_name g rt hrt
    have hold := h.retired_open g rt hrt
    rw [hname] at hold ⊢
    rw [hfds, if_neg (h.retired_file hrt path), hnames, if_neg Name.noConfusion]
    exact hold

theorem Inv.dropFile (hactive : s.active.get? path = none)
    : Inv hashPath start (s.dropFile hashPath path) := by
  unfold ShadowStore.dropFile
  split
  . next sf hfile =>
    apply h.forget hhash hactive ((h.disk.close sf).remove _) rfl
    . exact fun p => get?_del ..
    . exact fun n => get?_del ..
    . intro f
      simp only [hfile, Option.some.injEq, eq_comm (a := sf)]
      exact get?_del ..
  . next hfile =>
    apply h.forget hhash hactive (h.disk.remove _) rfl
    . intro p
      split
      . next heq => rw [heq, hfile]
      . rfl
    . exact fun n => get?_del ..
    . intro f
      simp [hfile, Disk.remove]

theorem Inv.dropGen (hactive : s.active.get? path = some gen) (href : s.refs.get? gen = none)
    : Inv hashPath start { s with
        active := s.active.del path
        genFile := s.genFile.del gen
        refs := s.refs.del gen } := by
  obtain ⟨sf, hfile, hgenfile⟩ := h.active_file path gen hactive
  have hsub : ∀ g f, (s.genFile.del gen).get? g = some f → s.genFile.get? g = some f := by grind
  have hrefs : ∀ g, (s.refs.del gen).get? g = s.refs.get? g := by
    intro g
    rw [get?_del]
    split
    . next heq => rw [heq, href]
    . rfl
  constructor
  case disk => exact h.disk
  case start_le => exact h.start_le
  case named => exact h.named
  case files_open => exact h.files_open
  case active_file =>
    intro p g hp
    have hold := h.active_file p g
    have hinj : s.files.get? p = some sf → p = path := fun hp => h.files_inj hhash hp hfile
    grind
  case gen_active =>
    intro p g f hg hp
    have hold := h.gen_active p g f
    grind
  case gen_open => exact fun g f hg => h.gen_open g f (hsub g f hg)
  case gen_le => exact fun g f hg => h.gen_le g f (hsub g f hg)
  case refs_le =>
    intro g r hr
    rw [hrefs] at hr
    exact h.refs_le g r hr
  case pinned =>
    intro g r hr
    rw [hrefs] at hr
    have hold := h.pinned g r hr
    grind
  case retired_ref =>
    intro g rt hrt
    rw [hrefs]
    exact h.retired_ref g rt hrt
  case retired_gen => exact fun g rt g' hrt hg => h.retired_gen g rt g' hrt (hsub g' rt.fd hg)
  case retired_inactive =>
    intro g rt hrt
    rw [get?_del, h.retired_inactive g rt hrt, ite_self]
  case retired_name => exact h.retired_name
  case retired_open => exact h.retired_open

theorem Inv.remove (path) : Inv hashPath start (s.remove hashPath path) := by
  unfold ShadowStore.remove
  split
  . next hactive => exact h.dropFile hhash hactive
  . next gen hactive =>
    cases href : s.refs.get? gen with
    | none =>
      rw [getD_none, if_neg (Int.lt_irrefl 0)]
      apply (h.dropGen hhash hactive href).dropFile hhash
      rw [get?_del, if_pos rfl]
    | some r =>
      rw [getD_some, if_pos (h.refs_le gen r href).1]
      exact h.retire hhash hactive href

end

end

-- The generation goes with the file, or there is none to go and none to lose.
def Renamable (s : ShadowStore) (oldPath newPath : String) : Prop :=
  s.files.get? oldPath = none ∨ s.active.get? newPath = none
    ∨ oldPath ≠ newPath ∧ s.active.get? oldPath ≠ none

instance decidableRenamable (s : ShadowStore) (oldPath newPath : String)
    : Decidable (Renamable s oldPath newPath) :=
  inferInstanceAs (Decidable (_ ∨ _ ∨ _ ∧ _))

theorem get?_moveActive (active : FMap String Nat)
    (h : active.get? newPath = none ∨ oldPath ≠ newPath ∧ active.get? oldPath ≠ none) (p : String)
    : (moveActive active oldPath newPath).get? p
      = if p = newPath then active.get? oldPath else if p = oldPath then none else active.get? p := by
  unfold moveActive
  split
  . next gen hgen =>
    rw [get?_del, get?_set]
    grind
  . grind

section

variable (h : Inv hashPath start s) (hhash : Function.Injective hashPath)

include h hhash

theorem Inv.rename
    (hren : Renamable s oldPath newPath)
    : Inv hashPath start (s.rename hashPath oldPath newPath) := by
  unfold ShadowStore.rename
  split
  . exact h
  . next sf hfile =>
    obtain ⟨inode, hfd, hname⟩ := h.files_open oldPath sf hfile
    have hmove : s.active.get? newPath = none
        ∨ oldPath ≠ newPath ∧ s.active.get? oldPath ≠ none := by
      cases hren with
      | inl hnone =>
        rw [hfile] at hnone
        contradiction
      | inr hmove => exact hmove
    split
    . next hnone =>
      unfold Disk.rename at hnone
      rw [hname] at hnone
      contradiction
    . next disk hdisk =>
      have hnames := Disk.get?_names_rename hdisk
      have hok := h.disk.rename hdisk
      have hsame : disk.fds = s.disk.fds ∧ disk.nextInode = s.disk.nextInode := by
        unfold Disk.rename at hdisk
        rw [hname] at hdisk
        cases hdisk
        exact ⟨rfl, rfl⟩
      have hact := get?_moveActive s.active hmove
      have hshadow : ∀ p q, shadowPath hashPath p = shadowPath hashPath q → p = q :=
        fun p q heq => hhash (Name.shadow.inj heq)
      refine { h with
        disk := hok, start_le := ?start_le, named := ?named, files_open := ?files_open, active_file := ?active_file,
        gen_active := ?gen_active, gen_open := ?gen_open, retired_open := ?retired_open }
      case start_le =>
        rw [hsame.2]
        exact h.start_le
      case named =>
        intro n i hn hi
        rw [hsame.1] at hi
        have hold := h.named n i
        grind
      case files_open =>
        intro p f hp
        rw [hsame.1]
        have hold := h.files_open p f
        grind
      case active_file =>
        intro p g hp
        have hold := h.active_file p g
        have hold' := h.active_file oldPath g
        grind
      case gen_active =>
        intro p g f hg hp
        have hold := h.gen_active p g f
        have hold' := h.gen_active oldPath g f
        grind
      case gen_open =>
        rw [hsame.1]
        exact h.gen_open
      case retired_open =>
        intro g rt hrt
        obtain ⟨i, hi, hn⟩ := h.retired_open g rt hrt
        obtain ⟨hash, hretname⟩ := h.retired_name g rt hrt
        refine ⟨i, by rw [hsame.1, hi], ?_⟩
        rw [hretname] at hn ⊢
        rw [hnames, if_neg Name.noConfusion, if_neg Name.noConfusion, hn]

theorem Inv.ensureShadowFile (path) (baseRev : Int)
    : Inv hashPath start (s.ensureShadowFile hashPath path baseRev).1
      ∧ (s.ensureShadowFile hashPath path baseRev).1.files.get? path
        = some (s.ensureShadowFile hashPath path baseRev).2 := by
  unfold ShadowStore.ensureShadowFile
  split
  . next sf hfile => exact ⟨h.shape (wrote_setFile s sf _).toSameShape, hfile⟩
  . next hfile =>
    obtain ⟨inode, ho⟩ := Disk.opened_openCreate s.disk (shadowPath hashPath path)
    exact ⟨h.addFile hhash hfile ho baseRev, get?_set_self ..⟩

theorem Inv.pinIfExists (path) : Inv hashPath start (s.pinIfExists hashPath path) := by
  unfold ShadowStore.pinIfExists
  split
  . next sf hfile => exact h.pinFile hhash hfile
  . next hfile =>
    split
    . exact h
    . next opened hopen =>
      obtain ⟨inode, ho⟩ := Disk.opened_open? hopen
      exact (h.addFile hhash hfile ho 0).pinFile hhash (get?_set_self ..)

end

theorem pin_eq_pinFile (hfile : s.files.get? path = some sf) : s.pin path = s.pinFile path sf := by
  unfold ShadowStore.pin ShadowStore.pinFile
  rw [hfile]

/--
The calls that keep the bookkeeping: a path is pinned only with its file, and renamed only with its
generation or onto a path that has none.
-/
def OpOk (s : ShadowStore) : Op → Prop
  | .pin path => s.files.get? path ≠ none
  | .rename oldPath newPath => Renamable s oldPath newPath
  | _ => True

instance decidableOpOk (s : ShadowStore) (op : Op) : Decidable (OpOk s op) := by
  unfold OpOk
  split <;> infer_instance

theorem Inv.run (h : Inv hashPath start s) (hhash : Function.Injective hashPath) (hop : OpOk s op)
    : Inv hashPath start (run hashPath s op) := by
  cases op with
  | ensure path size baseRev =>
    exact (h.ensureShadowFile hhash path baseRev).1.shape
      (wrote_ensure s path size baseRev).toSameShape
  | writeAt path offset data baseRev =>
    exact (h.ensureShadowFile hhash path baseRev).1.shape
      (wrote_writeAt s path offset data baseRev).toSameShape
  | writeFull path data baseRev =>
    exact (h.ensureShadowFile hhash path baseRev).1.shape
      (wrote_writeFull s path data baseRev).toSameShape
  | writeExtents path wb baseRev =>
    exact (h.ensureShadowFile hhash path baseRev).1.shape
      (wrote_writeExtents s path wb baseRev).toSameShape
  | truncate path size baseRev =>
    exact (h.ensureShadowFile hhash path baseRev).1.shape
      (wrote_truncate s path size baseRev).toSameShape
  | pin path =>
    obtain ⟨sf, hfile⟩ := ne_none_iff_exists'.mp hop
    have hpin : Shadow.run hashPath s (.pin path) = s.pinFile path sf := pin_eq_pinFile hfile
    rw [hpin]
    exact h.pinFile hhash hfile
  | pinIfExists path => exact h.pinIfExists hhash path
  | unpin gen => exact h.unpin gen
  | remove path => exact h.remove hhash path
  | rename oldPath newPath => exact h.rename hhash hop

theorem inv_newShadowStore {disk : Disk Name} (hdisk : disk.Ok) (hfds : ∀ f, disk.fds.get? f = none)
    : Inv hashPath disk.nextInode (newShadowStore disk) := by
  constructor
  case disk => exact hdisk
  case start_le => exact Nat.le_refl _
  case named =>
    intro n i hn hi
    cases hi with
    | inl hle =>
      have hlt := hdisk.name_lt n i hn
      omega
    | inr hopen =>
      obtain ⟨f, hf⟩ := hopen
      change disk.fds.get? f = _ at hf
      rw [hfds] at hf
      contradiction
  all_goals
    intros
    contradiction

end Shadow
