import Drive9.Lib.FMap
import Drive9.Lib.Flat

/-!
This module contains a directory of files as POSIX has it.
-/

structure Disk (ν : Type) where
  names : FMap ν Nat
  data : FMap Nat (List UInt8)
  fds : FMap Nat Nat
  nextInode : Nat
  nextFd : Nat

namespace Disk

variable {ν : Type}

def content (d : Disk ν) (fd : Nat) : Option (List UInt8) :=
  (d.fds.get? fd).map fun inode => (d.data.get? inode).getD []

variable {d d' : Disk ν}

theorem content_congr (hfd : d'.fds.get? f = d.fds.get? f)
    (hdata : ∀ i, d.fds.get? f = some i → d'.data.get? i = d.data.get? i)
    : d'.content f = d.content f := by
  unfold content
  rw [hfd]
  cases hi : d.fds.get? f with
  | none => rfl
  | some i => rw [Option.map_some, Option.map_some, hdata i hi]

def size (d : Disk ν) (fd : Nat) : Int := ((d.content fd).getD []).length

def close (d : Disk ν) (fd : Nat) : Disk ν := { d with fds := d.fds.del fd }

def update (d : Disk ν) (fd : Nat) (f : List UInt8 → List UInt8) : Option (Disk ν) :=
  match d.fds.get? fd with
  | none => none
  | some inode => some { d with data := d.data.set inode (f ((d.data.get? inode).getD [])) }

def truncate (d : Disk ν) (fd : Nat) (size : Int) : Option (Disk ν) :=
  if size < 0 then none else d.update fd fun bytes => Flat.resize 0 bytes size.toNat

def writeAt (d : Disk ν) (fd : Nat) (data : List UInt8) (offset : Int) : Option (Disk ν) :=
  if offset < 0 then none
  else if data = [] then some d
  else d.update fd fun bytes => Flat.write 0 bytes offset.toNat data

def readAt (d : Disk ν) (fd : Nat) (offset : Int) (len : Nat) : Option (List UInt8) :=
  if offset < 0 then none else (d.content fd).map fun bytes => Flat.slice bytes offset.toNat (offset.toNat + len)

def openInode (d : Disk ν) (inode : Nat) : Nat × Disk ν :=
  (d.nextFd, { d with fds := d.fds.set d.nextFd inode, nextFd := d.nextFd + 1 })

theorem get?_fds_openInode (d : Disk ν) (inode f)
    : (d.openInode inode).2.fds.get? f
      = if f = (d.openInode inode).1 then some inode else d.fds.get? f := by
  apply FMap.get?_set

variable [DecidableEq ν]

def open? (d : Disk ν) (name : ν) : Option (Nat × Disk ν) := (d.names.get? name).map d.openInode

def create (d : Disk ν) (name : ν) : Disk ν :=
  { d with names := d.names.set name d.nextInode, data := d.data.set d.nextInode [], nextInode := d.nextInode + 1 }

def ofFiles : List (ν × List UInt8) → Disk ν
  | [] => ⟨.empty, .empty, .empty, 0, 0⟩
  | (name, bytes) :: files =>
    { (ofFiles files).create name with data := (ofFiles files).data.set (ofFiles files).nextInode bytes }

def openCreate (d : Disk ν) (name : ν) : Nat × Disk ν :=
  match d.names.get? name with
  | some inode => d.openInode inode
  | none => (d.create name).openInode d.nextInode

def rename (d : Disk ν) (old new : ν) : Option (Disk ν) :=
  match d.names.get? old with
  | none => none
  | some inode => some { d with names := (d.names.del old).set new inode }

def remove (d : Disk ν) (name : ν) : Disk ν := { d with names := d.names.del name }

structure Ok (d : Disk ν) : Prop where
  fd_lt : ∀ f i, d.fds.get? f = some i → f < d.nextFd ∧ i < d.nextInode
  name_lt : ∀ n i, d.names.get? n = some i → i < d.nextInode
  fds_inj : ∀ f f' i, d.fds.get? f = some i → d.fds.get? f' = some i → f = f'
  names_inj : ∀ n n' i, d.names.get? n = some i → d.names.get? n' = some i → n = n'

theorem Ok.close (h : d.Ok) (fd) : (d.close fd).Ok := by
  have hsub : ∀ f i, (d.close fd).fds.get? f = some i → d.fds.get? f = some i :=
    fun f i hf => (FMap.of_get?_del hf).2
  refine ⟨fun f i hf => h.fd_lt f i (hsub f i hf), h.name_lt, ?_, h.names_inj⟩
  intro f f' i hf hf'
  exact h.fds_inj f f' i (hsub f i hf) (hsub f' i hf')

theorem Ok.remove (h : d.Ok) (name) : (d.remove name).Ok := by
  have hsub : ∀ n i, (d.remove name).names.get? n = some i → d.names.get? n = some i :=
    fun n i hn => (FMap.of_get?_del hn).2
  refine ⟨h.fd_lt, fun n i hn => h.name_lt n i (hsub n i hn), h.fds_inj, ?_⟩
  intro n n' i hn hn'
  exact h.names_inj n n' i (hsub n i hn) (hsub n' i hn')

theorem get?_names_rename (h : d.rename old new = some d') (n)
    : d'.names.get? n = if n = new then d.names.get? old else if n = old then none else d.names.get? n := by
  unfold Disk.rename at h
  split at h
  . contradiction
  . next inode hold =>
    cases h
    rw [FMap.get?_set, FMap.get?_del, hold]

theorem Ok.rename (h : d.Ok) (hr : d.rename old new = some d') : d'.Ok := by
  have hnames := get?_names_rename hr
  unfold Disk.rename at hr
  split at hr
  . contradiction
  . next inode hold =>
    cases hr
    refine ⟨h.fd_lt, ?_, h.fds_inj, ?_⟩
    . intro n i hn
      rw [hnames] at hn
      split at hn
      . exact h.name_lt old i hn
      . split at hn
        . contradiction
        . exact h.name_lt n i hn
    . intro n n' i hn hn'
      rw [hnames] at hn hn'
      have hinj := h.names_inj
      grind

theorem Ok.openInode (h : d.Ok) (hlt : inode < d.nextInode)
    (hclosed : ∀ f, d.fds.get? f ≠ some inode)
    : (d.openInode inode).2.Ok := by
  have hfds := get?_fds_openInode d inode
  refine ⟨?_, h.name_lt, ?_, h.names_inj⟩
  . intro f i hf
    rw [hfds] at hf
    unfold Disk.openInode at hf ⊢
    dsimp only at hf ⊢
    split at hf
    . cases hf
      omega
    . have hold := h.fd_lt f i hf
      omega
  . intro f f' i hf hf'
    rw [hfds] at hf hf'
    have hinj := h.fds_inj
    grind

theorem Ok.create (h : d.Ok) (name) : (d.create name).Ok := by
  have hnames : ∀ n, (d.create name).names.get? n = if n = name then some d.nextInode else d.names.get? n := by
    intro n
    apply FMap.get?_set
  refine ⟨?_, ?_, h.fds_inj, ?_⟩
  . intro f i hf
    have hold := h.fd_lt f i hf
    exact ⟨hold.1, Nat.lt_succ_of_lt hold.2⟩
  . intro n i hn
    rw [hnames] at hn
    split at hn
    . cases hn
      apply Nat.lt_succ_self
    . exact Nat.lt_succ_of_lt (h.name_lt n i hn)
  . intro n n' i hn hn'
    rw [hnames] at hn hn'
    have hinj := h.names_inj
    have hlt := h.name_lt
    grind

theorem ok_ofFiles (files : List (ν × List UInt8))
    : (ofFiles files).Ok ∧ ∀ f, (ofFiles files).fds.get? f = none := by
  induction files with
  | nil => exact ⟨⟨nofun, nofun, nofun, nofun⟩, fun _ => rfl⟩
  | cons file files ih =>
    have hok := ih.1.create file.1
    exact ⟨⟨hok.fd_lt, hok.name_lt, hok.fds_inj, hok.names_inj⟩, ih.2⟩

structure Opened (d : Disk ν) (name : ν) (opened : Nat × Disk ν) (inode : Nat) : Prop where
  found : d.names.get? name = some inode ∨ (d.names.get? name = none ∧ inode = d.nextInode)
  fd : opened.1 = d.nextFd
  names : ∀ n, opened.2.names.get? n = if n = name then some inode else d.names.get? n
  fds : ∀ f, opened.2.fds.get? f = if f = opened.1 then some inode else d.fds.get? f
  nextInode : d.nextInode ≤ opened.2.nextInode
  data : ∀ i, i < d.nextInode → opened.2.data.get? i = d.data.get? i
  ok : d.Ok → (∀ f, d.fds.get? f ≠ some inode) → opened.2.Ok

variable {name : ν}

theorem opened_openInode (h : d.names.get? name = some inode)
    : Opened d name (d.openInode inode) inode where
  found := .inl h
  fd := rfl
  names := by
    intro n
    change d.names.get? n = _
    split
    . next heq => rw [heq, h]
    . rfl
  fds := get?_fds_openInode d inode
  nextInode := Nat.le_refl _
  data _ _ := rfl
  ok hok hclosed := hok.openInode (hok.name_lt name inode h) hclosed

theorem opened_create (h : d.names.get? name = none)
    : Opened d name ((d.create name).openInode d.nextInode) d.nextInode where
  found := .inr ⟨h, rfl⟩
  fd := rfl
  names n := FMap.get?_set ..
  fds := get?_fds_openInode (d.create name) d.nextInode
  nextInode := Nat.le_succ _
  data := by
    intro i hi
    change (d.data.set d.nextInode []).get? i = _
    rw [FMap.get?_set_ne _ _ (Nat.ne_of_lt hi)]
  ok hok hclosed := (hok.create name).openInode (Nat.lt_succ_self _) hclosed

theorem opened_openCreate (d : Disk ν) (name)
    : ∃ inode, Opened d name (d.openCreate name) inode := by
  unfold openCreate
  split
  . next inode h => exact ⟨inode, opened_openInode h⟩
  . next h => exact ⟨d.nextInode, opened_create h⟩

theorem opened_open? (h : d.open? name = some opened) : ∃ inode, Opened d name opened inode := by
  obtain ⟨inode, hinode, rfl⟩ := Option.map_eq_some_iff.mp h
  exact ⟨inode, opened_openInode hinode⟩

end Disk
