import Mathlib.Tactic.Positivity
import Drive9.Lib.Blocks
import Drive9.Fuse.WriteBuffer.Impl.Basic

/-!
This module contains the meaning of a write buffer.
-/

namespace WriteBuffer

def psz (wb : WriteBuffer) : Nat := wb.partSize.toNat

def absent (wb : WriteBuffer) (idx : Nat) : Bytes :=
  if (idx : Int) ∈ wb.uploadedParts then
    List.replicate wb.psz 0
  else
    match wb.loadPart with
    | some load =>
      if (idx : Int) * wb.partSize < wb.remoteSize then
        match load (idx + 1) with
        | .error _ => []
        | .ok data => data
      else
        []
    | none => []

def partOr (wb : WriteBuffer) (idx : Nat) : Bytes :=
  (wb.parts.get? idx).getD (wb.absent idx)

def byteAt (wb : WriteBuffer) (i : Nat) : UInt8 :=
  match wb.smallFileData with
  | some data => data.toList.getD i 0
  | none => (wb.partOr (i / wb.psz)).getD (i % wb.psz) 0

def memAt (wb : WriteBuffer) (i : Nat) : UInt8 :=
  match wb.smallFileData with
  | some data => data.toList.getD i 0
  | none => ((wb.parts.get? ((i / wb.psz : Nat) : Int)).getD []).getD (i % wb.psz) 0

def LoadOk (wb : WriteBuffer) : Prop :=
  ∀ load, wb.loadPart = some load → ∀ idx : Int, ∃ data,
    load (idx + 1) = .ok data
      ∧ data.length ≤ wb.psz
      ∧ (wb.remoteSize ≤ idx * wb.partSize → data = [])

structure Wf (wb : WriteBuffer) : Prop where
  partSize_pos : 0 < wb.partSize
  partSize_le : wb.partSize ≤ maxInt64
  smallFileMax_pos : 0 < wb.smallFileMax
  size_nonneg : 0 ≤ wb.totalSize
  size_fits : wb.totalSize + wb.partSize ≤ maxInt64 + 1
  remote_fits : wb.remoteSize + wb.partSize ≤ maxInt64 + 1
  load_ok : wb.LoadOk
  part_len : ∀ (idx : Int) (part : Bytes), wb.parts.get? idx = some part → part.length ≤ wb.psz
  small_len : ∀ data, wb.smallFileData = some data → (data.len : Int) = wb.totalSize
  small_max : wb.smallFileData.isSome → wb.totalSize ≤ wb.smallFileMax
    ∧ wb.smallFileMax ≤ wb.partSize
  small_parts : wb.smallFileData.isSome → ∀ idx, wb.parts.get? idx = none
  small_load : wb.smallFileData.isSome → wb.loadPart = none

structure SameCfg (wb wb' : WriteBuffer) : Prop where
  maxSize : wb'.maxSize = wb.maxSize
  partSize : wb'.partSize = wb.partSize
  smallFileMax : wb'.smallFileMax = wb.smallFileMax
  loadPart : wb'.loadPart = wb.loadPart
  remoteSize : wb'.remoteSize = wb.remoteSize
  uploadedParts : wb'.uploadedParts = wb.uploadedParts
  onPartFull : wb'.onPartFull = wb.onPartFull

theorem SameCfg.refl (wb) : SameCfg wb wb := by
  constructor <;> rfl

theorem SameCfg.trans (h1 : SameCfg a b) (h2 : SameCfg b c) : SameCfg a c := by
  constructor
  . rw [h2.maxSize, h1.maxSize]
  . rw [h2.partSize, h1.partSize]
  . rw [h2.smallFileMax, h1.smallFileMax]
  . rw [h2.loadPart, h1.loadPart]
  . rw [h2.remoteSize, h1.remoteSize]
  . rw [h2.uploadedParts, h1.uploadedParts]
  . rw [h2.onPartFull, h1.onPartFull]

variable {wb wb' : WriteBuffer}

theorem SameCfg.psz (h : SameCfg wb wb') : wb'.psz = wb.psz := by
  simp [WriteBuffer.psz, h.partSize]

variable {idx i : Nat}

theorem SameCfg.absent (h : SameCfg wb wb') (idx) : wb'.absent idx = wb.absent idx := by
  simp only [WriteBuffer.absent, h.uploadedParts, h.loadPart, h.remoteSize, h.partSize, h.psz]

section

variable (h : Wf wb)

include h

theorem Wf.psz_pos : 0 < wb.psz := by
  have := h.partSize_pos
  unfold psz
  omega

theorem Wf.partSize_eq : wb.partSize = (wb.psz : Int) := by
  have := h.partSize_pos
  unfold psz
  omega

theorem Wf.absent_len (idx) : (wb.absent idx).length ≤ wb.psz := by
  unfold absent
  split
  . simp
  . split
    . next load hload =>
      split
      . obtain ⟨data, hdata, hlen, _⟩ := h.load_ok load hload idx
        simp [hdata, hlen]
      . simp
    . simp

theorem Wf.partOr_len (idx) : (wb.partOr idx).length ≤ wb.psz := by
  unfold partOr
  cases hp : wb.parts.get? idx with
  | none => simpa using h.absent_len idx
  | some part => simpa using h.part_len idx part hp

theorem Wf.withParts (hs : wb.smallFileData = none) (parts : FMap Int Bytes) (dirtyParts)
    (hlen : ∀ (idx : Int) (part : Bytes), parts.get? idx = some part → part.length ≤ wb.psz)
    : Wf { wb with parts := parts, dirtyParts := dirtyParts } :=
  { h with
    part_len := hlen
    small_parts := by simp [hs] }

theorem Wf.withSize (hs : wb.smallFileData = none) (hnonneg : 0 ≤ n)
    (hfits : n + wb.partSize ≤ maxInt64 + 1)
    : Wf { wb with totalSize := n } :=
  { h with
    size_nonneg := hnonneg
    size_fits := hfits
    small_len := by simp [hs]
    small_max := by simp [hs] }

end

theorem getD_replicate_zero (n i) : (List.replicate n (0 : UInt8)).getD i 0 = 0 := by
  simp only [List.getD_eq_getElem?_getD, List.getElem?_replicate]
  split <;> rfl

theorem getD_absent_of_loadPart (h : wb.loadPart = none) (idx o)
    : (wb.absent idx).getD o 0 = 0 := by
  unfold absent
  rw [h]
  split
  . exact getD_replicate_zero _ _
  . simp

theorem byteAt_of_none (h : wb.smallFileData = none) (i)
    : wb.byteAt i = (wb.partOr (i / wb.psz)).getD (i % wb.psz) 0 := by
  simp [byteAt, h]

theorem byteAt_of_some (h : wb.smallFileData = some data) (i)
    : wb.byteAt i = data.toList.getD i 0 := by
  simp [byteAt, h]

theorem memAt_of_none (h : wb.smallFileData = none) (i)
    : wb.memAt i = ((wb.parts.get? ((i / wb.psz : Nat) : Int)).getD []).getD (i % wb.psz) 0 := by
  simp [memAt, h]

theorem memAt_eq_byteAt (h : wb.loadPart = none) (i) : wb.memAt i = wb.byteAt i := by
  unfold memAt byteAt partOr
  split
  . rfl
  . cases wb.parts.get? ((i / wb.psz : Nat) : Int) with
    | some part => rfl
    | none =>
      rw [Option.getD_none, Option.getD_none, getD_absent_of_loadPart h]
      rfl

theorem memAt_eq_byteAt_of_isPartLoaded (h : wb.isPartLoaded ((i / wb.psz : Nat) : Int))
    : wb.memAt i = wb.byteAt i := by
  unfold isPartLoaded at h
  unfold memAt byteAt partOr
  split
  . rfl
  . next hs =>
    rw [hs] at h
    obtain ⟨part, hpart⟩ := Option.isSome_iff_exists.mp h
    rw [hpart]
    rfl

def ensuredParts (wb : WriteBuffer) (idx : Nat) : FMap Int Bytes :=
  if (wb.parts.get? idx).isSome then wb.parts else wb.parts.set idx (wb.absent idx)

theorem ensurePart_eq (hwf : Wf wb) (hs : wb.smallFileData = none) (idx : Nat)
    : wb.ensurePart idx = ({ wb with parts := wb.ensuredParts idx }, none) := by
  unfold ensurePart ensuredParts
  rw [if_neg (by simp [hs])]
  split
  . rfl
  . unfold absent
    split
    . rfl
    . cases hload : wb.loadPart with
      | none => rfl
      | some load =>
        obtain ⟨data, hdata, _, hbeyond⟩ := hwf.load_ok load hload idx
        have hP := hwf.partSize_pos
        have hfit := hwf.remote_fits
        by_cases hrem : (idx : Int) * wb.partSize < wb.remoteSize
        . have hi64 : i64 ((idx : Int) * wb.partSize) = idx * wb.partSize := by
            apply i64_eq
            . positivity
            . omega
          simp [hi64, hrem, hdata]
        . -- The product may have wrapped, but there is nothing to load beyond the remote file.
          have hempty := hbeyond (by omega)
          subst hempty
          simp only [hrem, ↓reduceIte, hdata]
          split <;> rfl

theorem get?_ensuredParts (idx) (k)
    : (wb.ensuredParts idx).get? k = if k = idx then some (wb.partOr idx) else wb.parts.get? k := by
  unfold ensuredParts partOr
  cases hp : wb.parts.get? idx with
  | none =>
    simp only [Option.isSome_none, Bool.false_eq_true, ↓reduceIte, Option.getD_none, FMap.get?_set]
  | some part =>
    simp only [Option.isSome_some, ↓reduceIte, Option.getD_some]
    split
    . next h => rw [h, hp]
    . rfl

end WriteBuffer
