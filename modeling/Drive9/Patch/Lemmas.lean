import Drive9.Patch.Impl
import Drive9.Fuse.WriteBuffer.LazyLoad

/-!
This module contains the correctness of the patch upload.
-/

open List FMap Blocks Flat

namespace S3Client

theorem calcParts_eq {totalSize partSize : Nat} (hp : 0 < partSize)
    (hfit : (totalSize : Int) + partSize ≤ maxInt64 + 1)
    : calcParts totalSize partSize
        =
      some ((List.range (Blocks.count partSize totalSize)).map (fun i : Nat =>
        { number := (i : Int) + 1, size := ((min partSize (totalSize - i * partSize) : Nat) : Int) })) := by
  have hn : (i64 ((totalSize : Int) + partSize - 1)).tdiv partSize
      = (Blocks.count partSize totalSize : Int) := by
    have hcast : (totalSize : Int) + partSize - 1
        = ((totalSize + partSize - 1 : Nat) : Int) := by omega
    rw [i64_eq (by omega) (by omega), hcast]
    unfold Blocks.count
    rw [Int.ofNat_tdiv]
  unfold calcParts
  dsimp only
  rw [if_neg (by omega : ¬ (partSize : Int) ≤ 0), hn, if_neg (by omega), Int.toNat_natCast]
  congr 1
  apply map_congr_left
  intro i hi
  have hlt := mem_range.mp hi
  have hstart := (lt_count_iff hp totalSize i).mp hlt
  congr 1
  rw [← Nat.cast_mul]
  split
  . next hlast =>
    have hend := (count_le_iff hp totalSize (i + 1)).mp (by omega)
    rw [Nat.add_mul] at hend
    omega
  . next hlast =>
    have hnext := (lt_count_iff hp totalSize (i + 1)).mp (by omega)
    rw [Nat.add_mul] at hnext
    omega

end S3Client

namespace Client

open Backend

variable {remote : Bytes} {readPart : Int → Int → Bytes → Bytes}
  {partSize origSize origPartCount : Int}
  {dirty : Finset Int} {newParts : List S3Client.Part}

def patchPart (remote : Bytes) (readPart : Int → Int → Bytes → Bytes)
    (partSize origSize origPartCount : Int)
    (dirty : Finset Int) (p : S3Client.Part) : Bytes :=
  if initiatePatchUpload.copies dirty origPartCount p then
    readRemote remote (initiatePatchUpload.partRange partSize origSize p)
  else
    (uploadPatchPart remote readPart
      { number := p.number
        size := p.size
        readRange :=
          if p.number ≤ origPartCount then
            some (initiatePatchUpload.partRange partSize origSize p)
          else
            none }).2

theorem get?_patchFile (hnd : (newParts.map S3Client.Part.number).Nodup) (hp : p ∈ newParts)
    : (patchFile remote (initiatePatchUpload.plan partSize origSize origPartCount dirty newParts) readPart).get?
          p.number
        =
      some (patchPart remote readPart partSize origSize origPartCount dirty p) := by
  have hsub : ∀ f : S3Client.Part → Bool, ((newParts.filter f).map S3Client.Part.number).Nodup := by
    intro f
    exact hnd.sublist (filter_sublist.map _)
  unfold patchFile patchPart initiatePatchUpload.plan
  rw [map_map, map_map]
  split
  . next hcopy =>
    rw [get?_setAll_of_not_mem]
    . apply get?_setAll_of_mem
      . rw [map_map]
        exact hsub _
      . rw [mem_map]
        exact ⟨p, mem_filter.mpr ⟨hp, hcopy⟩, rfl⟩
    . -- No part has the number of another one.
      rw [map_map, mem_map]
      rintro ⟨q, hq, hnum⟩
      rw [mem_filter] at hq
      have heq : q = p := inj_on_of_nodup_map hnd hq.1 hp hnum
      rw [heq, hcopy] at hq
      simp at hq
  . next hcopy =>
    apply get?_setAll_of_mem
    . rw [map_map]
      exact hsub _
    . rw [mem_map]
      refine ⟨p, mem_filter.mpr ⟨hp, ?_⟩, rfl⟩
      simpa using hcopy

theorem isSome_patchFile (hnd : (newParts.map S3Client.Part.number).Nodup) (k : Int)
    : ((patchFile remote (initiatePatchUpload.plan partSize origSize origPartCount dirty newParts) readPart).get?
          k).isSome
        ↔
      k ∈ newParts.map S3Client.Part.number := by
  constructor
  . intro h
    by_contra hk
    have hout : ∀ f : S3Client.Part → Bool, k ∉ (newParts.filter f).map S3Client.Part.number := by
      intro f hf
      exact hk ((filter_sublist.map _).subset hf)
    unfold patchFile initiatePatchUpload.plan at h
    rw [map_map, map_map, get?_setAll_of_not_mem, get?_setAll_of_not_mem] at h
    . contradiction
    all_goals
      rw [map_map]
      exact hout _
  . intro h
    obtain ⟨p, hp, rfl⟩ := mem_map.mp h
    rw [get?_patchFile hnd hp]
    rfl

end Client

namespace Backend

def partsOf (partSize size : Nat) : List S3Client.Part :=
  (List.range (Blocks.count partSize size)).map (fun i : Nat =>
    { number := (i : Int) + 1, size := ((min partSize (size - i * partSize) : Nat) : Int) })

theorem numbers_partsOf (partSize size : Nat)
    : (partsOf partSize size).map S3Client.Part.number
        =
      (List.range (Blocks.count partSize size)).map (fun i : Nat => (i : Int) + 1) := by
  unfold partsOf
  rw [map_map]
  rfl

theorem nodup_partsOf (partSize size : Nat)
    : ((partsOf partSize size).map S3Client.Part.number).Nodup := by
  rw [numbers_partsOf]
  apply List.Nodup.map _ nodup_range
  intro a b hab
  dsimp only at hab
  omega

theorem initiatePatchUpload_ok {file : PatchTarget} {partSize size origSize : Nat}
    {plan : PatchPlan} (hmin : S3Client.MinPartSize ≤ partSize) (horig : file.sizeBytes = origSize)
    (hfit : (size : Int) + partSize ≤ maxInt64 + 1)
    (hofit : (origSize : Int) + partSize ≤ maxInt64 + 1)
    (h : initiatePatchUpload maxUploadBytes (some file) size dirty partSize expectedRevision = some (.ok plan))
    : plan = initiatePatchUpload.plan partSize origSize (Blocks.count partSize origSize) dirty
        (partsOf partSize size) := by
  have hp : 0 < partSize := by
    unfold S3Client.MinPartSize at hmin
    omega
  unfold initiatePatchUpload at h
  split at h
  . cases h
  . dsimp only at h
    rw [if_neg (by omega : ¬ (partSize : Int) < S3Client.MinPartSize)] at h
    rw [horig, S3Client.calcParts_eq hp hfit, S3Client.calcParts_eq hp hofit] at h
    dsimp only at h
    split at h
    . cases h
    . split at h
      . cases h
      . split at h
        . cases h
        . split at h
          . cases h
          . split at h
            . cases h
            . split at h
              . cases h
              . split at h
                . rw [Option.map_some, Option.some_inj] at h
                  cases h
                  rw [length_map, length_range]
                  rfl
                . next hzero =>
                  have hcount : Blocks.count partSize origSize = 0 := by
                    apply Nat.le_zero.mp
                    rw [count_le_iff hp]
                    omega
                  rw [Option.some_inj] at h
                  cases h
                  rw [hcount]
                  rfl

end Backend

namespace WriteBuffer

variable {wb wb' : WriteBuffer} {remote : Bytes}

structure CleanParts (remote : Bytes) (wb : WriteBuffer) : Prop where
  wf : Wf wb
  onPartFull : wb.onPartFull ≠ .evictPart
  clean : ∀ i : Nat, i < wb.totalSize → ((i / wb.psz : Nat) : Int) ∉ wb.dirtyParts →
    i / wb.psz * wb.psz < remote.length → i < remote.length ∧ wb.memAt i = remote.getD i 0

-- Every part that a write skips over is uploaded: it is dirty already, the write ends in it, or the
-- remote file does not reach it.
def PatchOk (remote : Bytes) (wb : WriteBuffer) (op : FileOp) : Prop :=
  op.Fits wb.maxSize wb.partSize ∧
    match op with
    | .write off data =>
      (off : Int) + data.length ≤ wb.maxSize →
        ∀ idx : Nat, idx < Blocks.count wb.psz off → Blocks.Hit wb.psz wb.totalSize.toNat off idx →
          (idx : Int) ∈ wb.dirtyParts
            ∨ Blocks.Hit wb.psz off (off + data.length) idx
            ∨ remote.length ≤ idx * wb.psz
    | .truncate _ => True

instance (remote : Bytes) (wb : WriteBuffer) (op : FileOp) : Decidable (PatchOk remote wb op) :=
  match op with
  | .write _ _ => inferInstanceAs (Decidable (_ ∧ (_ → ∀ idx : Nat, idx < _ → _)))
  | .truncate _ => inferInstanceAs (Decidable (_ ∧ True))

theorem CleanParts.write (h : CleanParts remote wb)
    (hok : ∀ idx : Nat, Blocks.Hit wb.psz wb.totalSize.toNat off idx →
      (idx : Int) ∈ wb.dirtyParts ∨ Blocks.Hit wb.psz off (off + data.length) idx ∨ remote.length ≤ idx * wb.psz)
    (hw : Written wb off data wb')
    : CleanParts remote wb' := by
  constructor
  . exact hw.wf
  . rw [hw.cfg.onPartFull]
    exact h.onPartFull
  . intro i hi hnd hstart
    rw [hw.cfg.psz] at hnd hstart
    rw [hw.size] at hi
    have hold : ((i / wb.psz : Nat) : Int) ∉ wb.dirtyParts := fun hd => hnd (hw.dirty_mono hd)
    have hmiss : ¬ Blocks.Hit wb.psz off (off + data.length) (i / wb.psz) :=
      fun hh => hnd (hw.dirty_hit _ hh)
    rw [hw.mem_miss i hmiss]
    cases lt_or_ge (i : Int) wb.totalSize with
    | inl hlt => exact h.clean i hlt hold hstart
    | inr hge =>
      -- Beyond the old end and not written: the part lies in the gap.
      have hgap : i < off := by
        by_contra hoff
        exact hmiss (hit_div h.wf.psz_pos (by omega) (by omega))
      rcases hok _ (hit_div h.wf.psz_pos (by omega) hgap) with hd | hh | hr
      . contradiction
      . contradiction
      . omega

theorem CleanParts.truncate (h : CleanParts remote wb) (ht : Truncated wb n wb')
    : CleanParts remote wb' := by
  constructor
  . exact ht.wf
  . rw [ht.cfg.onPartFull]
    exact h.onPartFull
  . intro i hi hnd hstart
    rw [ht.cfg.psz] at hnd hstart
    rw [ht.size] at hi
    have hin : i < n := by omega
    have hpos := pos_eq (p := wb.psz) i
    rw [ht.mem_keep i hin]
    cases lt_or_ge (i : Int) wb.totalSize with
    | inl hlt =>
      apply h.clean i hlt _ hstart
      intro hd
      exact hnd (ht.dirty_keep _ (by omega) hd)
    | inr hge =>
      exact absurd (ht.dirty_gap _ (hit_div h.wf.psz_pos (by omega) hin)) hnd

theorem shows_bytes (hwf : Wf wb) : Shows wb wb.bytes := by
  obtain ⟨hlen, hget⟩ := bytes_eq hwf
  have hT := hwf.size_nonneg
  apply shows_of_mem hwf
  . omega
  . intro i hi
    rw [hget i (by omega)]

theorem partData_eq_block (hwf : Wf wb) (h : idx < Blocks.count wb.psz wb.bytes.length)
    : wb.partData (idx + 1) = some (Multipart.block wb.psz wb.bytes idx) := by
  have hlen := (bytes_eq hwf).1
  have hfits := hwf.size_fits
  rw [lt_count_iff hwf.psz_pos] at h
  rw [(shows_bytes hwf).partData idx, if_pos h]
  . rfl
  . have hP := hwf.partSize_pos
    rw [hwf.partSize_eq, ← Nat.cast_mul]
    omega

theorem CleanParts.readRemote_eq (h : CleanParts remote wb)
    (hidx : idx < Blocks.count wb.psz wb.bytes.length)
    (hstart : idx * wb.psz < remote.length) (hclean : (idx : Int) ∉ wb.dirtyParts)
    : Client.readRemote remote (Backend.initiatePatchUpload.partRange wb.psz remote.length
          { number := (idx : Int) + 1
            size := ((min wb.psz (wb.bytes.length - idx * wb.psz) : Nat) : Int) })
        =
      Multipart.block wb.psz wb.bytes idx := by
  have hp := h.wf.psz_pos
  obtain ⟨hlen, hget⟩ := bytes_eq h.wf
  rw [lt_count_iff hp] at hidx
  -- The last byte of the part lies inside the remote file, so the range is not clamped.
  have hin : ∀ o, o < min wb.psz (wb.bytes.length - idx * wb.psz) →
      idx * wb.psz + o < remote.length
        ∧ wb.memAt (idx * wb.psz + o) = remote.getD (idx * wb.psz + o) 0 := by
    intro o ho
    have hdiv : (idx * wb.psz + o) / wb.psz = idx := div_of_eq hp (by omega)
    apply h.clean
    . omega
    . rw [hdiv]
      exact hclean
    . rw [hdiv]
      exact hstart
  have hlast := (hin (min wb.psz (wb.bytes.length - idx * wb.psz) - 1) (by omega)).1
  have hcast : ((idx : Int) + 1 - 1) * wb.psz = ((idx * wb.psz : Nat) : Int) := by
    rw [Int.add_sub_cancel, Nat.cast_mul]
  have hsucc : (idx + 1) * wb.psz = idx * wb.psz + wb.psz := by
    rw [Nat.add_mul, Nat.one_mul]
  unfold Client.readRemote Backend.initiatePatchUpload.partRange Multipart.block
  dsimp only
  rw [hcast, hsucc]
  generalize idx * wb.psz = start at *
  rw [if_neg (by omega)]
  apply ext_getD 0
  . rw [length_slice, length_slice]
    omega
  . intro o ho
    rw [length_slice] at ho
    have hmem := (hin o (by omega)).2
    rw [getD_slice, getD_slice, if_pos (by omega), if_pos (by omega), hget _ (by omega), hmem]
    rfl

theorem CleanParts.patchFile_eq (h : CleanParts remote wb)
    (hmin : S3Client.MinPartSize ≤ wb.partSize)
    (hfit : (remote.length : Int) + wb.partSize ≤ maxInt64 + 1) {file : PatchTarget}
    (hfile : file.sizeBytes = remote.length)
    (hplan : Backend.initiatePatchUpload maxUploadBytes (some file) wb.size wb.dirtyPartNumbers wb.partSize
      expectedRevision = some (.ok plan))
    : Multipart.complete (Client.patchFile remote plan (fun partNum _ _ => (wb.partData partNum).getD []))
        =
      wb.bytes := by
  have hp := h.wf.psz_pos
  have hP := h.wf.partSize_eq
  have hlen := (bytes_eq h.wf).1
  have hT := h.wf.size_nonneg
  have hfits := h.wf.size_fits
  have hsize : wb.size = (wb.bytes.length : Int) := by
    unfold size
    omega
  rw [hsize, hP] at hplan
  have heq := Backend.initiatePatchUpload_ok (by omega) hfile (by omega) (by omega) hplan
  subst heq
  have hnd := Backend.nodup_partsOf wb.psz wb.bytes.length
  apply Multipart.complete_eq hp
  . intro k
    rw [Client.isSome_patchFile hnd, Backend.numbers_partsOf, mem_map]
    constructor
    . rintro ⟨idx, hidx, hk⟩
      exact ⟨idx, hk.symm, mem_range.mp hidx⟩
    . rintro ⟨idx, hk, hidx⟩
      exact ⟨idx, mem_range.mpr hidx, hk.symm⟩
  . intro idx hidx
    have hmem : ({ number := (idx : Int) + 1
                   size := ((min wb.psz (wb.bytes.length - idx * wb.psz) : Nat) : Int) } : S3Client.Part)
        ∈ Backend.partsOf wb.psz wb.bytes.length := by
      apply mem_map_of_mem
      exact mem_range.mpr hidx
    apply (Client.get?_patchFile hnd hmem).trans
    congr 1
    unfold Client.patchPart
    split
    . next hcopy =>
      simp only [Backend.initiatePatchUpload.copies, Bool.and_eq_true, decide_eq_true_eq] at hcopy
      apply h.readRemote_eq hidx
      . rw [← lt_count_iff hp]
        omega
      . intro hd
        exact hcopy.1 (Finset.mem_image_of_mem _ hd)
    . unfold Client.uploadPatchPart
      dsimp only
      rw [partData_eq_block h.wf hidx]
      rfl

-- All of the remote file is in memory and nothing is marked dirty.
structure LoadedClean (remote : Bytes) (wb : WriteBuffer) : Prop where
  wf : Wf wb
  onPartFull : wb.onPartFull ≠ .evictPart
  size : wb.totalSize = remote.length
  dirty : wb.dirtyParts = ∅
  content : ∀ i, i < remote.length → wb.memAt i = remote.getD i 0

theorem LoadedClean.cleanParts (h : LoadedClean remote wb) : CleanParts remote wb := by
  have hsize := h.size
  constructor
  . exact h.wf
  . exact h.onPartFull
  . intro i hi _ _
    exact ⟨by omega, h.content i (by omega)⟩

theorem CleanParts.change (h : CleanParts remote wb) (hok : PatchOk remote wb op)
    (hacc : op.Accepted wb.maxSize) (hch : op.Changed wb wb')
    : CleanParts remote wb' := by
  cases op with
  | write off data =>
    apply h.write _ hch
    intro idx hhit
    exact hok.2 hacc idx ((lt_count_iff h.wf.psz_pos _ _).mpr hhit.2.1) hhit
  | truncate size => exact h.truncate hch

-- In every run whose writes skip no clean part of the remote file, and whose sums stay inside
-- `int64`, the patch upload puts the content of the buffer together again.
theorem runs_patch_to_bytes (remote : Bytes) (wb : WriteBuffer) (hstart : LoadedClean remote wb)
    (hmin : S3Client.MinPartSize ≤ wb.partSize) (ops : List FileOp)
    (hok : Machine.Steps FileOp.apply (PatchOk remote) wb ops)
    : ∃ wb' errs, Machine.run FileOp.apply wb ops = some (wb', errs)
        ∧ ∀ (maxUploadBytes expectedRevision : Int) (file : PatchTarget) (plan : PatchPlan),
            file.sizeBytes = remote.length →
            Backend.initiatePatchUpload maxUploadBytes (some file) wb'.size wb'.dirtyPartNumbers
                wb'.partSize expectedRevision
              = some (.ok plan) →
            let object := Multipart.complete
              (Client.patchFile remote plan (fun partNum _ _ => (wb'.partData partNum).getD []))
            object.length = wb'.size ∧ object = wb'.bytes := by
  obtain ⟨wb', hrun, hclean, hpart⟩ :=
    Machine.run_refines (FileOp.applyRef wb.maxSize) (PatchOk remote)
    (fun wb' (_ : Bytes) => CleanParts remote wb' ∧ wb'.maxSize = wb.maxSize ∧ wb'.partSize = wb.partSize)
    (by
      rintro wb1 file op ⟨hclean, hmax, hpart⟩ hok
      obtain ⟨wb2, happly, hclean', hcfg⟩ := FileOp.apply_refines (fun wb _ => CleanParts remote wb)
        file hclean.wf hclean.onPartFull hok.1 hclean
        (fun hacc wb2 hch => hclean.change hok hacc hch)
      rw [hmax] at happly
      exact ⟨wb2, happly, hclean', by rw [hcfg.maxSize, hmax], by rw [hcfg.partSize, hpart]⟩)
    (t := []) ⟨hstart.cleanParts, rfl, rfl⟩ hok
  refine ⟨wb', _, hrun, ?_⟩
  intro maxUploadBytes expectedRevision file plan hfile hplan
  have hfits := hstart.wf.size_fits
  rw [hstart.size, ← hpart.2] at hfits
  have heq := hclean.patchFile_eq (by rw [hpart.2]; exact hmin) hfits hfile hplan
  have hlen := (bytes_eq hclean.wf).1
  have hT := hclean.wf.size_nonneg
  refine ⟨?_, heq⟩
  rw [heq]
  unfold size
  omega

theorem loadedClean_loadAll (remote) {maxSize partSize : Int} (hM : 0 < maxSize) (hP : 0 < partSize)
    (hPle : partSize ≤ maxInt64) (hfit : (remote.length : Int) + partSize ≤ maxInt64 + 1)
    (smallFileMax : Int)
    : LoadedClean remote (loadAll remote maxSize partSize smallFileMax) := by
  have h := holds_preload remote hM hP hPle hfit smallFileMax
  have hpart : (preload remote maxSize partSize smallFileMax).partSize = partSize := by
    change (fresh maxSize partSize smallFileMax).partSize = partSize
    rw [fresh_eq hM hP]
  have hdirty : (preload remote maxSize partSize smallFileMax).dirtyParts = ∅ := by
    change (fresh maxSize partSize smallFileMax).dirtyParts = ∅
    rw [fresh_eq hM hP]
    rfl
  unfold loadAll
  dsimp only
  rw [numParts_eq h.wf (by rw [hpart]; exact hfit), Int.toNat_natCast]
  obtain ⟨wb', hload, h', hcfg, hloaded, _⟩ :=
    h.loadParts (Blocks.count (preload remote maxSize partSize smallFileMax).psz remote.length) 0
  have hframe := readDirty.loadParts_dirtyParts (preload remote maxSize partSize smallFileMax)
    (Blocks.count (preload remote maxSize partSize smallFileMax).psz remote.length) 0
  rw [hload] at hframe ⊢
  constructor
  . exact h'.wf
  . exact h'.onPartFull
  . exact h'.size
  . rw [hframe, hdirty]
  . intro i hi
    rw [memAt_eq_byteAt_of_isPartLoaded, h'.byteAt i hi]
    apply hloaded
    . exact Int.natCast_nonneg _
    . have hpos := pos_eq (p := wb'.psz) i
      have hlt := (lt_count_iff h'.wf.psz_pos remote.length (i / wb'.psz)).mpr (by omega)
      rw [hcfg.psz] at hlt ⊢
      rw [Int.zero_add, Nat.cast_lt]
      exact hlt

theorem runs_patch_to_bytes_shrunk
    : ((Machine.run FileOp.apply (loadAll [7, 8] (2 ^ 30) S3Client.MinPartSize 50000)
            [.truncate 1, .write 1 [9, 9]]).bind
          (fun s => (Backend.initiatePatchUpload 0 (some ⟨true, 1, 2, false⟩) s.1.size s.1.dirtyPartNumbers
            s.1.partSize 1).map (fun r => r.toOption.isSome)))
        = some true
      ∧ ∃ wb' errs, Machine.run FileOp.apply (loadAll [7, 8] (2 ^ 30) S3Client.MinPartSize 50000)
            [.truncate 1, .write 1 [9, 9]] = some (wb', errs)
          ∧ ∀ (maxUploadBytes expectedRevision : Int) (file : PatchTarget) (plan : PatchPlan),
              file.sizeBytes = 2 →
              Backend.initiatePatchUpload maxUploadBytes (some file) wb'.size wb'.dirtyPartNumbers
                  wb'.partSize expectedRevision
                = some (.ok plan) →
              let object := Multipart.complete
                (Client.patchFile [7, 8] plan (fun partNum _ _ => (wb'.partData partNum).getD []))
              object.length = wb'.size ∧ object = wb'.bytes :=
  ⟨by decide,
    runs_patch_to_bytes [7, 8] (loadAll [7, 8] (2 ^ 30) S3Client.MinPartSize 50000)
      (loadedClean_loadAll [7, 8] (by decide) (by decide) (by decide) (by decide) 50000) (by decide)
      [.truncate 1, .write 1 [9, 9]] (by decide)⟩

-- The buffer after the operations, and the object that its patch upload puts together.
def patched (remote : Bytes) (ops : List FileOp) : Option (WriteBuffer × Bytes) :=
  (Machine.run FileOp.apply (loadAll remote (2 ^ 30) S3Client.MinPartSize 50000) ops).bind fun s =>
    (Backend.initiatePatchUpload 0 (some ⟨true, 1, remote.length, false⟩) s.1.size s.1.dirtyPartNumbers
      s.1.partSize 1).bind fun r => r.toOption.map fun plan =>
        (s.1, Multipart.complete
          (Client.patchFile remote plan (fun partNum _ _ => (s.1.partData partNum).getD [])))

def onePart (load : LoadPartFunc) (parts : FMap Int Bytes) : WriteBuffer :=
  { new (2 ^ 30) S3Client.MinPartSize with
    totalSize := 5242880, remoteSize := 5242880, loadPart := some load, smallFileMax := 50000, parts }

theorem loadAll_onePart {remote : Bytes} (hlen : remote.length = 5242880)
    : ∃ load, loadAll remote (2 ^ 30) S3Client.MinPartSize 50000 = onePart load (FMap.empty.set 0 remote) := by
  have hload : loadRange remote S3Client.MinPartSize (0 + 1) = .ok remote := by
    unfold loadRange
    rw [hlen]
    exact congrArg Except.ok (take_of_length_le (Nat.le_of_eq hlen))
  have hpre : preload remote (2 ^ 30) S3Client.MinPartSize 50000
      = onePart (loadRange remote S3Client.MinPartSize) .empty := by
    unfold preload
    rw [hlen]
    rfl
  -- Reduction would count through the length of the file, so it is rewritten first.
  have hall : ∀ n m k, loadAll remote n m k = (readDirty.loadParts
      ((preload remote n m k).numParts remote.length).toNat (preload remote n m k) 0).1 := fun _ _ _ => rfl
  generalize loadRange remote S3Client.MinPartSize = load at hload hpre
  have hpart : (onePart load .empty).ensurePart 0 = (onePart load (FMap.empty.set 0 remote), none) := by
    unfold ensurePart onePart
    simp only [hload]
    rfl
  have hone : ∀ load parts, ((onePart load parts).numParts (5242880 : Nat)).toNat = 1 :=
    fun _ _ => rfl
  refine ⟨load, ?_⟩
  rw [hall, hpre, hlen, hone, readDirty.loadParts, WriteBuffer.ensureLoaded, hpart]
  rfl

-- A one-byte file, and one byte written one part further on: the first part is copied as it was. Of
-- a file of one part that is emptied before, the whole part is, and the object has the length of
-- the buffer.
theorem skipped_part_keeps_old_length
    : (patched [7] [.write 5242880 [1]]).map (fun x => (x.1.size, x.2)) = some (5242881, [7, 1])
      ∧ ∀ remote : Bytes, remote.length = 5242880 →
        ∃ wb, patched remote [.truncate 0, .write 5242880 [1]] = some (wb, remote ++ [1])
          ∧ wb.size = 5242881 ∧ wb.bytes.head? = some 0 := by
  refine ⟨by decide, fun remote hlen => ?_⟩
  obtain ⟨load, hload⟩ := loadAll_onePart hlen
  obtain ⟨wb, hrun, hsize, hdirty, hpart, hdata, hhead⟩ :
      ∃ wb, Machine.run FileOp.apply (onePart load (FMap.empty.set 0 remote)) [.truncate 0, .write 5242880 [1]]
            = some (wb, [none, none])
        ∧ wb.size = 5242881 ∧ wb.dirtyPartNumbers = {2} ∧ wb.partSize = 5242880
        ∧ wb.partData 2 = some [1] ∧ wb.bytes.head? = some 0 :=
    ⟨{ onePart load (FMap.empty.set 1 [1]) with
        totalSize := 5242881, dirtyParts := {1}, touched := true, appendCursor := 5242881 },
      rfl, rfl, rfl, rfl, rfl, rfl⟩
  have hplan : Backend.initiatePatchUpload 0 (some ⟨true, 1, (5242880 : Nat), false⟩) 5242881 {2} 5242880 1
      = some (.ok ⟨5242880, [⟨2, 1, none⟩], [⟨1, 0, 5242879⟩]⟩) := rfl
  have hobject : ∀ f, Multipart.complete
      (Client.patchFile remote ⟨5242880, [⟨2, 1, none⟩], [⟨1, 0, 5242879⟩]⟩ f) = remote ++ f 2 1 [] := by
    intro f
    change Client.readRemote remote (0, 5242879) ++ (f 2 1 [] ++ []) = _
    rw [append_nil]
    exact congrArg (· ++ f 2 1 []) (take_of_length_le (Nat.le_of_eq hlen))
  refine ⟨wb, ?_, hsize, hhead⟩
  unfold patched
  rw [hload, hlen, hrun, Option.bind_some, hsize, hdirty, hpart, hplan, Option.bind_some]
  exact congrArg (fun object => some (wb, object)) ((hobject _).trans (by rw [hdata]; rfl))

end WriteBuffer
