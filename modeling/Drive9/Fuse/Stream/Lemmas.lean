import Drive9.Fuse.Stream.Impl
import Drive9.Patch.Lemmas

/-!
This module contains the correctness of the streaming upload.
-/

variable {maxUploadBytes totalSize : Int}

open List Option FMap Blocks

namespace S3Client

theorem calcAdaptivePartSize_eq (totalSize)
    : ∃ partSize : Nat, calcAdaptivePartSize totalSize = partSize
        ∧ 0 < partSize
        ∧ (partSize : Int) ≤ MaxAdaptivePartSize := by
  have hbounds : PartSize ≤ calcAdaptivePartSize totalSize
      ∧ calcAdaptivePartSize totalSize ≤ MaxAdaptivePartSize := by
    unfold calcAdaptivePartSize
    dsimp only
    generalize ((i64 (totalSize + 9999)).tdiv 10000 + 2 ^ 20 - 1).tdiv (2 ^ 20) * 2 ^ 20 = ps
    unfold PartSize MaxAdaptivePartSize
    split <;> split <;> omega
  unfold PartSize at hbounds
  exact ⟨(calcAdaptivePartSize totalSize).toNat, by omega, by omega, by omega⟩

theorem calcParts_fits (hp : 0 < partSize) (hle : partSize ≤ MaxAdaptivePartSize)
    (hT : 0 ≤ totalSize)
    (hfit : totalSize ≤ maxInt64) (h : calcParts totalSize partSize = some parts)
    : totalSize + partSize ≤ maxInt64 + 1 := by
  apply Int.not_lt.mp
  intro hgt
  unfold MaxAdaptivePartSize maxInt64 at *
  have hwrap : i64 (totalSize + partSize - 1) = -(2 ^ 64 + 1 - totalSize - partSize) := by
    unfold i64
    rw [Int.bmod_def]
    omega
  have hneg : (i64 (totalSize + partSize - 1)).tdiv partSize < 0 := by
    have hone : 1 ≤ (2 ^ 64 + 1 - totalSize - partSize) / partSize := by
      rw [Int.le_ediv_iff_mul_le hp]
      omega
    rw [hwrap, Int.neg_tdiv, Int.tdiv_eq_ediv_of_nonneg (by omega)]
    omega
  unfold calcParts at h
  rw [if_neg (by omega : ¬ partSize ≤ 0), if_pos hneg] at h
  contradiction

theorem sum_partsOf (hp : 0 < partSize) (size : Nat)
    : ((Backend.partsOf partSize size).map Part.size).sum = size := by
  have hend := (count_le_iff hp size (Blocks.count partSize size)).mp (Nat.le_refl _)
  -- The first `k` parts cover the first `k * partSize` bytes.
  have hsum (k : Nat) : ((List.range k).map fun i : Nat => ((min partSize (size - i * partSize) : Nat) : Int)).sum
      = (min (k * partSize) size : Nat) := by
    induction k with
    | zero => simp
    | succ k ih =>
      rw [range_succ, map_append, sum_append, ih, map_singleton, sum_singleton, Nat.add_mul]
      omega
  have hall := hsum (Blocks.count partSize size)
  rw [Nat.min_eq_right hend] at hall
  unfold Backend.partsOf
  rw [List.map_map]
  exact hall

theorem calcAdaptivePartSize_spec {n : Nat} (hfit : (n : Int) + 10000 ≤ maxInt64)
    : calcAdaptivePartSize n
        =
      max PartSize (min MaxAdaptivePartSize (((n + 9999) / 10000 + 2 ^ 20 - 1) / 2 ^ 20 * 2 ^ 20)) := by
  unfold calcAdaptivePartSize PartSize MaxAdaptivePartSize
  dsimp only
  have hceil : ((n : Int) + 9999).tdiv 10000 = (n + 9999) / 10000 :=
    Int.tdiv_eq_ediv_of_nonneg (by omega)
  rw [i64_eq (by omega) (by omega), hceil, Int.tdiv_eq_ediv_of_nonneg (by omega)]
  split <;> split <;> omega

-- The layout of an upload: the parts partition the file, and the adaptive part size keeps them
-- within the limits.
theorem part_layout (n : Nat) (hn : 0 < n) (hfit : (n : Int) + 10000 ≤ maxInt64)
    : (∀ partSize : Nat, 0 < partSize → (n : Int) + partSize ≤ maxInt64 →
        ∃ parts, calcParts n partSize = some parts
          ∧ parts.map Part.number = (List.range ((n + partSize - 1) / partSize)).map (fun i : Nat => (i : Int) + 1)
          ∧ (parts.map Part.size).sum = n
          ∧ (∀ p ∈ parts.dropLast, p.size = partSize)
          ∧ ∃ last ∈ parts.getLast?, 1 ≤ last.size ∧ last.size ≤ partSize)
      ∧ 2 ^ 20 ∣ calcAdaptivePartSize n
      ∧ 8 * 2 ^ 20 ≤ calcAdaptivePartSize n ∧ calcAdaptivePartSize n ≤ 512 * 2 ^ 20
      ∧ (∀ m : Nat, n ≤ m → (m : Int) + 10000 ≤ maxInt64 → calcAdaptivePartSize n ≤ calcAdaptivePartSize m)
      ∧ ((n : Int) ≤ 10000 * (512 * 2 ^ 20) →
          ∃ parts, calcParts n (calcAdaptivePartSize n) = some parts ∧ parts.length ≤ 10000) := by
  have hspec := calcAdaptivePartSize_spec hfit
  unfold PartSize MaxAdaptivePartSize at hspec
  refine ⟨?_, ?_, by omega, by omega, ?_, ?_⟩
  . intro partSize hp hsum
    refine ⟨_, calcParts_eq hp (by omega), Backend.numbers_partsOf partSize n, sum_partsOf hp n, ?_⟩
    have hlt := lt_count_iff hp n
    obtain ⟨k, hk⟩ := Nat.exists_eq_add_of_lt ((hlt 0).mpr (by omega))
    rw [Nat.zero_add] at hk
    rw [hk, range_succ, map_append, map_singleton, dropLast_concat, getLast?_concat]
    refine ⟨?_, _, rfl, ?_⟩
    . intro p hp'
      obtain ⟨i, hi, rfl⟩ := mem_map.mp hp'
      have hnext := (hlt (i + 1)).mp (by rw [mem_range] at hi; omega)
      rw [Nat.add_mul] at hnext
      dsimp only
      omega
    . have hlast := (hlt k).mp (by omega)
      dsimp only
      omega
  . generalize (((n : Int) + 9999) / 10000 + 2 ^ 20 - 1) / 2 ^ 20 = k at hspec
    omega
  . intro m hm hfit'
    rw [calcAdaptivePartSize_spec hfit, calcAdaptivePartSize_spec hfit']
    gcongr
    apply Int.ediv_le_ediv (by decide)
    omega
  . intro hle
    obtain ⟨partSize, hps, hpos, hmax⟩ := calcAdaptivePartSize_eq n
    rw [hps] at hspec ⊢
    unfold MaxAdaptivePartSize at hmax
    refine ⟨_, calcParts_eq hpos (by unfold maxInt64; omega), ?_⟩
    rw [length_map, length_range, count_le_iff hpos]
    omega

theorem part_layout_terabyte
    : calcAdaptivePartSize (2 ^ 40 : Nat) ≤ 512 * 2 ^ 20
        ∧ ∃ parts, calcParts (2 ^ 40 : Nat) (calcAdaptivePartSize (2 ^ 40 : Nat)) = some parts
        ∧ parts.length ≤ 10000 := by
  obtain ⟨_, _, _, hle, _, hparts⟩ := part_layout (2 ^ 40) (by decide) (by decide)
  exact ⟨hle, hparts (by decide)⟩

end S3Client

namespace UploadV2

variable {upload : UploadV2} {uploaded : FMap Int Bytes}

theorem initiate_ok (hT : 0 ≤ totalSize) (hfit : totalSize ≤ maxInt64)
    (h : initiate maxUploadBytes totalSize = some (.ok upload))
    : ∃ size partSize : Nat, totalSize = size ∧ 0 < partSize
        ∧ upload = { totalSize := size, partSize := partSize, partsTotal := Blocks.count partSize size }
        ∧ S3Client.calcParts size partSize = some (Backend.partsOf partSize size) := by
  obtain ⟨size, rfl⟩ := Int.eq_ofNat_of_zero_le hT
  obtain ⟨partSize, hps, hpos, hle⟩ := S3Client.calcAdaptivePartSize_eq size
  unfold initiate at h
  rw [hps] at h
  split at h
  . cases h
  . dsimp only at h
    split at h
    . cases h
    . next parts hparts =>
      have hsum := S3Client.calcParts_fits (by omega) hle hT hfit hparts
      have heq := S3Client.calcParts_eq hpos hsum
      have hlist : parts = Backend.partsOf partSize size := by
        rw [heq] at hparts
        exact (Option.some.inj hparts).symm
      split at h
      . cases h
      . refine ⟨size, partSize, rfl, hpos, ?_, heq⟩
        rw [← Except.ok.inj (Option.some.inj h), hlist]
        unfold Backend.partsOf
        rw [length_map, length_range]

theorem presignPart_ok (h : upload.presignPart partNum = .ok ())
    : 1 ≤ partNum ∧ partNum ≤ upload.partsTotal := by
  unfold presignPart at h
  split at h
  . contradiction
  . omega

theorem presignAll_ok (h : upload.presignAll writes = .ok ()) (hmem : partNum ∈ writes.map Prod.fst)
    : 1 ≤ partNum ∧ partNum ≤ upload.partsTotal := by
  induction writes with
  | nil => contradiction
  | cons e es ih =>
    unfold presignAll at h
    split at h
    . contradiction
    . next he =>
      rw [map_cons, mem_cons] at hmem
      cases hmem with
      | inl heq =>
        rw [heq]
        exact presignPart_ok he
      | inr hes => exact ih h hes

theorem checkSizes_ok (h : checkSizes uploaded parts = .ok ()) (hp : p ∈ parts)
    : ∃ data, uploaded.get? p.number = some data ∧ (data.length : Int) = p.size := by
  induction parts with
  | nil => contradiction
  | cons q qs ih =>
    unfold checkSizes at h
    split at h
    . contradiction
    . next data hdata =>
      split at h
      . contradiction
      . next hsize =>
        cases mem_cons.mp hp with
        | inl heq =>
          subst heq
          exact ⟨data, hdata, not_not.mp hsize⟩
        | inr hmem => exact ih h hmem

theorem confirm_ok (h : upload.confirm uploaded parts = some (.ok ()))
    (hexp : S3Client.calcParts upload.totalSize upload.partSize = some expected)
    : checkSizes uploaded expected = .ok () := by
  unfold confirm at h
  split at h
  . contradiction
  . rw [hexp, map_some] at h
    split at h
    . contradiction
    . exact Option.some.inj h

end UploadV2

namespace StreamWriter

structure Layout (partSize size : Nat) (uploaded : FMap Int Bytes) : Prop where
  partSize_pos : 0 < partSize
  nonempty : 0 < Blocks.count partSize size
  keys : ∀ k, (uploaded.get? k).isSome ↔ ∃ idx : Nat, k = idx + 1 ∧ idx < Blocks.count partSize size
  len : ∀ idx : Nat, idx < Blocks.count partSize size
    → ∀ data, uploaded.get? ((idx : Int) + 1) = some data →
    data.length = min partSize (size - idx * partSize)

def putParts (writes : List (Int × Bytes)) (finalPartNum : Int) (finalPartData : Bytes)
    : FMap Int Bytes :=
  if finalPartData.length > 0 then
    (FMap.empty.setAll writes).set finalPartNum finalPartData
  else
    FMap.empty.setAll writes

variable {upload : UploadV2} {writes : List (Int × Bytes)} {uploaded : FMap Int Bytes}
  {finalPartNum : Int}
  {finalPartData : Bytes}

theorem uploadFinal_ok
    (h : uploadFinal upload (FMap.empty.setAll writes) finalPartNum finalPartData = .ok uploaded)
    : uploaded = putParts writes finalPartNum finalPartData
        ∧ (finalPartData.length > 0 → upload.presignPart finalPartNum = .ok ()) := by
  unfold uploadFinal at h
  unfold putParts
  split at h
  . next hpos =>
    rw [if_pos hpos]
    split at h
    . contradiction
    . next hpre => exact ⟨(Except.ok.inj h).symm, fun _ => hpre⟩
  . next hpos =>
    rw [if_neg hpos]
    exact ⟨(Except.ok.inj h).symm, fun hlt => absurd hlt hpos⟩

theorem completeUploaded_ok (h : completeUploaded upload uploaded = some (.ok result))
    : result = uploaded ∧ ∃ parts, upload.confirm uploaded parts = some (.ok ()) := by
  unfold completeUploaded at h
  split at h
  . cases h
  . dsimp only at h
    split at h
    . cases h
    . split at h
      . contradiction
      . cases h
      . next hconf => exact ⟨(Except.ok.inj (Option.some.inj h)).symm, _, hconf⟩

theorem presigned_of_isSome (hwrites : upload.presignAll writes = .ok ())
    (hfinal : finalPartData.length > 0 → upload.presignPart finalPartNum = .ok ())
    (h : ((putParts writes finalPartNum finalPartData).get? k).isSome)
    : 1 ≤ k ∧ k ≤ upload.partsTotal := by
  have hwritten : ((FMap.empty.setAll writes).get? k).isSome → 1 ≤ k ∧ k ≤ upload.partsTotal := by
    intro hk
    by_cases hmem : k ∈ writes.map Prod.fst
    . exact UploadV2.presignAll_ok hwrites hmem
    . rw [get?_setAll_of_not_mem _ _ hmem] at hk
      contradiction
  unfold putParts at h
  split at h
  . next hpos =>
    rw [get?_set] at h
    split at h
    . next heq =>
      rw [heq]
      exact UploadV2.presignPart_ok (hfinal hpos)
    . exact hwritten h
  . exact hwritten h

theorem complete_ok (hT : 0 ≤ totalSize) (hfit : totalSize ≤ maxInt64)
    (h : complete maxUploadBytes totalSize writes finalPartNum finalPartData = some (.ok uploaded))
    : uploaded = putParts writes finalPartNum finalPartData
        ∧ ∃ partSize, Layout partSize totalSize.toNat uploaded := by
  unfold complete at h
  split at h
  . cases h
  . next hne =>
    split at h
    . contradiction
    . cases h
    . next upload hinit =>
      obtain ⟨size, partSize, rfl, hpos, rfl, hparts⟩ := UploadV2.initiate_ok hT hfit hinit
      split at h
      . cases h
      . next hwrites =>
        split at h
        . cases h
        . next put hput =>
          obtain ⟨rfl, hfinal⟩ := uploadFinal_ok hput
          obtain ⟨rfl, parts, hconf⟩ := completeUploaded_ok h
          have hsizes := UploadV2.confirm_ok hconf hparts
          -- The presign calls bound the parts from above, the size check finds all of them.
          have hfound : ∀ idx : Nat, idx < Blocks.count partSize size → ∃ data,
              (putParts writes finalPartNum finalPartData).get? ((idx : Int) + 1) = some data
                ∧ data.length = min partSize (size - idx * partSize) := by
            intro idx hidx
            obtain ⟨data, hdata, hlen⟩ := UploadV2.checkSizes_ok hsizes
              (mem_map.mpr ⟨idx, mem_range.mpr hidx, rfl⟩)
            exact ⟨data, hdata, Int.ofNat.inj hlen⟩
          refine ⟨rfl, partSize, hpos, ?_, ?_, ?_⟩
          . obtain ⟨e, he⟩ := exists_mem_of_ne_nil writes (by simpa using hne)
            have hrange := UploadV2.presignAll_ok hwrites (mem_map_of_mem he)
            dsimp only at hrange
            rw [Int.toNat_natCast]
            omega
          . intro k
            rw [Int.toNat_natCast]
            constructor
            . intro hk
              have hrange := presigned_of_isSome hwrites hfinal hk
              dsimp only at hrange
              exact ⟨(k - 1).toNat, by omega, by omega⟩
            . rintro ⟨idx, rfl, hidx⟩
              obtain ⟨data, hdata, _⟩ := hfound idx hidx
              rw [hdata]
              rfl
          . intro idx hidx data hdata
            rw [Int.toNat_natCast] at hidx ⊢
            obtain ⟨data', hdata', hlen⟩ := hfound idx hidx
            rw [hdata] at hdata'
            rw [Option.some.inj hdata', hlen]

end StreamWriter

variable {data : Bytes}

namespace StreamUploader

variable {su : StreamUploader}

theorem get?_pendingWrites (su : StreamUploader) (lastPartNum : Int) (lastPartData : Option Bytes)
    (k : Int)
    : (FMap.empty.setAll (su.pendingWrites lastPartNum lastPartData)).get? k
        =
      if k = lastPartNum ∧ lastPartData.isSome then none else su.pendingParts.get? k := by
  have hfst : (su.pendingWrites lastPartNum lastPartData).map Prod.fst
      = su.pendingParts.keys.filter (fun pn => ¬ (pn = lastPartNum ∧ lastPartData.isSome)) := by
    unfold pendingWrites
    rw [List.map_map]
    exact List.map_id _
  have hmem : k ∈ (su.pendingWrites lastPartNum lastPartData).map Prod.fst
      ↔ (su.pendingParts.get? k).isSome ∧ ¬ (k = lastPartNum ∧ lastPartData.isSome) := by
    rw [hfst, List.mem_filter, FMap.mem_keys, decide_eq_true_iff]
  by_cases hk : k ∈ (su.pendingWrites lastPartNum lastPartData).map Prod.fst
  . have hk' := hmem.mp hk
    obtain ⟨data, hdata⟩ := Option.isSome_iff_exists.mp hk'.1
    rw [if_neg hk'.2, hdata]
    apply FMap.get?_setAll_of_mem
    . rw [hfst]
      exact su.pendingParts.nodup_keys.filter _
    . obtain ⟨e, he, hfst⟩ := List.mem_map.mp hk
      have hval : e = (k, data) := by
        obtain ⟨pn, _, rfl⟩ := List.mem_map.mp he
        dsimp only at hfst
        rw [hfst, hdata]
        rfl
      rw [← hval]
      exact he
  . rw [FMap.get?_setAll_of_not_mem _ _ hk, FMap.get?_empty]
    rw [hmem, not_and, not_not] at hk
    split
    . rfl
    . next hlast =>
      cases hget : su.pendingParts.get? k with
      | none => rfl
      | some data => exact absurd (hk (by rw [hget]; rfl)) hlast

theorem foldl_submitPart (full : List (Int × Bytes)) (su : StreamUploader)
    (h : (full.foldl (fun su e => su.submitPart (e.1 + 1) e.2) su).pendingParts.get? k = some data)
    : (∃ e, e ∈ full ∧ k = e.1 + 1 ∧ data = e.2)
        ∨ ((∀ e, e ∈ full → k ≠ e.1 + 1) ∧ su.pendingParts.get? k = some data) := by
  induction full generalizing su with
  | nil => exact .inr ⟨fun e he => absurd he not_mem_nil, h⟩
  | cons e es ih =>
    rw [foldl_cons] at h
    rcases ih _ h with ⟨e', he', heq⟩ | ⟨hnot, hget⟩
    . exact .inl ⟨e', mem_cons_of_mem e he', heq⟩
    . unfold submitPart at hget
      rw [get?_set] at hget
      split at hget
      . next hk => exact .inl ⟨e, mem_cons_self, hk, (Option.some.inj hget).symm⟩
      . next hk =>
        refine .inr ⟨?_, hget⟩
        intro e' he'
        cases mem_cons.mp he' with
        | inl heq =>
          rw [heq]
          exact hk
        | inr hes => exact hnot e' hes

end StreamUploader

namespace StreamHandle

open WriteBuffer

variable {h h' : StreamHandle}

structure PartHeld (wb : WriteBuffer) (idx : Nat) (data : Bytes) : Prop where
  len : data.length = wb.psz
  held : (((idx + 1) * wb.psz : Nat) : Int) ≤ wb.totalSize →
    ∀ o, o < wb.psz → wb.memAt (idx * wb.psz + o) = data.getD o 0

structure Submitted (h : StreamHandle) : Prop where
  wf : Wf h.dirty
  uploaded : h.dirty.uploadedParts = ∅
  onPartFull : h.dirty.onPartFull = .submitPart
  pending : ∀ k data, h.streamer.pendingParts.get? k = some data →
    ∃ idx : Nat, k = idx + 1 ∧ PartHeld h.dirty idx data

-- The submitted parts that the file reaches to after the operation are the ones it reached to
-- before, unwritten, or a sequential write fills them up once more.
def StreamOk (h : StreamHandle) (op : FileOp) : Prop :=
  op.Fits h.dirty.maxSize h.dirty.partSize ∧
    match op with
    | .write off data =>
      (off : Int) + data.length ≤ h.dirty.maxSize →
        ∀ k, k ∈ h.streamer.pendingParts.keys →
          k * h.dirty.partSize ≤ max h.dirty.totalSize (off + data.length) →
            (k * h.dirty.partSize ≤ h.dirty.totalSize
              ∧ ¬ Blocks.Hit h.dirty.psz off (off + data.length) (k - 1).toNat)
            ∨ FillsPart h.dirty off data (k - 1).toNat
    | .truncate size =>
      size ≤ h.dirty.maxSize →
        ∀ k, k ∈ h.streamer.pendingParts.keys →
          k * h.dirty.partSize ≤ size → k * h.dirty.partSize ≤ h.dirty.totalSize

instance (h : StreamHandle) (op : FileOp) : Decidable (StreamOk h op) :=
  match op with
  | .write _ _ | .truncate _ => inferInstanceAs (Decidable (_ ∧ (_ → _)))

variable {wb : WriteBuffer}

theorem PartHeld.of_fullPart (hwf : Wf wb) (he : FullPart wb e)
    : ∃ idx : Nat, e.1 + 1 = idx + 1 ∧ PartHeld wb idx e.2 := by
  obtain ⟨idx, hidx⟩ := Int.eq_ofNat_of_zero_le he.nonneg
  have hlen := he.len
  rw [hwf.partSize_eq] at hlen
  refine ⟨idx, by rw [hidx], by omega, ?_⟩
  intro _ o ho
  rw [memAt_part hwf he.not_small idx ho, ← hidx, he.part]
  rfl

variable {idx : Nat}

theorem PartHeld.mono (hheld : PartHeld wb idx data) (hcfg : SameCfg wb wb')
    (hsame : (((idx + 1) * wb.psz : Nat) : Int) ≤ wb'.totalSize →
      (((idx + 1) * wb.psz : Nat) : Int) ≤ wb.totalSize
        ∧ ∀ o, o < wb.psz → wb'.memAt (idx * wb.psz + o) = wb.memAt (idx * wb.psz + o))
    : PartHeld wb' idx data := by
  have hpsz := hcfg.psz
  constructor
  . rw [hpsz]
    exact hheld.len
  . rw [hpsz]
    intro hle o ho
    obtain ⟨hle', hmem⟩ := hsame hle
    rw [hmem o ho, hheld.held hle' o ho]

theorem Submitted.write (hsub : Submitted h) (hok : StreamOk h (.write off data))
    (hacc : (off : Int) + data.length ≤ h.dirty.maxSize)
    : ∃ h', h.write off data = some (h', none) ∧ Submitted h'
      ∧ h'.dirty.partSize = h.dirty.partSize := by
  have hwf := hsub.wf
  have hpos := hwf.psz_pos
  obtain ⟨r, hr, herr, hw, hnotified⟩ :=
    write_written hwf (by rw [hsub.onPartFull]; decide) hacc (hok.1.2 hacc)
  have hkeep := hok.2 hacc
  unfold StreamHandle.write
  rw [hr, Option.map_some, herr]
  refine ⟨_, rfl, ⟨hw.wf, ?_, ?_, ?_⟩, hw.cfg.partSize⟩
  . rw [hw.cfg.uploadedParts, hsub.uploaded]
  . rw [hw.cfg.onPartFull, hsub.onPartFull]
  . intro k bs hk
    rcases StreamUploader.foldl_submitPart _ _ hk with ⟨e, he, rfl, rfl⟩ | ⟨hnot, hold⟩
    . exact PartHeld.of_fullPart hw.wf (hnotified.full e he)
    . obtain ⟨idx, rfl, hheld⟩ := hsub.pending k bs hold
      refine ⟨idx, rfl, hheld.mono hw.cfg ?_⟩
      intro hle
      have hkP : ((idx : Int) + 1) * h.dirty.partSize
          = (((idx + 1) * h.dirty.psz : Nat) : Int) := by
        rw [hwf.partSize_eq]
        push_cast
        rfl
      have hcase := hkeep (idx + 1) (by rw [FMap.mem_keys, hold]; rfl)
        (by rw [hkP, ← hw.size]; exact hle)
      rw [hkP, Int.add_sub_cancel, Int.toNat_natCast] at hcase
      rcases hcase with ⟨hle', hmiss⟩ | hfills
      . refine ⟨hle', ?_⟩
        intro o ho
        apply hw.mem_miss
        rw [Blocks.div_of_eq hpos ho]
        exact hmiss
      . obtain ⟨e, he, heq⟩ := hnotified.filled hsub.onPartFull hsub.uploaded idx hfills
        exact absurd (by rw [heq]) (hnot e he)

theorem Submitted.truncate (hsub : Submitted h) {size : Int} (hok : StreamOk h (.truncate size))
    (hacc : size ≤ h.dirty.maxSize)
    : ∃ h', h.truncate size = some (h', none) ∧ Submitted h'
      ∧ h'.dirty.partSize = h.dirty.partSize := by
  have hwf := hsub.wf
  obtain ⟨wb, ht, htr⟩ := truncate_truncated hwf hacc (hok.1 hacc)
  have hkeep := hok.2 hacc
  unfold StreamHandle.truncate
  rw [ht]
  refine ⟨_, rfl, ⟨{ htr.wf with }, ?_, ?_, ?_⟩, htr.cfg.partSize⟩
  . exact htr.cfg.uploadedParts.trans hsub.uploaded
  . exact htr.cfg.onPartFull.trans hsub.onPartFull
  . intro k bs hk
    obtain ⟨idx, rfl, hheld⟩ := hsub.pending k bs hk
    have hheld' : PartHeld wb idx bs := by
      apply hheld.mono htr.cfg
      intro hle
      rw [htr.size] at hle
      have hend : (idx + 1) * h.dirty.psz = idx * h.dirty.psz + h.dirty.psz := by
        rw [Nat.add_mul, Nat.one_mul]
      have hpos := hwf.psz_pos
      have hkP : ((idx : Int) + 1) * h.dirty.partSize
          = (((idx + 1) * h.dirty.psz : Nat) : Int) := by
        rw [hwf.partSize_eq]
        push_cast
        rfl
      refine ⟨?_, ?_⟩
      . rw [← hkP]
        apply hkeep (idx + 1) (by rw [FMap.mem_keys, hk]; rfl)
        rw [hkP]
        omega
      . intro o ho
        apply htr.mem_keep
        omega
    exact ⟨idx, rfl, hheld'.len, hheld'.held⟩

theorem Submitted.apply (hsub : Submitted h) (hok : StreamOk h op)
    : ∃ h' err, h.apply op = some (h', err) ∧ Submitted h'
      ∧ h'.dirty.partSize = h.dirty.partSize := by
  cases op with
  | write off data =>
    by_cases hacc : (off : Int) + data.length ≤ h.dirty.maxSize
    . obtain ⟨h', happly, hsub'⟩ := hsub.write hok hacc
      exact ⟨h', none, happly, hsub'⟩
    . refine ⟨h, some .efbig, ?_, hsub, rfl⟩
      unfold StreamHandle.apply StreamHandle.write
      dsimp only
      rw [write_efbig hok.1.1 (by omega)]
      rfl
  | truncate size =>
    by_cases hacc : size ≤ h.dirty.maxSize
    . obtain ⟨h', happly, hsub'⟩ := hsub.truncate hok hacc
      exact ⟨h', none, happly, hsub'⟩
    . refine ⟨h, some .efbig, ?_, hsub, rfl⟩
      unfold StreamHandle.apply StreamHandle.truncate
      dsimp only
      rw [truncate_efbig (by omega)]

theorem count_eq_of_layout {p s size : Nat} (hp : 0 < p) (hs : 0 < s)
    (hne : 0 < Blocks.count s size)
    (hlast : size % p ≠ 0 → Blocks.count p size ≤ Blocks.count s size)
    (hlen : ∀ idx, idx < Blocks.count s size →
      min s (size - idx * s) = if size % p ≠ 0 ∧ idx + 1 = Blocks.count p size then size % p else p)
    : Blocks.count s size = Blocks.count p size := by
  have hsize : 0 < size := by
    have := (lt_count_iff hs size 0).mp hne
    omega
  by_cases hrem : size % p = 0
  . have hfirst := hlen 0 hne
    rw [if_neg (by omega), Nat.zero_mul, Nat.sub_zero] at hfirst
    by_cases hone : size ≤ s
    . obtain rfl : size = p := by omega
      have h1 := (count_le_iff hp size 1).mpr (by omega)
      have h2 := (count_le_iff hs size 1).mpr (by omega)
      have h3 := (lt_count_iff hp size 0).mpr (by omega)
      omega
    . obtain rfl : s = p := by omega
      rfl
  . have hle := hlast hrem
    have hn : 0 < Blocks.count p size := (lt_count_iff hp size 0).mpr (by omega)
    apply Nat.le_antisymm _ hle
    apply Nat.not_lt.mp
    intro hlt
    -- The short part is not the last one, so it has the full `s` bytes, and the last one has more.
    have hshort := hlen (Blocks.count p size - 1) (by omega)
    have hend := hlen (Blocks.count s size - 1) (by omega)
    have hnext := (lt_count_iff hs size _).mp hlt
    have hmod := Nat.mod_lt size hp
    rw [if_pos ⟨hrem, by omega⟩] at hshort
    rw [if_neg (by omega)] at hend
    have hmul : (Blocks.count p size - 1) * s + s = Blocks.count p size * s := by
      rw [← Nat.succ_mul]
      congr 1
      omega
    omega

theorem partData_last (hwf : Wf wb) (hrem : wb.totalSize.toNat % wb.psz ≠ 0)
    : ∃ data, wb.partData (Blocks.count wb.psz wb.totalSize.toNat : Int) = some data
        ∧ data.length = wb.totalSize.toNat % wb.psz := by
  have hpos := pos_eq (p := wb.psz) wb.totalSize.toNat
  have hmod := Nat.mod_lt wb.totalSize.toNat hwf.psz_pos
  obtain ⟨data, hdata, hlen, _⟩ := partData_some hwf (wb.totalSize.toNat / wb.psz) (by omega)
  refine ⟨data, ?_, by omega⟩
  rw [count_of_mod_ne hwf.psz_pos hrem]
  exact hdata

variable {uploaded : FMap Int Bytes}

theorem Submitted.get?_uploaded (hsub : Submitted h)
    (hflush : h.flush maxUploadBytes = some (.ok uploaded))
    : (∃ s, StreamWriter.Layout s h.dirty.totalSize.toNat uploaded)
        ∧ ∀ idx : Nat, uploaded.get? ((idx : Int) + 1)
            =
          if h.dirty.totalSize.toNat % h.dirty.psz ≠ 0
              ∧ idx + 1 = Blocks.count h.dirty.psz h.dirty.totalSize.toNat then
            h.dirty.partData (idx + 1)
          else
            h.streamer.pendingParts.get? (idx + 1) := by
  have hwf := hsub.wf
  have hT := hwf.size_nonneg
  have hP := hwf.partSize_pos
  have hfits := hwf.size_fits
  have hsize : h.dirty.size = (h.dirty.totalSize.toNat : Int) := (Int.toNat_of_nonneg hT).symm
  have hmod : h.dirty.size.tmod h.dirty.partSize
      = ((h.dirty.totalSize.toNat % h.dirty.psz : Nat) : Int) := by
    rw [hsize, hwf.partSize_eq, Int.ofNat_tmod]
  have hnum : h.dirty.numParts h.dirty.size
      = (Blocks.count h.dirty.psz h.dirty.totalSize.toNat : Int) := by
    rw [hsize]
    exact numParts_eq hwf (by omega)
  have hnodirty : h.dirty.dirtyStreamedParts = [] := by
    unfold dirtyStreamedParts
    rw [hsub.uploaded, Finset.empty_inter, Finset.sort_empty]
    rfl
  unfold flush at hflush
  dsimp only at hflush
  rw [hnum, hmod, hnodirty] at hflush
  split at hflush
  . contradiction
  . split at hflush
    . obtain ⟨rfl, hlayout⟩ :=
        StreamWriter.complete_ok (by rw [hsize]; omega) (by rw [hsize]; omega) hflush
      rw [hsize, Int.toNat_natCast] at hlayout
      refine ⟨hlayout, ?_⟩
      intro idx
      rw [append_nil]
      unfold StreamWriter.putParts
      by_cases hrem : h.dirty.totalSize.toNat % h.dirty.psz = 0
      . rw [hrem, if_neg (by omega : ¬ ((0 : Nat) : Int) ≠ 0), if_neg (by simp), if_neg (by omega),
          StreamUploader.get?_pendingWrites, if_neg (by simp)]
      . obtain ⟨data, hdata, hlen⟩ := partData_last hwf hrem
        rw [if_pos (by omega : ((h.dirty.totalSize.toNat % h.dirty.psz : Nat) : Int) ≠ 0), hdata,
          getD_some, if_pos (by omega), get?_set, StreamUploader.get?_pendingWrites]
        generalize Blocks.count h.dirty.psz h.dirty.totalSize.toNat = n at *
        by_cases hidx : idx + 1 = n
        . rw [if_pos (by omega), if_pos ⟨hrem, hidx⟩, ← hdata, ← hidx]
          rfl
        . rw [if_neg (by omega), if_neg (by omega), if_neg (by omega)]
    . contradiction

theorem PartHeld.eq_block (hwf : Wf wb) (hheld : PartHeld wb idx data)
    (hle : (((idx + 1) * wb.psz : Nat) : Int) ≤ wb.totalSize)
    : data = Multipart.block wb.psz wb.bytes idx := by
  have hend : (idx + 1) * wb.psz = idx * wb.psz + wb.psz := by
    rw [Nat.add_mul, Nat.one_mul]
  obtain ⟨hblen, hget⟩ := bytes_eq hwf
  unfold Multipart.block
  apply Flat.ext_getD 0
  . rw [hheld.len, Flat.length_slice]
    omega
  . intro o ho
    rw [hheld.len] at ho
    rw [← hheld.held hle o ho, Flat.getD_slice, if_pos (by omega), hget _ (by omega)]

section

variable (hsub : Submitted h) (hflush : h.flush maxUploadBytes = some (.ok uploaded))

include hsub hflush

theorem Submitted.length_uploaded
    (hdata : uploaded.get? ((idx : Int) + 1) = some data)
    : data.length
        =
      if h.dirty.totalSize.toNat % h.dirty.psz ≠ 0
          ∧ idx + 1 = Blocks.count h.dirty.psz h.dirty.totalSize.toNat then
        h.dirty.totalSize.toNat % h.dirty.psz
      else
        h.dirty.psz := by
  rw [(hsub.get?_uploaded hflush).2 idx] at hdata
  split at hdata
  . next hlast =>
    obtain ⟨last, hget, hlen⟩ := partData_last hsub.wf hlast.1
    rw [← hlast.2] at hget
    rw [if_pos hlast, ← hlen, Option.some.inj (hdata.symm.trans hget)]
  . next hlast =>
    obtain ⟨idx', _, hheld⟩ := hsub.pending _ data hdata
    rw [if_neg hlast, hheld.len]

theorem Submitted.keys_uploaded (k : Int) : (uploaded.get? k).isSome
        ↔
      ∃ idx : Nat, k = idx + 1 ∧ idx < Blocks.count h.dirty.psz h.dirty.totalSize.toNat := by
  have hp := hsub.wf.psz_pos
  obtain ⟨⟨s, hlayout⟩, hget⟩ := hsub.get?_uploaded hflush
  have hcount : Blocks.count s h.dirty.totalSize.toNat
      = Blocks.count h.dirty.psz h.dirty.totalSize.toNat := by
    apply count_eq_of_layout hp hlayout.partSize_pos hlayout.nonempty
    . intro hrem
      -- The short part is uploaded, so the layout has it.
      have hc := count_of_mod_ne hp hrem
      obtain ⟨last, hlast, _⟩ := partData_last hsub.wf hrem
      have hsome : uploaded.get? (Blocks.count h.dirty.psz h.dirty.totalSize.toNat : Int)
          = some last := by
        rw [← hlast, hc, Nat.cast_add, Nat.cast_one, hget, if_pos ⟨hrem, hc.symm⟩]
      obtain ⟨idx, hidx, hlt⟩ := (hlayout.keys _).mp (by rw [hsome]; rfl)
      omega
    . intro idx hidx
      obtain ⟨data, hdata⟩ := isSome_iff_exists.mp ((hlayout.keys _).mpr ⟨idx, rfl, hidx⟩)
      rw [← hlayout.len idx hidx data hdata]
      exact hsub.length_uploaded hflush hdata
  rw [← hcount]
  exact hlayout.keys k

theorem Submitted.uploaded_eq_block
    (hidx : idx < Blocks.count h.dirty.psz h.dirty.totalSize.toNat)
    : uploaded.get? ((idx : Int) + 1) = some (Multipart.block h.dirty.psz h.dirty.bytes idx) := by
  have hwf := hsub.wf
  have hp := hwf.psz_pos
  have hT := hwf.size_nonneg
  obtain ⟨data, hdata⟩ := isSome_iff_exists.mp ((hsub.keys_uploaded hflush _).mpr ⟨idx, rfl, hidx⟩)
  have hget := (hsub.get?_uploaded hflush).2 idx
  split at hget
  . rw [hget]
    apply partData_eq_block hwf
    rw [(bytes_eq hwf).1]
    exact hidx
  . next hlast =>
    rw [hget] at hdata
    obtain ⟨idx', heq, hheld⟩ := hsub.pending _ data hdata
    obtain rfl : idx = idx' := by omega
    rw [hget, hdata, hheld.eq_block hwf]
    -- Only the last part can be short.
    have hpos := pos_eq (p := h.dirty.psz) h.dirty.totalSize.toNat
    have hlt : idx < h.dirty.totalSize.toNat / h.dirty.psz := by
      by_cases hrem : h.dirty.totalSize.toNat % h.dirty.psz = 0
      . rw [lt_count_iff hp] at hidx
        apply Nat.lt_of_mul_lt_mul_right (a := h.dirty.psz)
        omega
      . have hc := count_of_mod_ne hp hrem
        generalize h.dirty.totalSize.toNat / h.dirty.psz = q at *
        omega
    have hle := mul_lt_of_lt (p := h.dirty.psz) hlt
    omega

end

theorem submitted_create {maxSize partSize : Int} (hM : 0 < maxSize) (hP : 0 < partSize)
    (hPle : partSize ≤ maxInt64) (smallFileMax : Int)
    : Submitted (create maxSize partSize smallFileMax)
        ∧ (create maxSize partSize smallFileMax).dirty.partSize = partSize := by
  have hfresh := fresh_eq hM hP smallFileMax
  have hwf := (holds_fresh hM hP hPle smallFileMax).wf
  have hup : (fresh maxSize partSize smallFileMax).uploadedParts = ∅ := by
    rw [hfresh]
    rfl
  have hpart : (fresh maxSize partSize smallFileMax).partSize = partSize := by
    rw [hfresh]
  refine ⟨⟨{ hwf with }, hup, rfl, ?_⟩, hpart⟩
  intro k data hk
  contradiction

-- In every run that leaves the submitted parts alone, a streaming flush that succeeds has uploaded
-- the parts of the buffer and nothing else.
theorem runs_stream_to_bytes (maxSize partSize smallFileMax : Int) (hM : 0 < maxSize)
    (hP : 0 < partSize) (hPle : partSize ≤ maxInt64) (ops : List FileOp)
    (hok : Machine.Steps StreamHandle.apply StreamOk (create maxSize partSize smallFileMax) ops)
    : ∃ h errs, Machine.run StreamHandle.apply (create maxSize partSize smallFileMax) ops = some (h, errs)
        ∧ ∀ (maxUploadBytes : Int) (uploaded : FMap Int Bytes),
            h.flush maxUploadBytes = some (.ok uploaded) →
            (∀ k, (uploaded.get? k).isSome
              ↔ ∃ idx : Nat, k = idx + 1 ∧ idx < Blocks.count partSize.toNat h.dirty.size.toNat)
            ∧ (∀ k, (uploaded.get? k).isSome → uploaded.get? k = h.dirty.partData k)
            ∧ Multipart.complete uploaded = h.dirty.bytes := by
  obtain ⟨h, errs, hrun, hsub, hpart⟩ := Machine.run_invariant StreamOk
    (fun h => Submitted h ∧ h.dirty.partSize = partSize)
    (by
      rintro h op ⟨hsub, hpart⟩ hok
      obtain ⟨h', err, happly, hsub', hpart'⟩ := hsub.apply hok
      exact ⟨h', err, happly, hsub', hpart'.trans hpart⟩)
    (submitted_create hM hP hPle smallFileMax) hok
  refine ⟨h, errs, hrun, ?_⟩
  intro maxUploadBytes uploaded hflush
  have hpsz : partSize.toNat = h.dirty.psz := by
    rw [← hpart]
    rfl
  have hlen := (bytes_eq hsub.wf).1
  have hkeys := hsub.keys_uploaded hflush
  rw [hpsz]
  refine ⟨hkeys, ?_, ?_⟩
  . intro k hk
    obtain ⟨idx, rfl, hidx⟩ := (hkeys k).mp hk
    rw [hsub.uploaded_eq_block hflush hidx, partData_eq_block hsub.wf (by rw [hlen]; exact hidx)]
  . apply Multipart.complete_eq hsub.wf.psz_pos
    . rw [hlen]
      exact hkeys
    . rw [hlen]
      intro idx hidx
      exact hsub.uploaded_eq_block hflush hidx

-- The submitted part is cut short, filled up differently and submitted again.
theorem runs_stream_to_bytes_resubmitted
    : (((Machine.run StreamHandle.apply (create 100 4 50000)
            [.write 0 [1, 2, 3, 4], .truncate 2, .write 2 [5, 5]]).bind
          (fun s => s.1.flush 0)).map (fun r => r.toOption.map Multipart.complete))
        = some (some [1, 2, 5, 5])
      ∧ ∃ h errs, Machine.run StreamHandle.apply (create 100 4 50000)
            [.write 0 [1, 2, 3, 4], .truncate 2, .write 2 [5, 5]] = some (h, errs)
          ∧ ∀ (maxUploadBytes : Int) (uploaded : FMap Int Bytes),
              h.flush maxUploadBytes = some (.ok uploaded) →
              (∀ k, (uploaded.get? k).isSome
                ↔ ∃ idx : Nat, k = idx + 1 ∧ idx < Blocks.count 4 h.dirty.size.toNat)
              ∧ (∀ k, (uploaded.get? k).isSome → uploaded.get? k = h.dirty.partData k)
              ∧ Multipart.complete uploaded = h.dirty.bytes :=
  ⟨by decide +kernel,
    runs_stream_to_bytes 100 4 50000 (by decide) (by decide) (by decide)
      [.write 0 [1, 2, 3, 4], .truncate 2, .write 2 [5, 5]] (by decide +kernel)⟩

-- A full part is submitted, then its first byte written once more: the old byte is uploaded.
theorem back_written_part_uploaded_stale
    : ((Machine.run StreamHandle.apply (create 100 4 50000) [.write 0 [1, 2, 3, 4], .write 0 [9]]).bind
          (fun s => (s.1.flush 0).map
            (fun r => (r.toOption.map (fun uploaded => (uploaded.keys, Multipart.complete uploaded)),
              s.1.dirty.bytes))))
        = some (some ([1], [1, 2, 3, 4]), [9, 2, 3, 4]) := by
  decide +kernel

end StreamHandle
