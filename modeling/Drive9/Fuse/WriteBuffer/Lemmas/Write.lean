import Drive9.Fuse.WriteBuffer.Lemmas.Small
import Drive9.Fuse.WriteBuffer.Lemmas.WriteParts

/-!
This module contains what a `Write` does to the meaning of a buffer, in either representation.
-/

open Option Flat

namespace WriteBuffer

variable {wb wb' : WriteBuffer}

namespace write

variable {data : Option (GoSlice UInt8)} {off : Nat}
  {retry self f g : WriteBuffer → Int → Bytes → Option WriteResult}

theorem clearSmall_length (data) (oldLen)
    : (smallList (clearSmall data oldLen)).length = (smallList data).length := by
  cases data with
  | none => rfl
  | some s =>
    unfold clearSmall smallList
    simp only [map_some, getD_some, GoSlice.length_toList]
    split <;> rfl

theorem clearSmall_getD (data) (oldLen i)
    : (smallList (clearSmall data oldLen)).getD i 0
        =
      if i < oldLen then (smallList data).getD i 0 else 0 := by
  cases data with
  | none =>
    simp [clearSmall, smallList]
  | some s =>
    unfold clearSmall smallList
    simp only [map_some, getD_some]
    split
    . rw [GoSlice.getD_toList_clearFrom]
    . next h =>
      split
      . rfl
      . rw [getD_of_length_le]
        rw [GoSlice.length_toList]
        omega

theorem growSmall_eq (wb) (needLen) (hold : (smallList wb.smallFileData).length ≤ needLen)
    (hmax : (needLen : Int) ≤ wb.smallFileMax)
    : ∃ grown, growSmall wb needLen = some grown
        ∧ (smallList grown).length = needLen
        ∧ ∀ i, i < (smallList wb.smallFileData).length →
            (smallList grown).getD i 0 = (smallList wb.smallFileData).getD i 0 := by
  unfold growSmall
  rw [← smallList_length]
  dsimp only
  split
  . generalize hcap : (if _ > wb.smallFileMax then _ else _) = newCap
    have hfit : needLen ≤ newCap.toNat := by
      grind
    obtain ⟨grown, s, hgrown, hs, hlen, hget⟩ :=
      GoSlice.make_copyAt?_reslice? 0 (smallList wb.smallFileData) hold hfit
    unfold smallList at hgrown
    rw [hgrown]
    dsimp only
    rw [Int.toNat_natCast, hs]
    refine ⟨some s, rfl, ?_, ?_⟩
    . simpa [smallList] using hlen
    . intro i _
      exact hget i
  . next hcap =>
    split
    . next hlen =>
      cases hs : wb.smallFileData with
      | none =>
        simp only [hs, map_none, getD_none] at hcap hlen
        simp [smallList] at hlen
        omega
      | some data =>
        simp only [hs, map_some, getD_some] at hcap
        obtain ⟨s, hs', hslen, hget⟩ := data.reslice?_getD (0 : UInt8) (n := needLen) (by omega)
        dsimp only
        rw [Int.toNat_natCast, hs']
        refine ⟨some s, rfl, ?_, ?_⟩
        . simpa [smallList] using hslen
        . intro i hi
          simp only [smallList, hs, map_some, getD_some, GoSlice.length_toList] at hold hi
          exact hget i (by omega) hi
    . next hlen =>
      refine ⟨_, rfl, ?_, ?_⟩
      . omega
      . intros
        rfl

theorem copySmall_eq (data) (off) (src : Bytes) (h : off + src.length ≤ (smallList data).length)
    : ∃ small, copySmall data off src = some small
        ∧ smallList small = Flat.copyAt (smallList data) off src
        ∧ (small = none → data = none) := by
  unfold copySmall
  rw [if_neg (by omega)]
  cases data with
  | none =>
    simp only [smallList, map_none, getD_none, List.length_nil] at h
    obtain rfl : off = 0 := by omega
    obtain rfl : src = [] := List.length_eq_zero_iff.mp (by omega)
    exact ⟨none, by simp, rfl, by simp⟩
  | some s =>
    dsimp only
    have hpos : off ≤ s.len := by
      simp only [smallList, map_some, getD_some, GoSlice.length_toList] at h
      omega
    obtain ⟨s', hs', hlen, hlist⟩ := s.copyAt?_eq src hpos
    rw [Int.toNat_natCast, hs']
    exact ⟨some s', rfl, hlist, by simp⟩

theorem smallSlice_eq (hsmall : SmallOk wb) (off : Nat) (data : Bytes) (needLen : Nat)
    (hneed : (needLen : Int) = max ((off : Int) + data.length) wb.totalSize)
    (hmax : (off : Int) + data.length ≤ wb.smallFileMax)
    : ∃ grown small, growSmall wb needLen = some grown
        ∧ copySmall (clearSmall grown (smallList wb.smallFileData).length) off data = some small
        ∧ (smallList small).length = needLen
        ∧ ∀ i, (smallList small).getD i 0
            =
            if off ≤ i ∧ i < off + data.length then
              data.getD (i - off) 0
            else
              (smallList wb.smallFileData).getD i 0 := by
  have hlen := hsmall.len_le
  have hsize := hsmall.size_le
  obtain ⟨grown, hgrown, hglen, hgget⟩ := growSmall_eq wb needLen (by omega) (by omega)
  have hclen := clearSmall_length grown (smallList wb.smallFileData).length
  obtain ⟨small, hcopy, hlist, _⟩ :=
    copySmall_eq (clearSmall grown (smallList wb.smallFileData).length) off data (by omega)
  refine ⟨grown, small, hgrown, hcopy, ?_, ?_⟩
  . rw [hlist, length_copyAt _ _ (by omega)]
    omega
  . intro i
    rw [hlist, getD_copyAt _ _ _ _ (by omega), clearSmall_getD]
    have hiff : (off ≤ i ∧ i < off + data.length
          ∧ i < (smallList (clearSmall grown (smallList wb.smallFileData).length)).length)
        ↔ (off ≤ i ∧ i < off + data.length) := by
      omega
    simp only [hiff]
    congr 1
    split
    . next hi => exact hgget i hi
    . next hi => rw [getD_of_length_le _ (by omega)]

theorem writeSmallFile_written (hwf : Wf wb) (hsmall : SmallOk wb)
    (retry : WriteBuffer → Int → Bytes → Option WriteResult) (off : Nat) (data : Bytes)
    (hfit : (off : Int) + data.length + wb.partSize ≤ maxInt64 + 1)
    (hM : (off : Int) + data.length ≤ wb.maxSize)
    (hmax : (off : Int) + data.length ≤ wb.smallFileMax)
    : ∃ r, writeSmallFile retry wb off data = some r ∧ r.err = none ∧ Written wb off data r.buf
        ∧ r.full = [] := by
  have hP := hwf.partSize_pos
  have hend : i64 ((off : Int) + data.length) = off + data.length := by
    apply i64_eq <;> omega
  generalize hneed : max ((off : Int) + data.length) wb.totalSize = need
  obtain ⟨needLen, rfl⟩ := Int.eq_ofNat_of_zero_le (a := need) (by omega)
  obtain ⟨grown, small, hgrown, hcopy, hlen, hget⟩ :=
    smallSlice_eq hsmall off data needLen hneed.symm hmax
  have hsize : (if (off : Int) + data.length > wb.totalSize then (off : Int) + data.length else wb.totalSize)
      = needLen := by
    split <;> omega
  unfold writeSmallFile
  rw [hend]
  dsimp only
  rw [if_neg (by omega), if_neg (by omega), ← smallList_length, hneed, hgrown]
  dsimp only
  rw [hcopy, hsize]
  refine ⟨_, rfl, rfl, ?_, rfl⟩
  generalize hnew :
    ({ wb with
        smallFileData := small
        totalSize := needLen
        touched := true
        dirtyParts := insert 0 wb.dirtyParts } : WriteBuffer) = new
  obtain ⟨cursor, seq, hadv⟩ := advanceCursor_frame new off (off + data.length)
  have hnsmall : SmallOk new := by
    rw [← hnew]
    have := hsmall.size_le
    exact
      { hsmall with
        size_le := by dsimp only; omega
        len_le := by dsimp only; omega }
  have hcfg : SameCfg wb new := by
    rw [← hnew]
    constructor <;> rfl
  have hnwf : Wf new := by
    have := hwf.size_fits
    rw [← hnew] at hnsmall ⊢
    refine
      { hwf with
        size_nonneg := by dsimp only; omega
        size_fits := by dsimp only; omega
        small_len := ?_
        small_max := fun _ => ⟨hnsmall.size_le, hnsmall.max_le⟩
        small_parts := fun _ => hnsmall.parts_none
        small_load := fun _ => hnsmall.load_none }
    intro s hs
    dsimp only at hs ⊢
    rw [smallList_length, hs] at hlen
    exact congrArg Nat.cast hlen
  have hbyte : ∀ i, new.byteAt i
      = if off ≤ i ∧ i < off + data.length then data.getD (i - off) 0 else wb.byteAt i := by
    intro i
    rw [hnsmall.byteAt, hsmall.byteAt, ← hget, ← hnew]
  rw [hadv]
  constructor
  . exact { hnwf with }
  . exact { hcfg with }
  . rw [← hnew]
    dsimp only
    omega
  . exact hbyte
  . intro i hmiss
    change new.memAt i = _
    rw [memAt_eq_byteAt hnsmall.load_none, memAt_eq_byteAt hsmall.load_none, hbyte, if_neg]
    intro hin
    exact hmiss (Blocks.hit_div hwf.psz_pos hin.1 hin.2)
  . rw [← hnew]
  . rw [← hnew]
    exact Finset.subset_insert _ _
  . -- The file ends inside part 0, there is no other part to hit.
    intro idx hidx
    have hmaxP := hsmall.max_le
    have hP := hwf.partSize_eq
    have hlt := hidx.2.1
    rw [← hnew, Blocks.eq_zero_of_mul_lt (p := wb.psz) idx (by omega)]
    exact Finset.mem_insert_self _ _

theorem smallOk_of_useSmallFile (hwf : Wf wb) (h : useSmallFile wb endOff) : SmallOk wb := by
  unfold useSmallFile at h
  cases hs : wb.smallFileData with
  | some data =>
    apply hwf.smallOk
    rw [hs]
    rfl
  | none =>
    simp only [hs, isSome_none, Bool.false_or, Bool.and_eq_true, decide_eq_true_eq] at h
    rcases h with ⟨⟨⟨⟨hmax, hparts⟩, hload⟩, _⟩, hsize⟩
    constructor
    . exact hsize
    . exact hmax
    . exact FMap.get?_of_isEmpty hparts
    . simpa using hload
    . rw [hs]
      exact hwf.size_nonneg

theorem useSmallFile_migrateToPartMode (h : endOff > wb.smallFileMax)
    : useSmallFile wb.migrateToPartMode endOff = false := by
  have hmax : ¬ endOff ≤ wb.migrateToPartMode.smallFileMax := by
    rw [(sameCfg_migrateToPartMode wb).smallFileMax]
    omega
  simp [useSmallFile, migrateToPartMode_none, hmax]

theorem body_migrateToPartMode (self) (off) (data : Bytes)
    (hM : ¬ i64 (off + data.length) > wb.maxSize) (hmax : i64 (off + data.length) > wb.smallFileMax)
    : body self wb.migrateToPartMode off data = partMode wb.migrateToPartMode off data := by
  unfold body
  rw [(sameCfg_migrateToPartMode wb).maxSize, if_neg hM, useSmallFile_migrateToPartMode hmax]
  rfl

theorem writeSmallFile_body_eq (f g) (off) (data)
    : writeSmallFile (body f) wb off data = writeSmallFile (body g) wb off data := by
  unfold writeSmallFile
  dsimp only
  split
  . rfl
  . next hM =>
    split
    . next hmax =>
      rw [body_migrateToPartMode f off data hM hmax, body_migrateToPartMode g off data hM hmax]
    . rfl

end write

theorem write_eq_body (off) (data) : wb.write off data = write.body write wb off data := by
  unfold write write.body
  dsimp only
  split
  . rfl
  . split
    . apply write.writeSmallFile_body_eq
    . rfl

theorem Written.of_migrateToPartMode (hwf : Wf wb) (h : Written wb.migrateToPartMode off data wb')
    : Written wb off data wb' := by
  have hcfg := sameCfg_migrateToPartMode wb
  constructor
  . exact h.wf
  . exact hcfg.trans h.cfg
  . rw [h.size, migrateToPartMode_frame]
  . intro i
    rw [h.byteAt, byteAt_migrateToPartMode hwf]
  . intro i hmiss
    rw [h.mem_miss i (by rw [hcfg.psz]; exact hmiss), memAt_migrateToPartMode hwf]
  . exact h.touched
  . have hdirty := h.dirty_mono
    rw [migrateToPartMode_frame] at hdirty
    exact hdirty
  . intro idx hidx
    apply h.dirty_hit
    rw [hcfg.psz]
    exact hidx

theorem Notified.of_migrateToPartMode {off : Nat}
    (hmax : wb.smallFileMax < (off : Int) + data.length)
    (h : Notified wb.migrateToPartMode off data r)
    : Notified wb off data r := by
  have hcfg := sameCfg_migrateToPartMode wb
  constructor
  . exact h.full
  . intro hsubmit hup idx hfills
    apply h.filled
    . rw [hcfg.onPartFull]
      exact hsubmit
    . rw [hcfg.uploadedParts]
      exact hup
    . have hseq : wb.migrateToPartMode.sequential = wb.sequential := by
        rw [migrateToPartMode_frame]
      have hcursor : wb.migrateToPartMode.appendCursor = wb.appendCursor := by
        rw [migrateToPartMode_frame]
      unfold FillsPart at hfills ⊢
      rw [hcfg.psz, hseq, hcursor]
      refine ⟨hfills.1, hfills.2.1, hfills.2.2.1, hfills.2.2.2.1, ?_⟩
      rw [hcfg.smallFileMax]
      exact fun _ => hmax

theorem write_efbig {off : Nat} (hfit : (off : Int) + data.length ≤ maxInt64)
    (hM : wb.maxSize < (off : Int) + data.length)
    : wb.write off data = some ⟨wb, 0, some .efbig, []⟩ := by
  have hend : i64 ((off : Int) + data.length) = off + data.length := by
    apply i64_eq <;> omega
  rw [write_eq_body]
  unfold write.body
  rw [hend, if_pos (by omega)]

theorem write_written (hwf : Wf wb) (hpf : wb.onPartFull ≠ .evictPart) {off : Nat}
    (hM : (off : Int) + data.length ≤ wb.maxSize)
    (hfit : (off : Int) + data.length + wb.partSize ≤ maxInt64 + 1)
    : ∃ r, wb.write off data = some r ∧ r.err = none ∧ Written wb off data r.buf
        ∧ Notified wb off data r := by
  have hP := hwf.partSize_pos
  have hend : i64 ((off : Int) + data.length) = off + data.length := by
    apply i64_eq <;> omega
  rw [write_eq_body]
  unfold write.body
  rw [hend, if_neg (by omega)]
  split
  . next huse =>
    have hsmall := write.smallOk_of_useSmallFile hwf huse
    cases lt_or_ge wb.smallFileMax ((off : Int) + data.length) with
    | inr hmax =>
      obtain ⟨r, hr, herr, hw, hfull⟩ :=
        write.writeSmallFile_written hwf hsmall _ off data hfit hM hmax
      refine ⟨r, hr, herr, hw, ?_, ?_⟩
      . intro e he
        rw [hfull] at he
        exact absurd he List.not_mem_nil
      . intro _ _ idx hfills
        have := hfills.2.2.2.2 huse
        omega
    | inl hmax =>
      have hcfg := sameCfg_migrateToPartMode wb
      unfold write.writeSmallFile
      rw [hend]
      rw [if_neg (by omega), if_pos (by omega), write_eq_body]
      rw [write.body_migrateToPartMode _ _ _ (by omega) (by omega)]
      obtain ⟨r, hr, herr, hw, hnotified⟩ := write.partMode_written (wf_migrateToPartMode hwf)
        migrateToPartMode_none (by rw [hcfg.onPartFull]; exact hpf) off data (by rw [hcfg.partSize]; exact hfit)
      exact ⟨r, hr, herr, hw.of_migrateToPartMode hwf, hnotified.of_migrateToPartMode hmax⟩
  . next huse =>
    apply write.partMode_written hwf _ hpf off data hfit
    simp only [write.useSmallFile, Bool.or_eq_true, not_or] at huse
    simpa using huse.1

end WriteBuffer
