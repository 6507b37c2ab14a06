import Drive9.Fuse.WriteBuffer.Impl.Read
import Drive9.Fuse.WriteBuffer.Lemmas.Truncate

/-!
This module contains what the observers of a buffer return: `Bytes`, `PartData` and `ReadAt` all
present the bytes `memAt`.
-/

open List Option Blocks Flat

namespace WriteBuffer

variable {wb : WriteBuffer}

theorem smallFileBytes_eq (hwf : Wf wb)
    : wb.smallFileBytes = wb.smallFileData.map GoSlice.toList := by
  unfold smallFileBytes
  cases hs : wb.smallFileData with
  | none => rfl
  | some data =>
    have := hwf.small_len data hs
    dsimp only
    rw [if_neg (by omega)]
    rfl

variable {i idx : Nat}

theorem memAt_of_some (h : wb.smallFileData = some data) (i)
    : wb.memAt i = data.toList.getD i 0 := by
  simp [memAt, h]

theorem memAt_part (hwf : Wf wb) (hs : wb.smallFileData = none) (idx) (ho : o < wb.psz)
    : wb.memAt (idx * wb.psz + o) = ((wb.parts.get? (idx : Int)).getD []).getD o 0 := by
  rw [memAt_of_none hs, div_of_eq hwf.psz_pos ho, mod_of_eq ho]

namespace bytes

structure Filled (wb : WriteBuffer) (i : Nat) (buf : Bytes) : Prop where
  len : buf.length = wb.totalSize.toNat
  getD : ∀ j, j < wb.totalSize.toNat → buf.getD j 0 = if j / wb.psz < i then wb.memAt j else 0

theorem Filled.copyAt (hwf : Wf wb) (hs : wb.smallFileData = none)
    (hi : i < Blocks.count wb.psz wb.totalSize.toNat)
    (hpart : wb.parts.get? (i : Int) = some part) (h : Filled wb i buf)
    : Filled wb (i + 1) (Flat.copyAt buf ((i : Int) * wb.partSize).toNat part) := by
  have hp := hwf.psz_pos
  have hpos : ((i : Int) * wb.partSize).toNat = i * wb.psz := by
    rw [hwf.partSize_eq, ← Nat.cast_mul, Int.toNat_natCast]
  have hstart := (lt_count_iff hp _ i).mp hi
  have hplen := hwf.part_len i part hpart
  have hblen := h.len
  rw [hpos]
  constructor
  . rw [length_copyAt _ _ (by omega)]
    exact hblen
  . intro j hj
    have hjpos := pos_eq (p := wb.psz) j
    have hmod := Nat.mod_lt j hp
    rw [getD_copyAt _ _ _ _ (by omega), h.getD j hj, memAt_of_none hs]
    rcases Nat.lt_trichotomy (j / wb.psz) i with hlt | heq | hgt
    . have := mul_lt_of_lt (p := wb.psz) hlt
      rw [Nat.add_mul] at this
      rw [if_neg (by omega), if_pos hlt, if_pos (by omega)]
    . rw [heq] at hjpos ⊢
      rw [hpart, getD_some, if_neg (Nat.lt_irrefl i), if_pos (Nat.lt_succ_self i)]
      split
      . congr 1
        omega
      . rw [getD_of_length_le]
        omega
    . have := mul_lt_of_lt (p := wb.psz) hgt
      rw [Nat.add_mul] at this
      rw [if_neg (by omega), if_neg (by omega), if_neg (by omega)]

theorem Filled.skip (hs : wb.smallFileData = none) (hpart : wb.parts.get? (i : Int) = none)
    (h : Filled wb i buf)
    : Filled wb (i + 1) buf := by
  constructor
  . exact h.len
  . intro j hj
    rw [h.getD j hj]
    by_cases heq : j / wb.psz = i
    . rw [if_neg (by omega), if_pos (by omega), memAt_of_none hs, heq, hpart]
      rfl
    . have hiff : j / wb.psz < i + 1 ↔ j / wb.psz < i := by omega
      simp only [hiff]

theorem go_filled (hwf : Wf wb) (hs : wb.smallFileData = none) (n i : Nat) (buf : Bytes)
    (hn : i + n = Blocks.count wb.psz wb.totalSize.toNat) (h : Filled wb i buf)
    : Filled wb (i + n) (go wb n i buf) := by
  induction n generalizing i buf with
  | zero => exact h
  | succ n ih =>
    have hstep : i + (n + 1) = i + 1 + n := by omega
    unfold go
    rw [hstep]
    cases hpart : wb.parts.get? (i : Int) with
    | none =>
      apply ih
      . omega
      . exact h.skip hs hpart
    | some part =>
      apply ih
      . omega
      . exact h.copyAt hwf hs (by omega) hpart

end bytes

theorem bytes_eq (hwf : Wf wb)
    : wb.bytes.length = wb.totalSize.toNat
        ∧ ∀ i, i < wb.totalSize.toNat → wb.bytes.getD i 0 = wb.memAt i := by
  have hp := hwf.psz_pos
  have hT := hwf.size_nonneg
  unfold bytes
  split
  . next hzero =>
    rw [hzero]
    simp
  . rw [smallFileBytes_eq hwf]
    cases hs : wb.smallFileData with
    | some data =>
      have hlen := hwf.small_len data hs
      dsimp only [map_some]
      constructor
      . rw [length_copyAt _ _ (Nat.zero_le _), length_replicate]
      . intro i hi
        rw [getD_copyAt _ _ _ _ (Nat.zero_le _), memAt_of_some hs, length_replicate]
        rw [GoSlice.length_toList, if_pos (by omega)]
        rfl
    | none =>
      dsimp only [map_none]
      have hfits := hwf.size_fits
      have hcount : wb.numParts wb.totalSize = Blocks.count wb.psz wb.totalSize.toNat := by
        rw [← numParts_eq hwf (by omega)]
        congr 1
        omega
      have hfilled : bytes.Filled wb 0 (List.replicate wb.totalSize.toNat 0) := by
        constructor
        . rw [length_replicate]
        . intro j hj
          rw [getD_replicate_zero, if_neg (Nat.not_lt_zero _)]
      have h := bytes.go_filled hwf hs (Blocks.count wb.psz wb.totalSize.toNat) 0 _ (by omega) hfilled
      rw [Nat.cast_zero] at h
      rw [hcount, Int.toNat_natCast]
      constructor
      . exact h.len
      . intro i hi
        have hpos := pos_eq (p := wb.psz) i
        rw [h.getD i hi, if_pos]
        rw [Nat.zero_add, lt_count_iff hp]
        omega

theorem partData_none (idx : Nat) (hfit : (idx : Int) * wb.partSize ≤ maxInt64)
    (hP : 0 < wb.partSize) (h : wb.totalSize ≤ idx * wb.partSize)
    : wb.partData (idx + 1) = none := by
  have hstart : i64 ((idx : Int) * wb.partSize) = idx * wb.partSize := by
    have : 0 ≤ (idx : Int) * wb.partSize := by positivity
    apply i64_eq <;> omega
  unfold partData
  dsimp only
  rw [Int.add_sub_cancel, hstart, if_pos h]

theorem partData_some (hwf : Wf wb) (idx) (h : idx * wb.psz < wb.totalSize.toNat)
    : ∃ data, wb.partData (idx + 1) = some data
        ∧ data.length = min wb.psz (wb.totalSize.toNat - idx * wb.psz)
        ∧ ∀ o, o < data.length → data.getD o 0 = wb.memAt (idx * wb.psz + o) := by
  have hfits := hwf.size_fits
  have hP := hwf.partSize_eq
  have hcast : (idx : Int) * wb.partSize = ((idx * wb.psz : Nat) : Int) := by
    rw [hP, Nat.cast_mul]
  unfold partData
  dsimp only
  rw [Int.add_sub_cancel, hcast]
  generalize hstart : idx * wb.psz = start at *
  rw [i64_eq (by omega) (by omega), if_neg (by omega), smallFileBytes_eq hwf]
  cases hs : wb.smallFileData with
  | some data =>
    have hmax := hwf.small_max (by simp [hs])
    obtain rfl := eq_zero_of_mul_lt (p := wb.psz) idx (by omega)
    rw [Nat.zero_mul] at hstart
    subst hstart
    dsimp only [map_some]
    rw [if_neg (by simp)]
    refine ⟨_, rfl, ?_, ?_⟩
    . rw [length_resize]
      omega
    . intro o ho
      rw [length_resize] at ho
      rw [getD_resize, if_pos ho, memAt_of_some hs, Nat.zero_add]
  | none =>
    dsimp only [map_none]
    have hend : i64 ((start : Int) + wb.partSize) = start + wb.partSize := by
      apply i64_eq <;> omega
    rw [hend, i64_eq (by omega) (by omega)]
    have hexp : (min ((start : Int) + wb.partSize) wb.totalSize - start).toNat
        = min wb.psz (wb.totalSize.toNat - start) := by
      omega
    rw [hexp]
    have hmem : ∀ o, o < min wb.psz (wb.totalSize.toNat - start) →
        wb.memAt (start + o) = ((wb.parts.get? (idx : Int)).getD []).getD o 0 := by
      intro o ho
      rw [← hstart, memAt_part hwf hs idx (by omega)]
    cases hpart : wb.parts.get? (idx : Int) with
    | none =>
      refine ⟨_, rfl, ?_, ?_⟩
      . rw [length_replicate]
      . intro o ho
        rw [length_replicate] at ho
        rw [getD_replicate_zero, hmem o ho, hpart]
        rfl
    | some part =>
      refine ⟨_, rfl, ?_, ?_⟩
      . rw [length_resize]
      . intro o ho
        rw [length_resize] at ho
        rw [getD_resize, if_pos ho, hmem o ho, hpart]
        rfl

namespace readAt

theorem chunk_eq (hwf : Wf wb) (hs : wb.smallFileData = none) (pos canRead : Nat)
    (hcan : pos % wb.psz + canRead ≤ wb.psz)
    : ∃ bs, chunk wb ((pos / wb.psz : Nat) : Int) ((pos % wb.psz : Nat) : Int) canRead = some bs
        ∧ bs.length = canRead
        ∧ ∀ o, o < canRead → bs.getD o 0 = wb.memAt (pos + o) := by
  have hmem : ∀ o, o < canRead → wb.memAt (pos + o)
      = ((wb.parts.get? ((pos / wb.psz : Nat) : Int)).getD []).getD (pos % wb.psz + o) 0 := by
    intro o ho
    have hpos := pos_eq (p := wb.psz) pos
    rw [← memAt_part hwf hs _ (by omega)]
    congr 1
    omega
  unfold chunk
  cases hpart : wb.parts.get? ((pos / wb.psz : Nat) : Int) with
  | none =>
    refine ⟨_, rfl, by simp, ?_⟩
    intro o ho
    rw [getD_replicate_zero, hmem o ho, hpart]
    rfl
  | some part =>
    rw [hpart, getD_some] at hmem
    dsimp only
    rw [if_neg (by omega)]
    split
    . split
      . refine ⟨_, rfl, by simp, ?_⟩
        intro o ho
        rw [getD_resize, Int.toNat_natCast, Int.toNat_natCast, if_pos ho, hmem o ho]
        simp only [getD_eq_getElem?_getD, getElem?_drop]
      . refine ⟨_, rfl, by simp, ?_⟩
        intro o ho
        rw [getD_replicate_zero, hmem o ho, getD_of_length_le _ (by omega)]
    . refine ⟨_, rfl, ?_, ?_⟩
      . rw [length_slice]
        omega
      . intro o ho
        rw [getD_slice, hmem o ho, if_pos (by omega)]
        rfl

theorem go_eq (hwf : Wf wb) (hs : wb.smallFileData = none) (fuel pos left : Nat)
    (hfuel : left ≤ fuel) (hfit : (pos : Int) + left ≤ maxInt64)
    : ∃ bs, go wb fuel pos left = some bs
        ∧ bs.length = left
        ∧ ∀ o, o < left → bs.getD o 0 = wb.memAt (pos + o) := by
  induction fuel generalizing pos left with
  | zero =>
    obtain rfl : left = 0 := by omega
    exact ⟨[], by simp [go], rfl, by simp⟩
  | succ fuel ih =>
    cases left with
    | zero => exact ⟨[], by simp [go], rfl, by simp⟩
    | succ left =>
      have hmod := Nat.mod_lt pos hwf.psz_pos
      have hdiv : (pos : Int).tdiv wb.partSize = ((pos / wb.psz : Nat) : Int) := by
        rw [hwf.partSize_eq, Int.ofNat_tdiv]
      have hmodI : (pos : Int).tmod wb.partSize = ((pos % wb.psz : Nat) : Int) := by
        rw [hwf.partSize_eq, Int.ofNat_tmod]
      generalize hcan : min (wb.psz - pos % wb.psz) (left + 1) = canRead
      have hcanI : min (i64 (wb.partSize - ((pos % wb.psz : Nat) : Int))) ((left + 1 : Nat) : Int)
          = canRead := by
        have hP := hwf.partSize_eq
        have hPle := hwf.partSize_le
        rw [i64_eq (by omega) (by omega)]
        omega
      obtain ⟨bs, hchunk, hlen, hget⟩ := chunk_eq hwf hs pos canRead (by omega)
      obtain ⟨rest, hgo, hrlen, hrget⟩ :=
        ih (pos + canRead) (left + 1 - canRead) (by omega) (by omega)
      refine ⟨bs ++ rest, ?_, ?_, ?_⟩
      . unfold go
        dsimp only
        rw [hdiv, hmodI, hcanI, if_neg (by omega), hchunk]
        rw [i64_eq (by omega) (by omega), Int.toNat_natCast, ← Nat.cast_add, hgo]
      . rw [length_append]
        omega
      . intro o ho
        simp only [getD_eq_getElem?_getD, getElem?_append] at hget hrget ⊢
        split
        . exact hget o (by omega)
        . rw [hrget _ (by omega)]
          congr 1
          omega

end readAt

theorem readAt_eq (hwf : Wf wb) (off len : Nat) (hfit : (off : Int) + len ≤ maxInt64)
    : ∃ bs, wb.readAt off len = some bs
        ∧ bs.length = min (off + len) wb.totalSize.toNat - off
        ∧ ∀ o, o < bs.length → bs.getD o 0 = wb.memAt (off + o) := by
  unfold readAt
  split
  . exact ⟨[], rfl, by simp; omega, by simp⟩
  . next hlt =>
    dsimp only
    rw [i64_eq (x := (off : Int) + len) (by omega) hfit]
    generalize htot : min (off + len) wb.totalSize.toNat - off = total
    have htotI : i64 (min ((off : Int) + len) wb.totalSize - off) = total := by
      rw [i64_eq] <;> omega
    rw [htotI]
    split
    . exact ⟨[], rfl, by simp; omega, by simp⟩
    . next hpos =>
      rw [smallFileBytes_eq hwf]
      cases hs : wb.smallFileData with
      | some data =>
        have hslen := hwf.small_len data hs
        dsimp only [map_some]
        rw [GoSlice.length_toList, if_neg (by omega)]
        have hlen : (Flat.slice data.toList (off : Int).toNat ((off : Int) + total).toNat).length
            = total := by
          rw [length_slice, GoSlice.length_toList]
          omega
        refine ⟨_, rfl, hlen, ?_⟩
        intro o ho
        rw [getD_slice, memAt_of_some hs, Int.toNat_natCast, if_pos (by omega)]
      | none =>
        dsimp only [map_none]
        rw [Int.toNat_natCast]
        obtain ⟨bs, hgo, hlen, hget⟩ := readAt.go_eq hwf hs total off total (le_refl _) (by omega)
        refine ⟨bs, hgo, hlen, ?_⟩
        intro o ho
        exact hget o (by omega)

end WriteBuffer
