import Drive9.Fuse.WriteBuffer.Lemmas.Basic

/-!
This module contains the small-file representation.
-/

namespace WriteBuffer

variable {wb : WriteBuffer}

def smallList (data : Option (GoSlice UInt8)) : Bytes := (data.map GoSlice.toList).getD []

structure SmallOk (wb : WriteBuffer) : Prop where
  size_le : wb.totalSize ≤ wb.smallFileMax
  max_le : wb.smallFileMax ≤ wb.partSize
  parts_none : ∀ idx, wb.parts.get? idx = none
  load_none : wb.loadPart = none
  len_le : ((smallList wb.smallFileData).length : Int) ≤ wb.totalSize

theorem smallList_length (data : Option (GoSlice UInt8))
    : (smallList data).length = (data.map GoSlice.len).getD 0 := by
  cases data with
  | none => rfl
  | some s => simp [smallList]

theorem Wf.smallOk (hwf : Wf wb) (hs : wb.smallFileData.isSome) : SmallOk wb := by
  constructor
  . exact (hwf.small_max hs).1
  . exact (hwf.small_max hs).2
  . exact hwf.small_parts hs
  . exact hwf.small_load hs
  . obtain ⟨data, hdata⟩ := Option.isSome_iff_exists.mp hs
    rw [smallList_length, hdata]
    have := hwf.small_len data hdata
    simp only [Option.map_some, Option.getD_some]
    omega

theorem SmallOk.byteAt (h : SmallOk wb) (i : Nat)
    : wb.byteAt i = (smallList wb.smallFileData).getD i 0 := by
  cases hs : wb.smallFileData with
  | some data =>
    rw [byteAt_of_some hs]
    rfl
  | none =>
    rw [byteAt_of_none hs]
    unfold partOr
    rw [h.parts_none]
    rw [Option.getD_none, getD_absent_of_loadPart h.load_none]
    rfl

theorem byteAt_eq_zero_of_smallOk (hwf : Wf wb) (h : SmallOk wb) (hi : wb.psz ≤ i)
    : wb.byteAt i = 0 := by
  have := h.len_le
  have := h.size_le
  have := h.max_le
  have := hwf.partSize_eq
  rw [h.byteAt, Flat.getD_of_length_le]
  omega

theorem migrateToPartMode_none : wb.migrateToPartMode.smallFileData = none := by
  unfold migrateToPartMode
  split
  . assumption
  . split <;> rfl

theorem migrateToPartMode_frame
    : wb.migrateToPartMode
        =
      { wb with parts := wb.migrateToPartMode.parts, smallFileData := none } := by
  unfold migrateToPartMode
  split
  . next h => rw [← h]
  . split <;> rfl

theorem partOr_migrateToPartMode (hwf : Wf wb) (hs : wb.smallFileData.isSome) (idx o : Nat)
    : (wb.migrateToPartMode.partOr idx).getD o 0
        =
      if idx = 0 then wb.byteAt o else 0 := by
  obtain ⟨data, hdata⟩ := Option.isSome_iff_exists.mp hs
  rw [byteAt_of_some hdata]
  unfold partOr migrateToPartMode
  rw [hdata]
  dsimp only
  split
  . next hlen =>
    rw [hwf.small_parts hs]
    rw [Option.getD_none, getD_absent_of_loadPart (by exact hwf.small_load hs)]
    split
    . rw [Flat.getD_of_length_le]
      rw [GoSlice.length_toList]
      omega
    . rfl
  . next hlen =>
    rw [FMap.get?_set]
    split
    . next h0 =>
      rw [if_pos (by omega)]
      rfl
    . next h0 =>
      rw [if_neg (by omega)]
      rw [hwf.small_parts hs]
      rw [Option.getD_none, getD_absent_of_loadPart (by exact hwf.small_load hs)]

theorem wf_migrateToPartMode (hwf : Wf wb) : Wf wb.migrateToPartMode := by
  cases hs : wb.smallFileData with
  | none =>
    unfold migrateToPartMode
    rw [hs]
    exact hwf
  | some data =>
    have hsome : wb.smallFileData.isSome := by simp [hs]
    have hlen := hwf.small_len data hs
    have hmax := hwf.small_max hsome
    have hP := hwf.partSize_eq
    rw [migrateToPartMode_frame]
    refine
      { hwf with
        part_len := ?_
        small_len := by simp
        small_max := by simp
        small_parts := by simp
        small_load := by simp }
    intro idx part hpart
    unfold migrateToPartMode at hpart
    rw [hs] at hpart
    dsimp only at hpart
    split at hpart
    . rw [hwf.small_parts hsome] at hpart
      contradiction
    . rw [FMap.get?_set, hwf.small_parts hsome] at hpart
      split at hpart
      . cases hpart
        rw [GoSlice.length_toList]
        change data.len ≤ wb.psz
        omega
      . contradiction

theorem sameCfg_migrateToPartMode (wb) : SameCfg wb wb.migrateToPartMode := by
  rw [migrateToPartMode_frame]
  constructor <;> rfl

theorem byteAt_migrateToPartMode (hwf : Wf wb) (i : Nat)
    : wb.migrateToPartMode.byteAt i = wb.byteAt i := by
  cases hs : wb.smallFileData with
  | none =>
    unfold migrateToPartMode
    rw [hs]
  | some data =>
    have hsome : wb.smallFileData.isSome := by simp [hs]
    have hi := Blocks.pos_eq (p := wb.psz) i
    rw [byteAt_of_none migrateToPartMode_none, partOr_migrateToPartMode hwf hsome]
    rw [(sameCfg_migrateToPartMode wb).psz]
    split
    . next h0 =>
      congr 1
      rw [h0] at hi
      omega
    . next h0 =>
      rw [byteAt_eq_zero_of_smallOk hwf (hwf.smallOk hsome)]
      by_contra hlt
      apply h0
      apply Nat.div_eq_of_lt
      omega

theorem memAt_migrateToPartMode (hwf : Wf wb) (i : Nat)
    : wb.migrateToPartMode.memAt i = wb.memAt i := by
  cases hs : wb.smallFileData with
  | none =>
    unfold migrateToPartMode
    rw [hs]
  | some data =>
    have hload := hwf.small_load (by rw [hs]; rfl)
    rw [memAt_eq_byteAt (by rw [(sameCfg_migrateToPartMode wb).loadPart]; exact hload),
      memAt_eq_byteAt hload]
    exact byteAt_migrateToPartMode hwf i

end WriteBuffer
