import Drive9.Fuse.WriteBuffer.Impl.Write
import Drive9.Fuse.WriteBuffer.Impl.Read

/-!
This module contains what a `Write` does to the size and the dirty parts of any buffer, whatever its
arguments and its `OnPartFull` are.
-/

namespace WriteBuffer

variable {wb wb' : WriteBuffer}

-- The sizes of a buffer that `Size() + partSize` fits an `int64` in.
structure Bounded (wb : WriteBuffer) : Prop where
  partSize_pos : 0 < wb.partSize
  size_le : wb.totalSize ≤ wb.maxSize
  max_le : wb.maxSize + wb.partSize ≤ maxInt64 + 1

structure Keeps (wb wb' : WriteBuffer) : Prop where
  partSize : wb'.partSize = wb.partSize
  maxSize : wb'.maxSize = wb.maxSize
  totalSize : wb'.totalSize = wb.totalSize
  dirtyParts : wb.dirtyParts ⊆ wb'.dirtyParts

theorem Keeps.refl (wb)
    : Keeps wb wb := ⟨rfl, rfl, rfl, fun _ h => h⟩

theorem Keeps.trans (h : Keeps wb wb') (h' : Keeps wb' wb'') : Keeps wb wb'' where
  partSize := h'.partSize.trans h.partSize
  maxSize := h'.maxSize.trans h.maxSize
  totalSize := h'.totalSize.trans h.totalSize
  dirtyParts := h.dirtyParts.trans h'.dirtyParts

theorem keeps_ensurePart (wb) (partIdx) : Keeps wb (wb.ensurePart partIdx).1 := by
  unfold ensurePart
  split
  . exact .refl wb
  . split
    . exact .refl wb
    . split
      . exact ⟨rfl, rfl, rfl, fun _ h => h⟩
      . split
        . dsimp only
          split
          . split
            . exact .refl wb
            . exact ⟨rfl, rfl, rfl, fun _ h => h⟩
          . exact ⟨rfl, rfl, rfl, fun _ h => h⟩
        . exact ⟨rfl, rfl, rfl, fun _ h => h⟩

theorem keeps_migrateToPartMode (wb) : Keeps wb wb.migrateToPartMode := by
  unfold migrateToPartMode
  split
  . exact .refl wb
  . split
    all_goals exact ⟨rfl, rfl, rfl, fun _ h => h⟩

theorem keeps_insert (wb) (parts) (partIdx)
    : Keeps wb { wb with parts := parts, dirtyParts := insert partIdx wb.dirtyParts } :=
  ⟨rfl, rfl, rfl, Finset.subset_insert _ _⟩

variable {data : Bytes} {off : Int} {r : WriteResult}

namespace write

theorem keeps_go (fuel) (h : go fuel wb pos data = some (wb', rest, err))
    : Keeps wb wb' ∧ (data ≠ [] → err = none → wb'.dirtyParts.Nonempty) := by
  induction fuel generalizing wb pos data with
  | zero =>
    cases data with
    | nil =>
      cases h
      exact ⟨.refl _, fun hne => absurd rfl hne⟩
    | cons b bs => contradiction
  | succ fuel ih =>
    cases data with
    | nil =>
      cases h
      exact ⟨.refl _, fun hne => absurd rfl hne⟩
    | cons b bs =>
      have hensure := keeps_ensurePart wb (pos.tdiv wb.partSize)
      rw [go] at h
      split at h
      . next heq =>
        cases h
        rw [heq] at hensure
        exact ⟨hensure, fun _ hnone => absurd hnone (Option.some_ne_none _)⟩
      . next wb1 heq =>
        rw [heq] at hensure
        split at h
        . contradiction
        . obtain ⟨hkeeps, _⟩ := ih h
          have hround : Keeps wb wb' :=
            hensure.trans ((keeps_insert wb1 _ _).trans hkeeps)
          refine ⟨hround, fun _ _ => ?_⟩
          exact ⟨pos.tdiv wb.partSize, hkeeps.dirtyParts (Finset.mem_insert_self _ _)⟩

theorem keeps_callOnPartFull (wb) (p) : Keeps wb (callOnPartFull wb p) := by
  unfold callOnPartFull
  split
  . unfold evictPart
    dsimp only
    split
    . exact { keeps_migrateToPartMode { wb with uploadedParts := insert p wb.uploadedParts } with }
    . exact ⟨rfl, rfl, rfl, fun _ h => h⟩
  . exact .refl wb

theorem keeps_notifyFull (n) (wb) (p) : Keeps wb (notifyFull n wb p).1 := by
  induction n generalizing wb p with
  | zero => exact .refl wb
  | succ n ih =>
    rw [notifyFull]
    split
    . exact ih wb (p + 1)
    . split
      . split
        . exact (keeps_callOnPartFull wb p).trans (ih _ (p + 1))
        . exact ih wb (p + 1)
      . exact ih wb (p + 1)

theorem keeps_advanceCursor (wb) (offset endOff) : Keeps wb (advanceCursor wb offset endOff) := by
  unfold advanceCursor
  split
  . exact ⟨rfl, rfl, rfl, fun _ h => h⟩
  . split
    all_goals exact ⟨rfl, rfl, rfl, fun _ h => h⟩

theorem keeps_finish (wb) (offset endOff) : Keeps wb (finish wb offset endOff).1 := by
  have htouched : Keeps wb { wb with touched := true } := ⟨rfl, rfl, rfl, fun _ h => h⟩
  have hcursor := htouched.trans (keeps_advanceCursor { wb with touched := true } offset endOff)
  unfold finish
  dsimp only
  split
  . exact hcursor.trans (keeps_notifyFull _ _ _)
  . exact hcursor

structure Grown (wb : WriteBuffer) (data : Bytes) (r : WriteResult) : Prop where
  partSize : r.buf.partSize = wb.partSize
  maxSize : r.buf.maxSize = wb.maxSize
  totalSize : wb.totalSize ≤ wb.maxSize → r.buf.totalSize ≤ wb.maxSize
  dirtyParts : data ≠ [] → r.err = none → r.buf.dirtyParts.Nonempty

theorem partMode_grown (hmax : ¬ i64 (off + data.length) > wb.maxSize)
    (h : partMode wb off data = some r)
    : Grown wb data r := by
  unfold partMode at h
  -- The buffer with its new size, which the limit allows.
  have hsized : ∀ wb1 : WriteBuffer,
      wb1 = (if i64 (off + data.length) > wb.totalSize then
        { wb with totalSize := i64 (off + data.length) } else wb) →
      wb1.partSize = wb.partSize ∧ wb1.maxSize = wb.maxSize ∧ wb1.totalSize ≤ max wb.totalSize wb.maxSize := by
    intro wb1 heq
    rw [heq]
    split
    . exact ⟨rfl, rfl, le_trans (not_lt.mp hmax) (le_max_right _ _)⟩
    . exact ⟨rfl, rfl, le_max_left _ _⟩
  dsimp only at h
  generalize hwb1 : (if i64 (off + data.length) > wb.totalSize then
    { wb with totalSize := i64 (off + data.length) } else wb) = wb1 at h
  obtain ⟨hpart, hmaxSize, htotal⟩ := hsized wb1 hwb1.symm
  have hle : wb.totalSize ≤ wb.maxSize → wb1.totalSize ≤ wb.maxSize := by
    intro hbound
    rw [max_eq_right hbound] at htotal
    exact htotal
  split at h
  . contradiction
  . next hgo =>
    cases h
    obtain ⟨hkeeps, hdirty⟩ := keeps_go _ hgo
    exact ⟨hkeeps.partSize.trans hpart, hkeeps.maxSize.trans hmaxSize,
      fun hbound => hkeeps.totalSize ▸ hle hbound, hdirty⟩
  . next hgo =>
    cases h
    obtain ⟨hkeeps, hdirty⟩ := keeps_go _ hgo
    have hfinish := hkeeps.trans (keeps_finish _ off (i64 (off + data.length)))
    refine ⟨hfinish.partSize.trans hpart, hfinish.maxSize.trans hmaxSize, ?_, ?_⟩
    . intro hbound
      exact le_of_eq_of_le hfinish.totalSize (hle hbound)
    . intro hdata _
      exact (hdirty hdata rfl).mono (keeps_finish _ off (i64 (off + data.length))).dirtyParts

theorem writeSmallFile_grown (hretry : ∀ r, retry wb.migrateToPartMode off data = some r →
      Grown wb.migrateToPartMode data r) (h : writeSmallFile retry wb off data = some r)
    : Grown wb data r := by
  unfold writeSmallFile at h
  dsimp only at h
  split at h
  . cases h
    exact ⟨rfl, rfl, id, fun _ hnone => absurd hnone (Option.some_ne_none _)⟩
  . next hmax =>
    split at h
    . have hgrown := hretry r h
      have hkeeps := keeps_migrateToPartMode wb
      refine ⟨hgrown.partSize.trans hkeeps.partSize, hgrown.maxSize.trans hkeeps.maxSize, ?_,
        hgrown.dirtyParts⟩
      intro hbound
      rw [← hkeeps.maxSize, ← hkeeps.totalSize] at hbound
      exact le_of_le_of_eq (hgrown.totalSize hbound) hkeeps.maxSize
    . split at h
      . contradiction
      . split at h
        . contradiction
        . cases h
          generalize hinserted : { wb with
            smallFileData := _
            totalSize := if i64 (off + data.length) > wb.totalSize then i64 (off + data.length) else wb.totalSize
            touched := true
            dirtyParts := insert 0 wb.dirtyParts : WriteBuffer } = inserted
          have hkeeps := keeps_advanceCursor inserted off (i64 (off + data.length))
          subst hinserted
          refine ⟨hkeeps.partSize, hkeeps.maxSize, ?_, ?_⟩
          . intro hbound
            refine le_of_eq_of_le hkeeps.totalSize ?_
            split
            . exact not_lt.mp hmax
            . exact hbound
          . intro _ _
            exact ⟨0, hkeeps.dirtyParts (Finset.mem_insert_self _ _)⟩

theorem body_grown (hself : ∀ r, self wb.migrateToPartMode off data = some r →
      Grown wb.migrateToPartMode data r) (h : body self wb off data = some r)
    : Grown wb data r := by
  unfold body at h
  dsimp only at h
  split at h
  . cases h
    exact ⟨rfl, rfl, id, fun _ hnone => absurd hnone (Option.some_ne_none _)⟩
  . next hmax =>
    split at h
    . exact writeSmallFile_grown hself h
    . exact partMode_grown hmax h

end write

theorem write_grown (h : wb.write off data = some r) : write.Grown wb data r := by
  refine write.body_grown (fun r1 h1 => write.body_grown (fun r2 h2 => ?_) h1) h
  contradiction

theorem Bounded.write (hb : Bounded wb) (h : wb.write off data = some r) : Bounded r.buf := by
  have hgrown := write_grown h
  constructor
  . rw [hgrown.partSize]
    exact hb.partSize_pos
  . rw [hgrown.maxSize]
    exact hgrown.totalSize hb.size_le
  . rw [hgrown.maxSize, hgrown.partSize]
    exact hb.max_le

theorem Bounded.clearDirty (hb : Bounded wb) : Bounded wb.clearDirty :=
  ⟨hb.partSize_pos, hb.size_le, hb.max_le⟩

theorem Bounded.any_partData (hb : Bounded wb) (hsize : 0 < wb.size)
    : (List.range (wb.numParts wb.size).toNat).any (fun i => (wb.partData (i + 1)).isSome) := by
  obtain ⟨hP, hle, hmax⟩ := hb
  have hcount : 0 < (wb.numParts wb.size).toNat := by
    unfold numParts
    rw [i64_eq (by omega) (by unfold size at *; omega)]
    have hdiv : 0 < (wb.size + wb.partSize - 1).tdiv wb.partSize := by
      rw [Int.tdiv_eq_ediv_of_nonneg (by omega)]
      have hone :=
        (Int.le_ediv_iff_mul_le (a := 1) (b := wb.size + wb.partSize - 1) hP).mpr (by omega)
      omega
    omega
  rw [List.any_eq_true]
  refine ⟨0, List.mem_range.mpr hcount, ?_⟩
  have hstart : i64 (((0 : Nat) + 1 - 1 : Int) * wb.partSize) = 0 := by
    rw [Nat.cast_zero, zero_add, sub_self, zero_mul]
    rfl
  unfold partData
  dsimp only
  rw [hstart, if_neg (by unfold size at hsize; omega)]
  split
  . rfl
  . split <;> rfl

end WriteBuffer
