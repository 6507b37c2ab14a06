import Drive9.Fuse.WriteBuffer.LazyLoad

/-!
This module contains the direct PUT of `flushHandle`: what it sends for a handle over a remote file
of which only some parts are in memory.
-/

namespace WriteBuffer

def bytesView (wb : WriteBuffer) : Bytes :=
  if wb.totalSize = 0 then [] else wb.smallFileBytes.getD wb.bytes

-- The handle has no streamer, and its file is not new.
def directPut (wb : WriteBuffer) (threshold : Int) : Option Bytes :=
  if ¬ wb.hasDirtyParts then
    none
  else if wb.size = 0 ∨ threshold > 0 ∧ wb.size < threshold then
    some wb.bytesView
  else
    none

def applyHandle (wb : WriteBuffer) (op : FileOp) : Option (WriteBuffer × Option BufError) :=
  match op with
  | .write .. => op.apply wb
  -- `truncateWritableHandleLocked`
  | .truncate newSize =>
    (op.apply wb).map fun (wb, err) => (if err.isNone then wb.resetSequentialState newSize else wb, err)

variable {wb : WriteBuffer} {remote file : Bytes}

section

variable (h : LazyHolds remote wb file)

include h

theorem LazyHolds.applyHandle (op : FileOp) (hok : LazyOk remote wb (.file op))
    : ∃ wb', wb.applyHandle op = some (wb', (op.applyRef wb.maxSize file).2)
        ∧ LazyHolds remote wb' (op.applyRef wb.maxSize file).1
        ∧ wb'.maxSize = wb.maxSize := by
  obtain ⟨wb', happly, h', hcfg⟩ := h.apply (.file op) hok
  cases op with
  | write off data => exact ⟨wb', happly, h', hcfg.maxSize⟩
  | truncate newSize =>
    refine ⟨_, congrArg (Option.map _) happly, ?_, ?_⟩
    . split
      . exact ⟨⟨{ h'.wf with }, h'.load, h'.remote_size, h'.not_uploaded, h'.onPartFull⟩, h'.size,
          h'.byteAt⟩
      . exact h'
    . split
      all_goals exact hcfg.maxSize

-- A part that is not in memory is sent as zeros.
theorem LazyHolds.bytes_iff
    : wb.bytes = file
        ↔
      ∀ i : Nat, i < wb.size → ¬ wb.isPartLoaded ((i / wb.psz : Nat) : Int) → remote.getD i 0 = 0 := by
  have hsize : wb.size = file.length := h.size
  have hmissing : ∀ i : Nat, ¬ wb.isPartLoaded ((i / wb.psz : Nat) : Int) →
      wb.memAt i = 0 ∧ wb.byteAt i = remote.getD i 0 := by
    intro i hnot
    rw [isPartLoaded_of_none h.not_small, Option.not_isSome_iff_eq_none] at hnot
    rw [memAt_of_none h.not_small, byteAt_of_none h.not_small, ← h.getD_absent i]
    unfold partOr
    rw [hnot]
    exact ⟨rfl, rfl⟩
  constructor
  . intro heq i hi hnot
    obtain ⟨hmem, hbyte⟩ := hmissing i hnot
    rw [← hbyte, h.byteAt i (by omega), ← heq, (bytes_eq h.wf).2 i (by rw [h.size]; omega), hmem]
  . intro hclean
    refine (shows_of_mem h.wf h.size ?_).bytes
    intro i hi
    rw [← h.byteAt i hi]
    by_cases hload : wb.isPartLoaded ((i / wb.psz : Nat) : Int)
    . exact memAt_eq_byteAt_of_isPartLoaded hload
    . obtain ⟨hmem, hbyte⟩ := hmissing i hload
      rw [hmem, hbyte, hclean i (by omega) hload]

theorem LazyHolds.directPut (hdirty : wb.hasDirtyParts) (hpos : 0 < threshold)
    (hlt : wb.size < threshold)
    : wb.directPut threshold = some wb.bytes := by
  unfold WriteBuffer.directPut bytesView smallFileBytes
  rw [if_neg (not_not.mpr hdirty), if_pos (.inr ⟨hpos, hlt⟩), h.not_small]
  unfold bytes
  split <;> rfl

end

-- In every run as in `lazy_runs_refine_file`, the direct PUT sends the file if no byte of the
-- remote file other than zero is left in a part that is not in memory.
theorem direct_put_sends_file (remote : Bytes) (maxSize partSize smallFileMax threshold : Int)
    (hM : 0 < maxSize)
    (hP : 0 < partSize) (hPle : partSize ≤ maxInt64)
    (hfit : (remote.length : Int) + partSize ≤ maxInt64 + 1)
    (hthreshold : remote.length < threshold) (ops : List FileOp)
    (hok : Machine.Steps applyHandle (fun wb op => LazyOk remote wb (.file op))
      (preload remote maxSize partSize smallFileMax) ops)
    : ∃ wb, Machine.run applyHandle (preload remote maxSize partSize smallFileMax) ops
          = some (wb, (Machine.specRun (FileOp.applyRef maxSize) remote ops).2)
        ∧ (wb.hasDirtyParts → wb.size < threshold →
            (wb.directPut threshold = some (Machine.specRun (FileOp.applyRef maxSize) remote ops).1
              ↔
            ∀ i : Nat, i < wb.size → ¬ wb.isPartLoaded ((i / wb.psz : Nat) : Int) → remote.getD i 0 = 0)) := by
  obtain ⟨wb, hrun, h⟩ :=
    runs_hold FileOp.applyRef hM hP hPle hfit (fun _ _ op h hok => h.applyHandle op hok) hok
  refine ⟨wb, hrun, ?_⟩
  intro hdirty hlt
  rw [h.directPut hdirty (by omega) hlt, Option.some.injEq]
  exact h.bytes_iff

theorem direct_put_sends_file_appended
    : ∃ wb, Machine.run applyHandle (preload [1, 2, 3] 100 4 8) [.write 3 [9], .truncate 6] = some (wb, [none, none])
        ∧ (wb.hasDirtyParts → wb.size < 10 → (wb.directPut 10 = some [1, 2, 3, 9, 0, 0] ↔ ∀ i : Nat, i < wb.size →
            ¬ wb.isPartLoaded ((i / wb.psz : Nat) : Int) → ([1, 2, 3] : Bytes).getD i 0 = 0)) :=
  direct_put_sends_file [1, 2, 3] 100 4 8 10 (by decide) (by decide) (by decide) (by decide) (by decide)
    [.write 3 [9], .truncate 6] (by decide)

-- A file that is only shortened was never loaded.
theorem shortened_file_sent_as_zeros
    : ((Machine.run applyHandle (preload [1, 2] 100 4 8) [.truncate 1]).bind fun s => s.1.directPut 10) = some [0]
      ∧ (Machine.specRun (FileOp.applyRef 100) [1, 2] [.truncate 1]).1 = [1] := by
  decide

end WriteBuffer
