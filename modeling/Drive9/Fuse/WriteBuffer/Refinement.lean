import Drive9.Fuse.WriteBuffer.FileOp
import Drive9.Fuse.WriteBuffer.Lemmas.Read

/-!
This module contains the refinement of a plain file by a write buffer that loads nothing: the buffer
of a file that is new on the remote.
-/

namespace WriteBuffer

variable {wb wb' : WriteBuffer}

def fresh (maxSize partSize smallFileMax : Int) : WriteBuffer :=
  (new maxSize partSize).setSmallFileMax smallFileMax

-- What a caller sees of the buffer is what the file `file` would show.
structure Shows (wb : WriteBuffer) (file : Bytes) : Prop where
  size : wb.size = file.length
  bytes : wb.bytes = file
  readAt : ∀ off len : Nat, (off : Int) + len ≤ maxInt64 →
    wb.readAt off len = some (Flat.slice file off (min (off + len) file.length))
  partData : ∀ idx : Nat, (idx : Int) * wb.partSize ≤ maxInt64 →
    wb.partData (idx + 1)
      =
    if idx * wb.psz < file.length then
      some (Flat.slice file (idx * wb.psz) (min ((idx + 1) * wb.psz) file.length))
    else
      none

structure Holds (wb : WriteBuffer) (file : Bytes) : Prop where
  wf : Wf wb
  load_none : wb.loadPart = none
  onPartFull : wb.onPartFull ≠ .evictPart
  size : wb.totalSize = file.length
  byteAt : ∀ i, wb.byteAt i = file.getD i 0

theorem shows_of_mem (hwf : Wf wb) (hsize : wb.totalSize = file.length)
    (hmem : ∀ i, i < file.length → wb.memAt i = file.getD i 0)
    : Shows wb file := by
  have hT : wb.totalSize.toNat = file.length := by omega
  constructor
  . exact hsize
  . obtain ⟨hlen, hget⟩ := bytes_eq hwf
    apply Flat.ext_getD 0
    . rw [hlen, hT]
    . intro i hi
      rw [hlen] at hi
      rw [hget i hi, hmem i (by omega)]
  . intro off len hfit
    obtain ⟨bs, hread, hlen, hget⟩ := readAt_eq hwf off len hfit
    rw [hread]
    congr 1
    apply Flat.ext_getD 0
    . rw [hlen, Flat.length_slice]
      omega
    . intro o ho
      rw [hget o ho, hmem _ (by omega), Flat.getD_slice, if_pos (by omega)]
  . intro idx hfit
    have hP := hwf.partSize_eq
    split
    . next hlt =>
      obtain ⟨data, hdata, hlen, hget⟩ := partData_some hwf idx (by omega)
      rw [hdata]
      congr 1
      have hend : (idx + 1) * wb.psz = idx * wb.psz + wb.psz := by
        rw [Nat.add_mul, Nat.one_mul]
      rw [hend]
      generalize idx * wb.psz = start at *
      apply Flat.ext_getD 0
      . rw [hlen, Flat.length_slice]
        omega
      . intro o ho
        rw [hget o ho, hmem _ (by omega), Flat.getD_slice, if_pos (by omega)]
    . next hge =>
      apply partData_none idx hfit hwf.partSize_pos
      rw [hP, ← Nat.cast_mul]
      omega

theorem Holds.shows {file : Bytes} (h : Holds wb file) : Shows wb file := by
  apply shows_of_mem h.wf h.size
  intro i _
  rw [memAt_eq_byteAt h.load_none, h.byteAt]

variable {op : FileOp} {maxSize partSize : Int}

theorem Holds.byteAt_change (h : Holds wb file) (hch : op.Changed wb wb') (i : Nat)
    : wb'.byteAt i = (op.change file).getD i 0 := by
  unfold FileOp.change
  cases op with
  | write off data =>
    rw [Written.byteAt hch, h.byteAt, Flat.getD_write]
  | truncate size =>
    rw [Flat.getD_resize]
    split
    . next hi =>
      rw [Truncated.keep hch i hi, h.byteAt]
    . next hi =>
      -- Beyond the new end there is nothing left of the old bytes.
      rcases Truncated.tail hch i (by omega) with hzero | habs | ⟨hle, hsame⟩
      . exact hzero
      . rw [habs, getD_absent_of_loadPart h.load_none]
      . have hsize := h.size
        rw [hsame, h.byteAt, Flat.getD_of_length_le]
        omega

theorem Holds.change (h : Holds wb file) (hch : op.Changed wb wb')
    : Holds wb' (op.change file) := by
  constructor
  . exact hch.wf
  . rw [hch.cfg.loadPart]
    exact h.load_none
  . rw [hch.cfg.onPartFull]
    exact h.onPartFull
  . exact hch.size h.size
  . exact h.byteAt_change hch

theorem fresh_eq (hM : 0 < maxSize) (hP : 0 < partSize) (smallFileMax : Int)
    : fresh maxSize partSize smallFileMax
        =
      { new 0 0 with
        maxSize := maxSize
        partSize := partSize
        smallFileMax := if smallFileMax ≤ 0 then defaultSmallFileThreshold else smallFileMax } := by
  unfold fresh setSmallFileMax new
  rw [if_neg (by omega : ¬ maxSize ≤ 0), if_neg (by omega : ¬ partSize ≤ 0)]
  split <;> rfl

theorem holds_fresh (hM : 0 < maxSize) (hP : 0 < partSize) (hPle : partSize ≤ maxInt64)
    (smallFileMax : Int)
    : Holds (fresh maxSize partSize smallFileMax) [] := by
  rw [fresh_eq hM hP]
  constructor
  . constructor
    . exact hP
    . exact hPle
    . dsimp only
      unfold defaultSmallFileThreshold
      split <;> omega
    . exact Int.le_refl 0
    . change 0 + partSize ≤ _
      omega
    . change 0 + partSize ≤ _
      omega
    . intro load h
      contradiction
    . intro idx part h
      contradiction
    . intro data h
      contradiction
    all_goals
      intro h
      contradiction
  . rfl
  . simp [new]
  . rfl
  . intro i
    rw [← memAt_eq_byteAt rfl]
    rfl

-- In every run whose sums stay inside `int64` the buffer answers like the file and shows the file.
theorem runs_refine_file (maxSize partSize smallFileMax : Int) (hM : 0 < maxSize)
    (hP : 0 < partSize)
    (hPle : partSize ≤ maxInt64) (ops : List FileOp)
    (hfits : ∀ op, op ∈ ops → op.Fits maxSize partSize)
    : ∃ wb, Machine.run FileOp.apply (fresh maxSize partSize smallFileMax) ops
          = some (wb, (Machine.specRun (FileOp.applyRef maxSize) [] ops).2)
        ∧ wb.partSize = partSize
        ∧ Shows wb (Machine.specRun (FileOp.applyRef maxSize) [] ops).1 := by
  have hfresh := fresh_eq hM hP smallFileMax
  obtain ⟨wb, hrun, hholds, _, hpart⟩ := Machine.run_refines (FileOp.applyRef maxSize)
    (fun _ op => op.Fits maxSize partSize)
    (fun wb file => Holds wb file ∧ wb.maxSize = maxSize ∧ wb.partSize = partSize)
    (by
      rintro wb file op ⟨hholds, hmax, hpart⟩ hok
      obtain ⟨wb', happly, hholds', hcfg⟩ :=
        FileOp.apply_refines Holds file hholds.wf hholds.onPartFull
        (by rw [hmax, hpart]; exact hok) hholds (fun _ wb' hch => hholds.change hch)
      rw [hmax] at happly hholds'
      exact ⟨wb', happly, hholds', by rw [hcfg.maxSize, hmax], by rw [hcfg.partSize, hpart]⟩)
    ⟨holds_fresh hM hP hPle smallFileMax, by rw [hfresh], by rw [hfresh]⟩
    (Machine.steps_of_forall _ ops hfits)
  exact ⟨wb, hrun, hpart, hholds.shows⟩

theorem runs_refine_file_small_truncated
    : ∃ wb, Machine.run FileOp.apply (fresh 100 8 5) [.write 1 [7, 7], .truncate 2, .truncate (-1), .write 99 [1, 2]]
          = some (wb, [none, none, none, some .efbig])
        ∧ wb.partSize = 8
        ∧ Shows wb [] :=
  runs_refine_file 100 8 5 (by decide) (by decide) (by decide)
    [.write 1 [7, 7], .truncate 2, .truncate (-1), .write 99 [1, 2]] (by decide)

-- One byte at the largest offset: the end wraps, passes the size check, and the small slice is
-- indexed far beyond its length.
theorem write_at_maxInt64_panics
    : Machine.run FileOp.apply (fresh (64 * 2 ^ 20) (8 * 2 ^ 20) 50000) [.write (2 ^ 63 - 1) [1]]
      = none
        ∧ (Machine.specRun (FileOp.applyRef (64 * 2 ^ 20)) [] [.write (2 ^ 63 - 1) [1]]).2
          = [some .efbig] := by
  decide

end WriteBuffer
