import Drive9.Fuse.WriteBuffer.Impl.Lazy
import Drive9.Fuse.WriteBuffer.Refinement

/-!
This module contains the refinement of a file by a lazily loaded write buffer.
-/

inductive LazyOp where
  | file (op : FileOp)
  | ensureLoaded (partIdx : Int)

open FMap Flat

namespace LazyOp

def applyRef (maxSize : Int) (file : Bytes) (op : LazyOp) : Bytes × Option BufError :=
  match op with
  | .file op => op.applyRef maxSize file
  | .ensureLoaded _ => (file, none)

def apply (wb : WriteBuffer) (op : LazyOp) : Option (WriteBuffer × Option BufError) :=
  match op with
  | .file op => op.apply wb
  | .ensureLoaded partIdx => some (wb.ensureLoaded partIdx)

end LazyOp

namespace WriteBuffer

variable {wb wb' : WriteBuffer} {remote file : Bytes}

def gapEnd (op : FileOp) : Nat :=
  match op with
  | .write off _ => off
  | .truncate size => size.toNat

-- Every byte of the gap is zero in the part that is in memory, or else on the remote.
def GapClean (remote : Bytes) (wb : WriteBuffer) (op : FileOp) : Prop :=
  ∀ i : Nat, i < gapEnd op → wb.totalSize ≤ i →
    ((wb.parts.get? ((i / wb.psz : Nat) : Int)).elim (remote.getD i 0) (List.getD · (i % wb.psz) 0)) = 0

instance (remote : Bytes) (wb : WriteBuffer) (op : FileOp) : Decidable (GapClean remote wb op) :=
  inferInstanceAs (Decidable (∀ i, i < gapEnd op → _))

def LazyOk (remote : Bytes) (wb : WriteBuffer) (op : LazyOp) : Prop :=
  match op with
  | .file op => op.Fits wb.maxSize wb.partSize ∧ (op.Accepted wb.maxSize → GapClean remote wb op)
  | .ensureLoaded _ => True

instance (remote : Bytes) (wb : WriteBuffer) (op : LazyOp) : Decidable (LazyOk remote wb op) :=
  match op with
  | .file _ => inferInstanceAs (Decidable (_ ∧ _))
  | .ensureLoaded _ => inferInstanceAs (Decidable True)

structure LazySetup (remote : Bytes) (wb : WriteBuffer) : Prop where
  wf : Wf wb
  load : wb.loadPart = some (loadRange remote wb.partSize)
  remote_size : wb.remoteSize = remote.length
  not_uploaded : wb.uploadedParts = ∅
  onPartFull : wb.onPartFull ≠ .evictPart

structure LazyHolds (remote : Bytes) (wb : WriteBuffer)
    (file : Bytes) : Prop extends LazySetup remote wb where
  size : wb.totalSize = file.length
  byteAt : ∀ i, i < file.length → wb.byteAt i = file.getD i 0

theorem LazySetup.not_small (h : LazySetup remote wb) : wb.smallFileData = none := by
  cases hs : wb.smallFileData with
  | none => rfl
  | some data =>
    have := h.wf.small_load (by rw [hs]; rfl)
    rw [h.load] at this
    contradiction

theorem LazySetup.sameCfg (h : LazySetup remote wb) (hwf : Wf wb') (hcfg : SameCfg wb wb')
    : LazySetup remote wb' := by
  constructor
  . exact hwf
  . rw [hcfg.loadPart, hcfg.partSize]
    exact h.load
  . rw [hcfg.remoteSize]
    exact h.remote_size
  . rw [hcfg.uploadedParts]
    exact h.not_uploaded
  . rw [hcfg.onPartFull]
    exact h.onPartFull

variable {partSize idx p : Int} {wb : WriteBuffer} {n : Nat}

theorem loadRange_eq (hP : 0 < partSize) (idx : Nat)
    : loadRange remote partSize (idx + 1)
        =
      .ok (Flat.slice remote (idx * partSize.toNat) (idx * partSize.toNat + partSize.toNat)) := by
  have hstart : ((idx : Int) + 1 - 1) * partSize = ((idx * partSize.toNat : Nat) : Int) := by
    rw [Int.add_sub_cancel, Nat.cast_mul]
    congr 1
    omega
  unfold loadRange
  dsimp only
  rw [hstart]
  congr 1
  generalize idx * partSize.toNat = start
  apply ext_getD 0
  . rw [length_slice, length_slice]
    omega
  . intro i hi
    rw [length_slice] at hi
    rw [getD_slice, getD_slice, if_pos (by omega), if_pos (by omega)]
    rfl

theorem LazySetup.getD_absent (h : LazySetup remote wb) (i : Nat)
    : (wb.absent (i / wb.psz)).getD (i % wb.psz) 0 = remote.getD i 0 := by
  have hp := h.wf.psz_pos
  have hpos := Blocks.pos_eq (p := wb.psz) i
  have hmod := Nat.mod_lt i hp
  unfold absent
  rw [if_neg (by rw [h.not_uploaded]; simp), h.load]
  dsimp only
  rw [h.remote_size]
  split
  . rw [loadRange_eq h.wf.partSize_pos]
    change (Flat.slice remote (i / wb.psz * wb.psz) (i / wb.psz * wb.psz + wb.psz)).getD _ 0 = _
    rw [getD_slice, if_pos (by omega), ← hpos]
  . next hlt =>
    rw [h.wf.partSize_eq, ← Nat.cast_mul, Nat.cast_lt] at hlt
    have hout : remote.getD i 0 = 0 := getD_of_length_le 0 (by omega)
    rw [hout]
    rfl

section

variable (h : LazyHolds remote wb file)

include h

section

variable (hgap : GapClean remote wb op)

include hgap

theorem LazyHolds.byteAt_gap (h1 : file.length ≤ i) (h2 : i < gapEnd op) : wb.byteAt i = 0 := by
  have hclean := hgap i h2 (by rw [h.size]; exact_mod_cast h1)
  rw [byteAt_of_none h.not_small]
  unfold partOr
  cases hpart : wb.parts.get? ((i / wb.psz : Nat) : Int) with
  | none =>
    rw [hpart] at hclean
    rw [Option.getD_none, h.getD_absent]
    exact hclean
  | some part =>
    rw [hpart] at hclean
    exact hclean

theorem LazyHolds.byteAt_change
    (hch : op.Changed wb wb') (hi : i < (op.change file).length)
    : wb'.byteAt i = (op.change file).getD i 0 := by
  -- What was there before the operation: the file, or the gap, which is clean.
  have hold : i < max file.length (gapEnd op) → wb.byteAt i = file.getD i 0 := by
    intro hlt
    cases Nat.lt_or_ge i file.length with
    | inl hin => exact h.byteAt i hin
    | inr hge => rw [h.byteAt_gap hgap hge (by omega), getD_of_length_le 0 hge]
  unfold FileOp.change at hi ⊢
  unfold gapEnd at hold
  cases op with
  | write off data =>
    dsimp only at hi hold ⊢
    rw [length_write] at hi
    rw [Written.byteAt hch, getD_write]
    split
    . rfl
    . exact hold (by omega)
  | truncate size =>
    dsimp only at hi hold ⊢
    rw [length_resize] at hi
    rw [Truncated.keep hch i hi, getD_resize, if_pos hi]
    exact hold (by omega)

theorem LazyHolds.change (hch : op.Changed wb wb') : LazyHolds remote wb' (op.change file) := by
  constructor
  . exact h.sameCfg hch.wf hch.cfg
  . exact hch.size h.size
  . intro i hi
    exact h.byteAt_change hgap hch hi

end

end

theorem LazySetup.ensurePart_none (h : LazySetup remote wb) (hnone : wb.parts.get? idx = none)
    : ∃ part, wb.ensurePart idx = ({ wb with parts := wb.parts.set idx part }, none)
        ∧ part.length ≤ wb.psz := by
  obtain ⟨data, hdata, hlen, _⟩ := h.wf.load_ok _ h.load idx
  unfold ensurePart
  rw [if_neg (by simp [h.not_small]), if_neg (by simp [hnone]), if_neg (by simp [h.not_uploaded]),
    h.load]
  dsimp only
  rw [hdata]
  split
  . exact ⟨data, rfl, hlen⟩
  . exact ⟨[], rfl, Nat.zero_le _⟩

theorem LazyHolds.withParts (h : LazyHolds remote wb file) {parts : FMap Int Bytes}
    (hlen : ∀ (idx : Int) (part : Bytes), parts.get? idx = some part → part.length ≤ wb.psz)
    (hor : ∀ idx : Nat, (parts.get? (idx : Int)).getD (wb.absent idx) = wb.partOr idx)
    : LazyHolds remote { wb with parts := parts } file := by
  constructor
  . apply h.sameCfg
    . exact h.wf.withParts h.not_small parts wb.dirtyParts hlen
    . constructor <;> rfl
  . exact h.size
  . intro i hi
    rw [← h.byteAt i hi, byteAt_of_none h.not_small, byteAt_of_none (by exact h.not_small), ← hor]
    rfl

theorem isPartLoaded_of_none (hs : wb.smallFileData = none) (idx)
    : wb.isPartLoaded idx = (wb.parts.get? idx).isSome := by
  unfold isPartLoaded
  rw [if_neg (by simp [hs])]

theorem LazyHolds.ensureLoaded (h : LazyHolds remote wb file) (idx)
    : ∃ wb', wb.ensureLoaded idx = (wb', none)
        ∧ LazyHolds remote wb' file
        ∧ SameCfg wb wb'
        ∧ wb'.isPartLoaded idx
        ∧ ∀ k, wb.isPartLoaded k → wb'.isPartLoaded k := by
  have hcfg : ∀ parts, SameCfg wb { wb with parts := parts } := by
    intro parts
    constructor <;> rfl
  unfold WriteBuffer.ensureLoaded
  cases hpart : wb.parts.get? idx with
  | some part =>
    refine ⟨wb, ?_, h, .refl wb, ?_, fun _ hk => hk⟩
    . unfold ensurePart
      rw [if_neg (by simp [h.not_small]), if_pos (by simp [hpart])]
    . rw [isPartLoaded_of_none h.not_small, hpart]
      rfl
  | none =>
    -- One entry is added. At a negative index nothing ever looks at it.
    have hset : ∃ part, wb.ensurePart idx = ({ wb with parts := wb.parts.set idx part }, none)
        ∧ part.length ≤ wb.psz
        ∧ ∀ n : Nat, idx = n → part = wb.absent n := by
      cases Int.lt_or_le idx 0 with
      | inl hneg =>
        obtain ⟨part, heq, hlen⟩ := h.ensurePart_none hpart
        exact ⟨part, heq, hlen, by omega⟩
      | inr hpos =>
        obtain ⟨n, rfl⟩ := Int.eq_ofNat_of_zero_le hpos
        refine ⟨wb.absent n, ?_, h.wf.absent_len n, ?_⟩
        . rw [ensurePart_eq h.wf h.not_small, ensuredParts, hpart]
          rfl
        . intro m hm
          rw [Nat.cast_inj.mp hm]
    obtain ⟨part, heq, hlen, habs⟩ := hset
    refine ⟨_, heq, ?_, hcfg _, ?_, ?_⟩
    . apply h.withParts
      . exact forall_set h.wf.part_len hlen
      . intro n
        unfold partOr
        rw [get?_set]
        split
        . next hn =>
          rw [hn, hpart, habs n hn.symm]
          rfl
        . rfl
    . rw [isPartLoaded_of_none (by exact h.not_small), get?_set_self]
      rfl
    . intro k hk
      rw [isPartLoaded_of_none h.not_small] at hk
      rw [isPartLoaded_of_none (by exact h.not_small), get?_set]
      split
      . rfl
      . exact hk

theorem LazyHolds.apply (h : LazyHolds remote wb file) (op : LazyOp) (hok : LazyOk remote wb op)
    : ∃ wb', op.apply wb = some (wb', (op.applyRef wb.maxSize file).2)
        ∧ LazyHolds remote wb' (op.applyRef wb.maxSize file).1
        ∧ SameCfg wb wb' := by
  cases op with
  | ensureLoaded idx =>
    obtain ⟨wb', hload, hholds, hcfg, _⟩ := h.ensureLoaded idx
    refine ⟨wb', ?_, hholds, hcfg⟩
    unfold LazyOp.apply LazyOp.applyRef
    dsimp only
    rw [hload]
  | file op =>
    rcases hok with ⟨hfits, hgap⟩
    exact FileOp.apply_refines (LazyHolds remote) file h.wf h.onPartFull hfits h
      (fun hacc wb' hch => h.change (hgap hacc) hch)

theorem ensurePart_dirtyParts (wb : WriteBuffer) (idx : Int)
    : (wb.ensurePart idx).1.dirtyParts = wb.dirtyParts := by
  unfold ensurePart
  dsimp only
  repeat' split
  all_goals rfl

theorem readDirty.loadParts_dirtyParts (wb : WriteBuffer) (n : Nat) (p : Int)
    : (loadParts n wb p).1.dirtyParts = wb.dirtyParts := by
  induction n generalizing wb p with
  | zero => rfl
  | succ n ih =>
    have hens := ensurePart_dirtyParts wb p
    unfold loadParts WriteBuffer.ensureLoaded
    split
    . exact ih wb (p + 1)
    . split
      . next heq =>
        rw [heq] at hens
        exact hens
      . next heq =>
        rw [heq] at hens
        rw [ih]
        exact hens

theorem LazyHolds.loadParts (h : LazyHolds remote wb file) (n) (p)
    : ∃ wb', readDirty.loadParts n wb p = (wb', none)
        ∧ LazyHolds remote wb' file
        ∧ SameCfg wb wb'
        ∧ (∀ k, p ≤ k → k < p + n → wb'.isPartLoaded k)
        ∧ ∀ k, wb.isPartLoaded k → wb'.isPartLoaded k := by
  induction n generalizing wb p with
  | zero => exact ⟨wb, rfl, h, .refl wb, by omega, fun _ hk => hk⟩
  | succ n ih =>
    -- Part `p` is in memory after the first round, and stays there.
    have hfirst : ∃ wb1, readDirty.loadParts (n + 1) wb p = readDirty.loadParts n wb1 (p + 1)
        ∧ LazyHolds remote wb1 file
        ∧ SameCfg wb wb1
        ∧ wb1.isPartLoaded p
        ∧ ∀ k, wb.isPartLoaded k → wb1.isPartLoaded k := by
      rw [readDirty.loadParts]
      split
      . next hloaded => exact ⟨wb, rfl, h, .refl wb, hloaded, fun _ hk => hk⟩
      . obtain ⟨wb1, heq, h1, hcfg1, hp, hmono⟩ := h.ensureLoaded p
        rw [heq]
        exact ⟨wb1, rfl, h1, hcfg1, hp, hmono⟩
    obtain ⟨wb1, heq1, h1, hcfg1, hp, hmono1⟩ := hfirst
    obtain ⟨wb2, heq2, h2, hcfg2, hall, hmono2⟩ := ih h1 (p + 1)
    rw [heq1]
    refine ⟨wb2, heq2, h2, hcfg1.trans hcfg2, ?_, fun k hk => hmono2 k (hmono1 k hk)⟩
    intro k hk1 hk2
    by_cases hk : k = p
    . rw [hk]
      exact hmono2 p hp
    . exact hall k (by omega) (by omega)

theorem LazyHolds.readDirty (h : LazyHolds remote wb file) (off len : Nat)
    (hfit : (off : Int) + len ≤ maxInt64)
    : ∃ wb', wb.readDirty off len
        = some (wb', .ok (Flat.slice file off (min (off + len) file.length))) := by
  have hsize := h.size
  unfold WriteBuffer.readDirty
  split
  . refine ⟨wb, ?_⟩
    have hnil : Flat.slice file off (min (off + len) file.length) = [] := by
      apply List.length_eq_zero_iff.mp
      rw [length_slice]
      omega
    rw [hnil]
  . next hlt =>
    dsimp only
    rw [i64_eq (by omega) hfit, h.size]
    generalize hend : min (off + len) file.length = endOff
    have hendI : min ((off : Int) + len) file.length = endOff := by omega
    rw [hendI]
    obtain ⟨wb', hload, h', hcfg, hloaded, _⟩ := h.loadParts
      (((endOff : Int) - 1).tdiv wb.partSize - (off : Int).tdiv wb.partSize + 1).toNat
      ((off : Int).tdiv wb.partSize)
    rw [hload]
    dsimp only
    have hlen : ((endOff : Int) - off).toNat = endOff - off := by omega
    obtain ⟨bs, hread, hbs, hget⟩ := readAt_eq h'.wf off (endOff - off) (by omega)
    rw [hlen, hread]
    refine ⟨wb', ?_⟩
    rw [Option.map_some]
    congr 3
    have hbs' : bs.length = endOff - off := by
      rw [hbs, h'.size]
      omega
    apply ext_getD 0
    . rw [hbs', length_slice]
      omega
    . intro o ho
      rw [hbs'] at ho
      have hpart : wb'.isPartLoaded (((off + o) / wb'.psz : Nat) : Int) := by
        apply hloaded
        . rw [h.wf.partSize_eq, hcfg.psz, ← Int.ofNat_tdiv, Nat.cast_le]
          apply Nat.div_le_div_right
          omega
        . have hlast : ((endOff : Int) - 1).tdiv wb.partSize
              = (((endOff - 1) / wb.psz : Nat) : Int) := by
            rw [h.wf.partSize_eq, Int.ofNat_tdiv]
            rw [Nat.cast_sub (by omega)]
            rfl
          have hle : (off + o) / wb.psz ≤ (endOff - 1) / wb.psz := by
            apply Nat.div_le_div_right
            omega
          rw [hlast, h.wf.partSize_eq, hcfg.psz, ← Int.ofNat_tdiv]
          generalize (off + o) / wb.psz = a at *
          generalize (endOff - 1) / wb.psz = b at *
          generalize off / wb.psz = c at *
          omega
      rw [hget o (by omega), memAt_eq_byteAt_of_isPartLoaded hpart, h'.byteAt _ (by omega)]
      rw [getD_slice, if_pos (by omega)]

theorem loadOk_loadRange (hP : 0 < partSize)
    (hload : wb.loadPart = some (loadRange remote partSize))
    (hpart : wb.partSize = partSize) (hsize : wb.remoteSize = remote.length)
    : wb.LoadOk := by
  intro load hload' idx
  rw [hload] at hload'
  cases hload'
  refine ⟨_, rfl, ?_, ?_⟩
  . have hpsz : (wb.psz : Int) = partSize := by
      unfold psz
      omega
    have hstart : (idx + 1 - 1) * partSize = idx * partSize := by rw [Int.add_sub_cancel]
    rw [length_slice, hstart]
    generalize idx * partSize = start
    omega
  . intro hbeyond
    rw [hpart, hsize] at hbeyond
    apply List.length_eq_zero_iff.mp
    rw [length_slice, Int.add_sub_cancel]
    generalize idx * partSize = start at *
    omega

theorem holds_preload (remote) {maxSize : Int} (hM : 0 < maxSize) (hP : 0 < partSize)
    (hPle : partSize ≤ maxInt64)
    (hfit : (remote.length : Int) + partSize ≤ maxInt64 + 1) (smallFileMax : Int)
    : LazyHolds remote (preload remote maxSize partSize smallFileMax) remote := by
  have hfresh := (holds_fresh hM hP hPle smallFileMax).wf
  have heq : preload remote maxSize partSize smallFileMax
      = { fresh maxSize partSize smallFileMax with
          totalSize := remote.length
          remoteSize := remote.length
          loadPart := some (loadRange remote partSize) } := rfl
  rw [heq]
  rw [fresh_eq hM hP] at hfresh ⊢
  generalize hwb :
    ({ new 0 0 with
        totalSize := remote.length
        maxSize := maxSize
        partSize := partSize
        smallFileMax := if smallFileMax ≤ 0 then defaultSmallFileThreshold else smallFileMax
        remoteSize := remote.length
        loadPart := some (loadRange remote partSize) } : WriteBuffer) = wb
  have hsetup : LazySetup remote wb := by
    rw [← hwb]
    constructor
    . exact
        { hfresh with
          size_nonneg := by dsimp only; omega
          size_fits := hfit
          remote_fits := hfit
          load_ok := loadOk_loadRange hP rfl rfl rfl
          small_len := by intro data h; contradiction
          small_max := by intro h; contradiction
          small_load := by intro h; contradiction }
    . rfl
    . rfl
    . rfl
    . simp [new]
  constructor
  . exact hsetup
  . rw [← hwb]
  . intro i hi
    rw [byteAt_of_none hsetup.not_small, ← hsetup.getD_absent i]
    rw [← hwb]
    rfl

-- What each step keeps is kept by the runs from the buffer that `preloadWritableHandle` sets up.
theorem runs_hold {maxSize smallFileMax : Int} (spec : Int → Bytes → ι → Bytes × Option BufError)
    (hM : 0 < maxSize) (hP : 0 < partSize) (hPle : partSize ≤ maxInt64)
    (hfit : (remote.length : Int) + partSize ≤ maxInt64 + 1)
    (hstep : ∀ wb file op, LazyHolds remote wb file → ok wb op →
      ∃ wb', step wb op = some (wb', (spec wb.maxSize file op).2)
        ∧ LazyHolds remote wb' (spec wb.maxSize file op).1
        ∧ wb'.maxSize = wb.maxSize)
    (hok : Machine.Steps step ok (preload remote maxSize partSize smallFileMax) ops)
    : ∃ wb, Machine.run step (preload remote maxSize partSize smallFileMax) ops
          = some (wb, (Machine.specRun (spec maxSize) remote ops).2)
        ∧ LazyHolds remote wb (Machine.specRun (spec maxSize) remote ops).1 := by
  have hmax : (preload remote maxSize partSize smallFileMax).maxSize = maxSize := by
    have hfresh := fresh_eq hM hP smallFileMax
    change (fresh maxSize partSize smallFileMax).maxSize = maxSize
    rw [hfresh]
  obtain ⟨wb, hrun, hholds, _⟩ := Machine.run_refines (spec maxSize) ok
    (fun wb file => LazyHolds remote wb file ∧ wb.maxSize = maxSize)
    (by
      rintro wb file op ⟨hholds, hmax⟩ hok
      obtain ⟨wb', happly, hholds', hmax'⟩ := hstep wb file op hholds hok
      rw [hmax] at happly hholds'
      exact ⟨wb', happly, hholds', by rw [hmax', hmax]⟩)
    ⟨holds_preload remote hM hP hPle hfit smallFileMax, hmax⟩ hok
  exact ⟨wb, hrun, hholds⟩

-- In every run whose sums stay inside `int64` and that never extends the file over bytes that were
-- cut off, reading through the buffer shows the file.
theorem lazy_runs_refine_file (remote : Bytes) (maxSize partSize smallFileMax : Int)
    (hM : 0 < maxSize) (hP : 0 < partSize) (hPle : partSize ≤ maxInt64)
    (hfit : (remote.length : Int) + partSize ≤ maxInt64 + 1) (ops : List LazyOp)
    (hok : Machine.Steps LazyOp.apply (LazyOk remote) (preload remote maxSize partSize smallFileMax) ops)
    : ∃ wb, Machine.run LazyOp.apply (preload remote maxSize partSize smallFileMax) ops
          = some (wb, (Machine.specRun (LazyOp.applyRef maxSize) remote ops).2)
        ∧ ∀ off len : Nat, (off : Int) + len ≤ maxInt64 →
            ∃ wb', wb.readDirty off len
              =
            some (wb', .ok (Flat.slice (Machine.specRun (LazyOp.applyRef maxSize) remote ops).1 off
              (min (off + len) (Machine.specRun (LazyOp.applyRef maxSize) remote ops).1.length))) := by
  obtain ⟨wb, hrun, hholds⟩ := runs_hold LazyOp.applyRef hM hP hPle hfit
    (by
      intro wb file op hholds hok
      obtain ⟨wb', happly, hholds', hcfg⟩ := hholds.apply op hok
      exact ⟨wb', happly, hholds', hcfg.maxSize⟩)
    hok
  exact ⟨wb, hrun, fun off len hlen => hholds.readDirty off len hlen⟩

theorem lazy_runs_refine_file_part
    : ∃ wb, Machine.run LazyOp.apply (preload [1, 2, 3, 4, 5] 100 4 8) [.file (.write 6 [9]), .ensureLoaded 0]
          = some (wb, [none, none])
        ∧ ∀ off len : Nat, (off : Int) + len ≤ maxInt64 →
            ∃ wb', wb.readDirty off len
              = some (wb', .ok (Flat.slice [1, 2, 3, 4, 5, 0, 9] off (min (off + len) 7))) :=
  lazy_runs_refine_file [1, 2, 3, 4, 5] 100 4 8 (by decide) (by decide) (by decide) (by decide)
    [.file (.write 6 [9]), .ensureLoaded 0] (by decide)

-- Two remote bytes, cut off and extended over: they are back.
theorem truncated_bytes_read_back
    : ((Machine.run LazyOp.apply (preload [1, 2] 100 4 8) [.file (.truncate 0), .file (.truncate 2)]).bind
          (fun s => (s.1.readDirty 0 2).map (fun r => r.2.toOption)))
        = some (some [1, 2])
      ∧ (Machine.specRun (LazyOp.applyRef 100) [1, 2] [.file (.truncate 0), .file (.truncate 2)]).1
        = [0, 0] := by
  decide

end WriteBuffer
