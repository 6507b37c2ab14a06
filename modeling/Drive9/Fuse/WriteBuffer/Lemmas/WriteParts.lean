import Drive9.Fuse.WriteBuffer.Impl.Write
import Drive9.Fuse.WriteBuffer.Lemmas.Basic

/-!
This module contains what a `Write` does to a buffer in part mode: the loop over parts and the
bookkeeping after it.
-/

open List Blocks

namespace WriteBuffer

variable {wb wb' : WriteBuffer}

namespace write

structure PartWritten (wb : WriteBuffer) (pos : Nat) (data : Bytes) (idx : Nat)
    (part : Bytes) : Prop where
  len : part.length = max (wb.partOr idx).length (min wb.psz (pos + data.length - idx * wb.psz))
  getD : ∀ o, o < wb.psz →
    part.getD o 0
      =
    if pos ≤ idx * wb.psz + o ∧ idx * wb.psz + o < pos + data.length then
      data.getD (idx * wb.psz + o - pos) 0
    else
      (wb.partOr idx).getD o 0

def canWrite (wb : WriteBuffer) (pos : Nat) (data : Bytes) : Nat :=
  min (wb.psz - pos % wb.psz) data.length

def roundPart (wb : WriteBuffer) (pos : Nat) (data : Bytes) : Bytes :=
  Flat.write 0 (wb.partOr (pos / wb.psz)) (pos % wb.psz) (data.take (canWrite wb pos data))

def round (wb : WriteBuffer) (pos : Nat) (data : Bytes) : WriteBuffer :=
  { wb with
    parts := (wb.ensuredParts (pos / wb.psz)).set ((pos / wb.psz : Nat) : Int) (roundPart wb pos data)
    dirtyParts := insert ((pos / wb.psz : Nat) : Int) wb.dirtyParts }

theorem canWrite_le (wb) (pos) (data : Bytes) : canWrite wb pos data ≤ data.length := by
  unfold canWrite
  omega

variable {data part : Bytes}

theorem canWrite_pos (hwf : Wf wb) (pos) (hdata : data ≠ []) : 0 < canWrite wb pos data := by
  have hlen := length_pos_iff.mpr hdata
  have hmod := Nat.mod_lt pos hwf.psz_pos
  unfold canWrite
  omega

theorem roundPart_written (hwf : Wf wb) (pos) (data)
    : PartWritten wb pos data (pos / wb.psz) (roundPart wb pos data) := by
  have hpos := pos_eq (p := wb.psz) pos
  have hmod := Nat.mod_lt pos hwf.psz_pos
  have htake : (data.take (canWrite wb pos data)).length = canWrite wb pos data := by
    rw [length_take]
    have := canWrite_le wb pos data
    omega
  unfold roundPart
  constructor
  . rw [Flat.length_write, htake]
    unfold canWrite
    omega
  . intro o ho
    rw [Flat.getD_write, htake]
    have hiff : (pos % wb.psz ≤ o ∧ o < pos % wb.psz + canWrite wb pos data)
        ↔ (pos ≤ pos / wb.psz * wb.psz + o ∧ pos / wb.psz * wb.psz + o < pos + data.length) := by
      unfold canWrite
      omega
    simp only [hiff]
    split
    . next hin =>
      simp only [getD_eq_getElem?_getD, getElem?_take]
      rw [← hiff] at hin
      rw [if_pos (by omega)]
      congr 2
      omega
    . rfl

theorem get?_round (pos) (data) (idx)
    : (round wb pos data).parts.get? idx
        =
      if idx = ((pos / wb.psz : Nat) : Int) then some (roundPart wb pos data) else wb.parts.get? idx := by
  unfold round
  rw [FMap.get?_set]
  split
  . rfl
  . next h =>
    rw [get?_ensuredParts, if_neg h]

theorem partOr_round (pos) (data) (h : idx ≠ pos / wb.psz)
    : (round wb pos data).partOr idx = wb.partOr idx := by
  unfold partOr
  rw [get?_round, if_neg (by omega)]
  rfl

theorem wf_round (hwf : Wf wb) (hs : wb.smallFileData = none) (pos) (data)
    : Wf (round wb pos data) := by
  apply Wf.withParts hwf hs
  intro idx part hpart
  change (round wb pos data).parts.get? idx = some part at hpart
  rw [get?_round] at hpart
  split at hpart
  . have hround := (roundPart_written hwf pos data).len
    have hor := hwf.partOr_len (pos / wb.psz)
    cases hpart
    omega
  . exact hwf.part_len idx part hpart

theorem go_succ (fuel : Nat) (hwf : Wf wb) (hs : wb.smallFileData = none) (pos : Nat) (data)
    (hdata : data ≠ []) (hfit : (pos : Int) + data.length ≤ maxInt64)
    : go (fuel + 1) wb pos data
        =
      go fuel (round wb pos data) ((pos + canWrite wb pos data : Nat) : Int)
        (data.drop (canWrite wb pos data)) := by
  have hmod := Nat.mod_lt pos hwf.psz_pos
  have hdiv : (pos : Int).tdiv wb.partSize = ((pos / wb.psz : Nat) : Int) := by
    rw [hwf.partSize_eq]
    exact Int.ofNat_tdiv pos wb.psz
  have hmodI : (pos : Int).tmod wb.partSize = ((pos % wb.psz : Nat) : Int) := by
    rw [hwf.partSize_eq]
    exact Int.ofNat_tmod pos wb.psz
  have hcan : min (wb.partSize - ((pos % wb.psz : Nat) : Int)) data.length
      = (canWrite wb pos data : Int) := by
    rw [hwf.partSize_eq]
    unfold canWrite
    omega
  have hpart : ((wb.ensuredParts (pos / wb.psz)).get? ((pos / wb.psz : Nat) : Int)).getD []
      = wb.partOr (pos / wb.psz) := by
    rw [get?_ensuredParts, if_pos rfl]
    rfl
  have hnext : i64 ((pos : Int) + canWrite wb pos data)
      = ((pos + canWrite wb pos data : Nat) : Int) := by
    apply i64_eq <;> omega
  have htake : (canWrite wb pos data : Int) = (data.take (canWrite wb pos data)).length := by
    rw [length_take]
    omega
  have hneeded : min (((pos % wb.psz : Nat) : Int) + canWrite wb pos data) wb.partSize
      = ((pos % wb.psz + (data.take (canWrite wb pos data)).length : Nat) : Int) := by
    rw [hwf.partSize_eq, Nat.cast_add, ← htake]
    unfold canWrite
    omega
  obtain ⟨b, bs, rfl⟩ := exists_cons_of_ne_nil hdata
  rw [go, hdiv, hmodI, ensurePart_eq hwf hs]
  dsimp only
  rw [if_neg (by omega), hcan, hpart, hnext, hneeded]
  simp only [Int.toNat_natCast, gt_iff_lt, Nat.cast_lt]
  rw [Flat.copyAt_grow]
  rfl

variable {pos : Nat}

theorem PartWritten.of_round (hidx : pos + canWrite wb pos data ≤ idx * wb.psz)
    (hne : idx ≠ pos / wb.psz) (h : PartWritten (round wb pos data) (pos + canWrite wb pos data)
      (data.drop (canWrite wb pos data)) idx part)
    : PartWritten wb pos data idx part := by
  have hpsz : (round wb pos data).psz = wb.psz := rfl
  constructor
  . rw [h.len, partOr_round pos data hne, hpsz, length_drop]
    congr 2
    omega
  . intro o ho
    rw [h.getD o ho, partOr_round pos data hne, hpsz, length_drop]
    have hiff : (pos + canWrite wb pos data ≤ idx * wb.psz + o
          ∧ idx * wb.psz + o < pos + canWrite wb pos data + (data.length - canWrite wb pos data))
        ↔ (pos ≤ idx * wb.psz + o ∧ idx * wb.psz + o < pos + data.length) := by
      omega
    simp only [hiff]
    split
    . simp only [getD_eq_getElem?_getD, getElem?_drop]
      congr 2
      omega
    . rfl

structure PartsWritten (wb : WriteBuffer) (pos : Nat) (data : Bytes)
    (wb' : WriteBuffer) : Prop where
  frame : wb' = { wb with parts := wb'.parts, dirtyParts := wb'.dirtyParts }
  hit : ∀ idx : Nat, Blocks.Hit wb.psz pos (pos + data.length) idx →
    ∃ part, wb'.parts.get? idx = some part ∧ PartWritten wb pos data idx part
  miss : ∀ idx : Int, (∀ n : Nat, idx = n → ¬ Blocks.Hit wb.psz pos (pos + data.length) n) →
    wb'.parts.get? idx = wb.parts.get? idx
  dirty : ∀ idx : Int, idx ∈ wb'.dirtyParts
    ↔ idx ∈ wb.dirtyParts ∨ ∃ n : Nat, idx = n ∧ Blocks.Hit wb.psz pos (pos + data.length) n

theorem PartsWritten.nil (pos) : PartsWritten wb pos [] wb := by
  constructor
  . rfl
  . intro idx h
    simp [Blocks.Hit] at h
  . intros
    rfl
  . simp [Blocks.Hit]

theorem hit_iff_round (hwf : Wf wb) (pos idx) (hdata : data ≠ [])
    : Blocks.Hit wb.psz pos (pos + data.length) idx
        ↔
      idx = pos / wb.psz
        ∨ (pos + canWrite wb pos data ≤ idx * wb.psz ∧ idx ≠ pos / wb.psz
            ∧ Blocks.Hit wb.psz (pos + canWrite wb pos data) (pos + data.length) idx) := by
  have hpos := pos_eq (p := wb.psz) pos
  have hmod := Nat.mod_lt pos hwf.psz_pos
  have hlen : 0 < data.length := length_pos_iff.mpr hdata
  unfold Blocks.Hit canWrite
  rcases Nat.lt_trichotomy idx (pos / wb.psz) with hlt | heq | hgt
  . have := mul_lt_of_lt (p := wb.psz) hlt
    omega
  . subst heq
    rw [Nat.add_mul]
    omega
  . have := mul_lt_of_lt (p := wb.psz) hgt
    rw [Nat.add_mul] at *
    omega

theorem PartsWritten.of_round (hwf : Wf wb) (hdata : data ≠ [])
    (h : PartsWritten (round wb pos data) (pos + canWrite wb pos data)
      (data.drop (canWrite wb pos data)) wb')
    : PartsWritten wb pos data wb' := by
  have hend : pos + canWrite wb pos data + (data.drop (canWrite wb pos data)).length
      = pos + data.length := by
    have := canWrite_le wb pos data
    rw [length_drop]
    omega
  have hpsz : (round wb pos data).psz = wb.psz := rfl
  -- Later rounds leave the part of this round alone.
  have hself : ¬ Blocks.Hit wb.psz (pos + canWrite wb pos data) (pos + data.length) (pos / wb.psz) := by
    have hpos := pos_eq (p := wb.psz) pos
    unfold Blocks.Hit canWrite
    rw [Nat.add_mul]
    omega
  constructor
  . rw [h.frame]
    rfl
  . intro idx hidx
    rw [hit_iff_round hwf pos idx hdata] at hidx
    rcases hidx with heq | ⟨hle, hne, hlater⟩
    . subst heq
      refine ⟨roundPart wb pos data, ?_, roundPart_written hwf pos data⟩
      rw [h.miss _ (by intro n hn; rw [hend, hpsz, ← Nat.cast_inj.mp hn]; exact hself), get?_round,
        if_pos rfl]
    . obtain ⟨part, hget, hpart⟩ := h.hit idx (by rw [hend]; exact hlater)
      exact ⟨part, hget, hpart.of_round hle hne⟩
  . intro idx hidx
    rw [h.miss]
    . rw [get?_round, if_neg]
      intro heq
      exact hidx _ heq ((hit_iff_round hwf pos _ hdata).mpr (.inl rfl))
    . intro n hn hlater
      rw [hend, hpsz] at hlater
      apply hidx n hn
      unfold Blocks.Hit at *
      omega
  . intro idx
    rw [h.dirty, hend, hpsz]
    constructor
    . rintro (hmem | ⟨n, hn, hlater⟩)
      . unfold round at hmem
        rw [Finset.mem_insert] at hmem
        rcases hmem with heq | hmem
        . exact .inr ⟨_, heq, (hit_iff_round hwf pos _ hdata).mpr (.inl rfl)⟩
        . exact .inl hmem
      . refine .inr ⟨n, hn, ?_⟩
        unfold Blocks.Hit at *
        omega
    . rintro (hmem | ⟨n, hn, hhit⟩)
      . exact .inl (Finset.mem_insert_of_mem hmem)
      . rw [hit_iff_round hwf pos n hdata] at hhit
        rcases hhit with heq | ⟨_, _, hlater⟩
        . subst heq
          subst hn
          exact .inl (Finset.mem_insert_self _ _)
        . exact .inr ⟨n, hn, hlater⟩

theorem go_written (fuel : Nat) (hwf : Wf wb) (hs : wb.smallFileData = none) (pos : Nat)
    (data : Bytes) (hfit : (pos : Int) + data.length ≤ maxInt64) (hfuel : data.length ≤ fuel)
    : ∃ wb', go fuel wb pos data = some (wb', [], none) ∧ PartsWritten wb pos data wb' := by
  induction fuel generalizing wb pos data with
  | zero =>
    have hnil : data = [] := length_eq_zero_iff.mp (by omega)
    subst hnil
    exact ⟨wb, by simp [go], .nil pos⟩
  | succ fuel ih =>
    by_cases hdata : data = []
    . subst hdata
      exact ⟨wb, by simp [go], .nil pos⟩
    . have hpos := canWrite_pos hwf pos hdata
      have hle := canWrite_le wb pos data
      have hlen := length_drop (i := canWrite wb pos data) (l := data)
      rw [go_succ fuel hwf hs pos data hdata hfit]
      obtain ⟨wb', hgo, hw⟩ := ih (wf_round hwf hs pos data) hs
        (pos + canWrite wb pos data) (data.drop (canWrite wb pos data)) (by omega) (by omega)
      exact ⟨wb', hgo, hw.of_round hwf hdata⟩

section

variable (h : PartsWritten wb pos data wb')

include h

theorem PartsWritten.sameCfg : SameCfg wb wb' := by
  rw [h.frame]
  constructor <;> rfl

theorem PartsWritten.wf (hwf : Wf wb) (hs : wb.smallFileData = none) : Wf wb' := by
  rw [h.frame]
  apply hwf.withParts hs
  intro idx part hpart
  by_cases hhit : ∃ n : Nat, idx = n ∧ Blocks.Hit wb.psz pos (pos + data.length) n
  . rcases hhit with ⟨n, hn, hhit⟩
    subst hn
    obtain ⟨part', hget, hw⟩ := h.hit n hhit
    have hor := hwf.partOr_len n
    have hlen := hw.len
    rw [hget] at hpart
    cases hpart
    omega
  . rw [h.miss idx (by intro n hn hh; exact hhit ⟨n, hn, hh⟩)] at hpart
    exact hwf.part_len idx part hpart

theorem PartsWritten.byteAt (hwf : Wf wb) (hs : wb.smallFileData = none) (i)
    : wb'.byteAt i
        =
      if pos ≤ i ∧ i < pos + data.length then data.getD (i - pos) 0 else wb.byteAt i := by
  have hcfg := h.sameCfg
  have hs' : wb'.smallFileData = none := by
    rw [h.frame]
    exact hs
  have hi := pos_eq (p := wb.psz) i
  have hmod := Nat.mod_lt i hwf.psz_pos
  rw [byteAt_of_none hs', byteAt_of_none hs, hcfg.psz]
  by_cases hhit : Blocks.Hit wb.psz pos (pos + data.length) (i / wb.psz)
  . obtain ⟨part, hget, hw⟩ := h.hit _ hhit
    have hor : wb'.partOr (i / wb.psz) = part := by
      unfold partOr
      rw [hget]
      rfl
    rw [hor, hw.getD _ hmod, ← hi]
  . have hor : wb'.partOr (i / wb.psz) = wb.partOr (i / wb.psz) := by
      unfold partOr
      rw [h.miss, hcfg.absent]
      intro n hn
      rw [← Nat.cast_inj.mp hn]
      exact hhit
    have hout : ¬ (pos ≤ i ∧ i < pos + data.length) := by
      intro hin
      exact hhit (hit_div hwf.psz_pos hin.1 hin.2)
    rw [hor, if_neg hout]

theorem PartsWritten.memAt (hs : wb.smallFileData = none)
    (hmiss : ¬ Blocks.Hit wb.psz pos (pos + data.length) (i / wb.psz))
    : wb'.memAt i = wb.memAt i := by
  have hs' : wb'.smallFileData = none := by
    rw [h.frame]
    exact hs
  rw [memAt_of_none hs', memAt_of_none hs, h.sameCfg.psz, h.miss]
  intro n hn
  rw [← Nat.cast_inj.mp hn]
  exact hmiss

end

theorem callOnPartFull_eq (h : wb.onPartFull ≠ .evictPart) (idx) : callOnPartFull wb idx = wb := by
  unfold callOnPartFull
  split <;> trivial

theorem notifyFull_fst (h : wb.onPartFull ≠ .evictPart) (n) (p) : (notifyFull n wb p).1 = wb := by
  induction n generalizing p with
  | zero => rfl
  | succ n ih =>
    unfold notifyFull
    split
    . exact ih (p + 1)
    . split
      . split
        . rw [callOnPartFull_eq h]
          exact ih (p + 1)
        . exact ih (p + 1)
      . exact ih (p + 1)

theorem advanceCursor_frame (wb) (offset endOff)
    : ∃ cursor seq,
        advanceCursor wb offset endOff = { wb with appendCursor := cursor, sequential := seq } := by
  unfold advanceCursor
  split
  . exact ⟨endOff, wb.sequential, rfl⟩
  . split
    . exact ⟨endOff, wb.sequential, rfl⟩
    . exact ⟨wb.appendCursor, false, rfl⟩

theorem finish_frame (h : wb.onPartFull ≠ .evictPart) (offset endOff)
    : ∃ cursor seq,
        (finish wb offset endOff).1
          =
        { wb with touched := true, appendCursor := cursor, sequential := seq } := by
  obtain ⟨cursor, seq, hadv⟩ := advanceCursor_frame { wb with touched := true } offset endOff
  refine ⟨cursor, seq, ?_⟩
  unfold finish
  dsimp only
  rw [hadv]
  split
  . rw [notifyFull_fst]
    exact h
  . rfl

def IsFull (wb : WriteBuffer) (e : Int × Bytes) : Prop :=
  e.1 ∉ wb.uploadedParts ∧ wb.parts.get? e.1 = some e.2 ∧ (e.2.length : Int) = wb.partSize

theorem mem_notifyFull_succ (h : wb.onPartFull ≠ .evictPart) (n) (p)
    : e ∈ (notifyFull (n + 1) wb p).2
      ↔ e.1 = p ∧ IsFull wb e ∨ e ∈ (notifyFull n wb (p + 1)).2 := by
  rw [notifyFull, IsFull]
  split
  . grind
  . split
    . split
      . rw [callOnPartFull_eq h]
        rw [mem_cons]
        grind
      . grind
    . grind

theorem mem_notifyFull (h : wb.onPartFull ≠ .evictPart) (n) (p)
    : e ∈ (notifyFull n wb p).2 ↔ p ≤ e.1 ∧ e.1 < p + n ∧ IsFull wb e := by
  induction n generalizing p with
  | zero =>
    rw [notifyFull]
    constructor
    . intro he
      contradiction
    . omega
  | succ n ih =>
    rw [mem_notifyFull_succ h, ih]
    by_cases he : IsFull wb e
    . simp only [he, and_true]
      omega
    . simp only [he, and_false, or_self]

theorem mem_finish_of_length (h : wb.onPartFull = .submitPart) (hP : 0 < wb.partSize)
    (hseq : wb.sequential = true)
    (hcursor : wb.appendCursor ≤ offset) (hoff : 0 ≤ offset) (hlt : offset < endOff)
    (hup : idx ∉ wb.uploadedParts)
    (hpart : wb.parts.get? idx = some part) (hlen : (part.length : Int) = wb.partSize)
    (hstart : offset < (idx + 1) * wb.partSize) (hend : (idx + 1) * wb.partSize ≤ endOff)
    : (idx, part) ∈ (finish wb offset endOff).2 := by
  have hadv : advanceCursor { wb with touched := true } offset endOff
      = { wb with touched := true, appendCursor := endOff } := by
    unfold advanceCursor
    split
    . rfl
    . split
      . rfl
      . next h1 h2 =>
        dsimp only at h1 h2
        omega
  have hlo : (max wb.appendCursor 0).tdiv wb.partSize ≤ idx := by
    rw [Int.tdiv_eq_ediv_of_nonneg (by omega)]
    apply Int.lt_add_one_iff.mp
    rw [Int.ediv_lt_iff_lt_mul hP]
    omega
  have hhi : idx + 1 ≤ endOff.tdiv wb.partSize := by
    rw [Int.tdiv_eq_ediv_of_nonneg (by omega), Int.le_ediv_iff_mul_le hP]
    exact hend
  unfold finish
  dsimp only
  rw [hadv, if_pos ⟨hseq, by rw [h]; decide, by dsimp only; omega⟩]
  rw [mem_notifyFull (by rw [h]; decide)]
  exact ⟨hlo, by dsimp only; omega, hup, hpart, hlen⟩

theorem mem_finish (h : wb.onPartFull ≠ .evictPart) (hP : 0 < wb.partSize) (hnonneg : 0 ≤ endOff)
    (he : e ∈ (finish wb offset endOff).2)
    : 0 ≤ e.1
        ∧ (e.1 + 1) * wb.partSize ≤ endOff
        ∧ wb.parts.get? e.1 = some e.2
        ∧ (e.2.length : Int) = wb.partSize := by
  obtain ⟨cursor, seq, hadv⟩ := advanceCursor_frame { wb with touched := true } offset endOff
  have hcursor : cursor > wb.appendCursor → cursor = endOff := by
    intro hgt
    unfold advanceCursor at hadv
    split at hadv
    . exact (congrArg appendCursor hadv).symm
    . split at hadv
      . exact (congrArg appendCursor hadv).symm
      . have : wb.appendCursor = cursor := congrArg appendCursor hadv
        omega
  unfold finish at he
  dsimp only at he
  rw [hadv] at he
  split at he
  . next hfull =>
    obtain ⟨h1, h2, _, h3⟩ := (mem_notifyFull (by exact h) _ _).mp he
    have hend := hcursor hfull.2.2
    subst hend
    dsimp only at h1 h2 h3
    refine ⟨?_, ?_, h3⟩
    . have := Int.tdiv_nonneg (by omega : 0 ≤ max wb.appendCursor 0) (by omega : 0 ≤ wb.partSize)
      omega
    . have hlt : e.1 + 1 ≤ cursor.tdiv wb.partSize := by omega
      calc (e.1 + 1) * wb.partSize
          ≤ cursor.tdiv wb.partSize * wb.partSize := by
            apply Int.mul_le_mul_of_nonneg_right hlt
            omega
        _ ≤ cursor := by
            rw [Int.tdiv_eq_ediv_of_nonneg hnonneg]
            exact Int.ediv_mul_le cursor (by omega)
  . contradiction

end write

structure FullPart (wb : WriteBuffer) (e : Int × Bytes) : Prop where
  not_small : wb.smallFileData = none
  nonneg : 0 ≤ e.1
  fits : (e.1 + 1) * wb.partSize ≤ wb.totalSize
  part : wb.parts.get? e.1 = some e.2
  len : (e.2.length : Int) = wb.partSize

-- A sequential write fills part `idx` up to its end, and the file is not left in one small slice.
def FillsPart (wb : WriteBuffer) (off : Nat) (data : Bytes) (idx : Nat) : Prop :=
  wb.sequential = true
    ∧ wb.appendCursor ≤ off
    ∧ Blocks.Hit wb.psz off (off + data.length) idx
    ∧ (idx + 1) * wb.psz ≤ off + data.length
    ∧ (write.useSmallFile wb (off + data.length) = true → wb.smallFileMax < off + data.length)

instance (wb : WriteBuffer) (off : Nat) (data : Bytes) (idx : Nat)
    : Decidable (FillsPart wb off data idx) :=
  inferInstanceAs (Decidable (_ ∧ _))

structure Notified (wb : WriteBuffer) (off : Nat) (data : Bytes) (r : WriteResult) : Prop where
  full : ∀ e, e ∈ r.full → FullPart r.buf e
  filled : wb.onPartFull = .submitPart → wb.uploadedParts = ∅ → ∀ idx, FillsPart wb off data idx →
    ∃ e, e ∈ r.full ∧ e.1 = idx

structure Written (wb : WriteBuffer) (off : Nat) (data : Bytes) (wb' : WriteBuffer) : Prop where
  wf : Wf wb'
  cfg : SameCfg wb wb'
  size : wb'.totalSize = max wb.totalSize (off + data.length)
  byteAt : ∀ i, wb'.byteAt i
    =
    if off ≤ i ∧ i < off + data.length then data.getD (i - off) 0 else wb.byteAt i
  mem_miss : ∀ i, ¬ Blocks.Hit wb.psz off (off + data.length) (i / wb.psz)
    → wb'.memAt i = wb.memAt i
  touched : wb'.touched = true
  dirty_mono : wb.dirtyParts ⊆ wb'.dirtyParts
  dirty_hit : ∀ idx : Nat, Blocks.Hit wb.psz off (off + data.length) idx
    → (idx : Int) ∈ wb'.dirtyParts

namespace write

theorem partMode_written (hwf : Wf wb) (hs : wb.smallFileData = none)
    (hpf : wb.onPartFull ≠ .evictPart)
    (off : Nat) (data : Bytes) (hfit : (off : Int) + data.length + wb.partSize ≤ maxInt64 + 1)
    : ∃ r, partMode wb off data = some r ∧ r.err = none ∧ Written wb off data r.buf
        ∧ Notified wb off data r := by
  have hP := hwf.partSize_pos
  have hend : i64 ((off : Int) + data.length) = off + data.length := by
    apply i64_eq <;> omega
  generalize hgrown :
    (if (off : Int) + data.length > wb.totalSize then { wb with totalSize := off + data.length } else wb)
      = grown
  have hframe : grown = { wb with totalSize := max wb.totalSize (off + data.length) } := by
    rw [← hgrown]
    split
    . rw [max_eq_right (by omega)]
    . rw [max_eq_left (by omega)]
  have hgwf : Wf grown := by
    rw [hframe]
    have := hwf.size_fits
    exact hwf.withSize hs (by omega) (by omega)
  have hgs : grown.smallFileData = none := by
    rw [hframe]
    exact hs
  obtain ⟨wb', hgo, hw⟩ := go_written data.length hgwf hgs off data (by omega) (le_refl _)
  have hpf' : wb'.onPartFull ≠ .evictPart := by
    rw [hw.frame, hframe]
    exact hpf
  obtain ⟨cursor, seq, hfin⟩ := finish_frame hpf' off (off + data.length)
  unfold partMode
  rw [hend]
  dsimp only
  rw [hgrown, hgo]
  have hP' : wb'.partSize = wb.partSize := by
    rw [hw.frame, hframe]
  have hsize' : wb'.totalSize = max wb.totalSize (off + data.length) := by
    rw [hw.frame, hframe]
  have hnotified : Notified wb off data
      ⟨(finish wb' off (off + data.length)).1, data.length % 2 ^ 32, none,
        (finish wb' off (off + data.length)).2⟩ := by
    constructor
    . intro e he
      obtain ⟨h1, h2, h3, h4⟩ := mem_finish hpf' (by rw [hP']; exact hP) (by omega) he
      rw [hfin]
      constructor
      . rw [hw.frame]
        exact hgs
      . exact h1
      . change (e.1 + 1) * wb'.partSize ≤ wb'.totalSize
        rw [hsize']
        omega
      . exact h3
      . exact h4
    . intro hsubmit hup idx hfills
      obtain ⟨hseq, hcursor, hhit, hle, _⟩ := hfills
      have hpsz : grown.psz = wb.psz := by
        rw [hframe]
        rfl
      obtain ⟨part, hpart, hwritten⟩ := hw.hit idx (by rw [hpsz]; exact hhit)
      have hlen := hwritten.len
      have hor := hgwf.partOr_len idx
      rw [hpsz] at hlen hor
      have hstart := hhit.2.2
      rw [Nat.add_mul] at hle hstart
      have hPeq := hwf.partSize_eq
      have hnext : ((idx : Int) + 1) * wb'.partSize
          = ((idx * wb.psz + 1 * wb.psz : Nat) : Int) := by
        rw [hP', hPeq, ← Nat.add_mul]
        push_cast
        rfl
      refine ⟨(idx, part), ?_, rfl⟩
      apply mem_finish_of_length
      . rw [hw.frame, hframe]
        exact hsubmit
      . rw [hP']
        exact hP
      . rw [hw.frame, hframe]
        exact hseq
      . rw [hw.frame, hframe]
        exact hcursor
      . omega
      . have := hhit.1
        omega
      . rw [hw.frame, hframe]
        rw [hup]
        exact Finset.notMem_empty _
      . exact hpart
      . rw [hP']
        omega
      . rw [hnext]
        omega
      . rw [hnext]
        omega
  refine ⟨_, rfl, rfl, ?_, hnotified⟩
  rw [hfin]
  have hbyte := hw.byteAt hgwf hgs
  have hcfg := hw.sameCfg
  rw [hframe] at hbyte hcfg
  constructor
  . exact { hw.wf hgwf hgs with }
  . exact { hcfg with }
  . rw [hw.frame, hframe]
  . exact hbyte
  . intro i hmiss
    have hmem := hw.memAt hgs (i := i) (by rw [hframe]; exact hmiss)
    rw [hframe] at hmem
    exact hmem
  . rfl
  . intro idx hidx
    rw [hw.dirty]
    left
    rw [hframe]
    exact hidx
  . intro idx hidx
    rw [hw.dirty]
    right
    rw [hframe]
    exact ⟨idx, rfl, hidx⟩

end write
end WriteBuffer
