import Drive9.Fuse.WriteBuffer.Impl.Truncate
import Drive9.Fuse.WriteBuffer.Lemmas.Small

/-!
This module contains what a `Truncate` does to the meaning of a buffer, in either representation.
-/

open List Option Blocks

namespace WriteBuffer

variable {wb wb' : WriteBuffer}

theorem numParts_eq (hwf : Wf wb) {n : Nat} (h : (n : Int) + wb.partSize ≤ maxInt64 + 1)
    : wb.numParts n = (Blocks.count wb.psz n : Int) := by
  have hP := hwf.partSize_pos
  unfold numParts Blocks.count
  rw [i64_eq (by omega) (by omega), hwf.partSize_eq]
  have hcast : (n : Int) + wb.psz - 1 = ((n + wb.psz - 1 : Nat) : Int) := by
    have := hwf.psz_pos
    omega
  rw [hcast, Int.ofNat_tdiv]

theorem markDirty_frame (start endOff)
    : wb.markDirty start endOff
        =
      { wb with dirtyParts := (wb.markDirty start endOff).dirtyParts } := by
  unfold markDirty
  split <;> rfl

theorem markDirty_mono (start endOff) : wb.dirtyParts ⊆ (wb.markDirty start endOff).dirtyParts := by
  unfold markDirty
  split
  . rfl
  . exact Finset.subset_union_left

theorem markDirty_hit (hwf : Wf wb) (h : Blocks.Hit wb.psz lo hi idx)
    : (idx : Int) ∈ (wb.markDirty lo hi).dirtyParts := by
  have hp := hwf.psz_pos
  have hlo := (div_eq_iff hp (i := lo)).mp rfl
  have hhi := (div_eq_iff hp (i := hi - 1)).mp rfl
  rcases h with ⟨hlt, hstart, hend⟩
  have hlast : ((hi : Int) - 1).tdiv wb.partSize = (((hi - 1) / wb.psz : Nat) : Int) := by
    rw [hwf.partSize_eq, Int.ofNat_tdiv]
    congr 1
    omega
  have hfirst : (lo : Int).tdiv wb.partSize = ((lo / wb.psz : Nat) : Int) := by
    rw [hwf.partSize_eq, Int.ofNat_tdiv]
  unfold markDirty
  rw [if_neg (by omega), Finset.mem_union]
  right
  have hge : lo / wb.psz ≤ idx := by
    rw [← Nat.lt_add_one_iff, ← Nat.mul_lt_mul_right hp]
    omega
  have hle : idx ≤ (hi - 1) / wb.psz := by
    rw [← Nat.lt_add_one_iff, ← Nat.mul_lt_mul_right hp]
    omega
  rw [Finset.mem_image, hfirst, hlast]
  generalize lo / wb.psz = first at *
  generalize (hi - 1) / wb.psz = last at *
  refine ⟨idx - first, ?_, by omega⟩
  rw [Finset.mem_range]
  omega

namespace truncate

theorem get?_cutPart (parts : FMap Int Bytes) (k k' : Int) (n : Nat)
    : (cutPart parts k n).get? k'
        =
      if k' = k then (parts.get? k').map (List.take n) else parts.get? k' := by
  unfold cutPart
  rw [Int.toNat_natCast]
  cases hp : parts.get? k with
  | none =>
    dsimp only
    split
    . next h =>
      rw [h, hp]
      rfl
    . rfl
  | some part =>
    dsimp only
    split
    . rw [FMap.get?_set]
      split
      . next h =>
        rw [h, hp]
        rfl
      . rfl
    . next hlen =>
      split
      . next h =>
        rw [h, hp, map_some, take_of_length_le (by omega)]
      . rfl

theorem shrinkParts_eq (hwf : Wf wb) {n : Nat} (hfit : (n : Int) + wb.partSize ≤ maxInt64 + 1)
    (cur : Int)
    : ∃ parts dirtyParts,
        shrinkParts wb n cur
          =
        { wb with parts := parts, dirtyParts := dirtyParts, totalSize := n }
        ∧ (∀ k, parts.get? k
              =
            if (Blocks.count wb.psz n : Int) ≤ k then
              none
            else if 0 < n ∧ k = Blocks.count wb.psz n - 1 then
              (wb.parts.get? k).map (List.take (n - (Blocks.count wb.psz n - 1) * wb.psz))
            else
              wb.parts.get? k)
        ∧ ∀ idx : Nat, idx * wb.psz < n → (idx : Int) ∈ wb.dirtyParts
          → (idx : Int) ∈ dirtyParts := by
  unfold shrinkParts
  dsimp only
  generalize hmark : (if (n : Int) > 0 then wb.markDirty n cur else wb.markDirty 0 cur) = marked
  obtain ⟨dirty, hmarked, hmono⟩ : ∃ d, marked = { wb with dirtyParts := d } ∧ wb.dirtyParts ⊆ d := by
    rw [← hmark]
    split
    . exact ⟨_, markDirty_frame n cur, markDirty_mono n cur⟩
    . exact ⟨_, markDirty_frame 0 cur, markDirty_mono 0 cur⟩
  have hcount : marked.numParts n = Blocks.count wb.psz n := by
    rw [hmarked]
    exact numParts_eq hwf hfit
  rw [hcount, hmarked]
  refine ⟨_, _, rfl, ?_, ?_⟩
  . intro k
    have hdel :=
      FMap.get?_delIf wb.parts (fun idx => decide ((Blocks.count wb.psz n : Int) ≤ idx)) k
    simp only [decide_eq_true_eq] at hdel
    cases Nat.eq_zero_or_pos n with
    | inl hn =>
      have hcut : ¬ (0 < n ∧ k = (Blocks.count wb.psz n : Int) - 1) := by omega
      rw [if_neg (by omega), hdel, if_neg hcut]
    | inr hn =>
      have hpos : 0 < Blocks.count wb.psz n := by
        rw [lt_count_iff hwf.psz_pos]
        omega
      have hoff : (n : Int) - ((Blocks.count wb.psz n : Int) - 1) * wb.partSize
          = ((n - (Blocks.count wb.psz n - 1) * wb.psz : Nat) : Int) := by
        have := (lt_count_iff hwf.psz_pos n (Blocks.count wb.psz n - 1)).mp (by omega)
        rw [Nat.cast_sub (by omega), Nat.cast_mul, Nat.cast_sub hpos, hwf.partSize_eq]
        rfl
      rw [if_pos (by omega), hoff, get?_cutPart, hdel]
      split
      . next hk =>
        have hkept : ¬ (Blocks.count wb.psz n : Int) ≤ k := by omega
        rw [if_neg hkept, if_neg hkept, if_pos ⟨hn, hk⟩]
      . next hk =>
        have hcut : ¬ (0 < n ∧ k = (Blocks.count wb.psz n : Int) - 1) := by omega
        rw [if_neg hcut]
  . intro idx hidx hd
    have hcle := (lt_count_iff hwf.psz_pos n idx).mpr hidx
    have hkept : (idx : Int) ∈ dirty.filter
        (fun idx => ¬ ((Blocks.count wb.psz n : Int) ≤ idx ∧ (wb.parts.get? idx).isSome)) := by
      rw [Finset.mem_filter]
      refine ⟨hmono hd, ?_⟩
      simp [hcle]
    split
    . exact Finset.mem_insert_of_mem hkept
    . exact hkept

end truncate

structure Truncated (wb : WriteBuffer) (n : Nat) (wb' : WriteBuffer) : Prop where
  wf : Wf wb'
  cfg : SameCfg wb wb'
  size : wb'.totalSize = n
  keep : ∀ i, i < n → wb'.byteAt i = wb.byteAt i
  tail : ∀ i, n ≤ i →
    wb'.byteAt i = 0
      ∨ wb'.byteAt i = (wb.absent (i / wb.psz)).getD (i % wb.psz) 0
      ∨ wb.totalSize ≤ n ∧ wb'.byteAt i = wb.byteAt i
  mem_keep : ∀ i, i < n → wb'.memAt i = wb.memAt i
  touched : wb'.touched = true
  dirty_keep : ∀ idx : Nat, idx * wb.psz < n → (idx : Int) ∈ wb.dirtyParts
    → (idx : Int) ∈ wb'.dirtyParts
  dirty_gap : ∀ idx : Nat, Blocks.Hit wb.psz wb.totalSize.toNat n idx → (idx : Int) ∈ wb'.dirtyParts

theorem Truncated.of_touched (h : Truncated { wb with touched := true } n wb')
    : Truncated wb n wb' :=
  { h with cfg := { h.cfg with } }

namespace truncate

section

variable (hwf : Wf wb) (hs : wb.smallFileData = none) (ht : wb.touched = true)

include hwf hs ht

theorem shrinkParts_truncated {n : Nat}
    (hn : n < wb.totalSize)
    : Truncated wb n (shrinkParts wb n wb.totalSize) := by
  have hp := hwf.psz_pos
  have hfits := hwf.size_fits
  obtain ⟨parts, dirtyParts, heq, hget, hdirty⟩ :=
    shrinkParts_eq hwf (n := n) (by omega) wb.totalSize
  rw [heq]
  -- A part with a byte below `n` survives, and only the last of them is cut.
  have hkeep : ∀ i, i < n → ∀ d : Bytes,
      ((parts.get? ((i / wb.psz : Nat) : Int)).getD d).getD (i % wb.psz) 0
        =
      ((wb.parts.get? ((i / wb.psz : Nat) : Int)).getD d).getD (i % wb.psz) 0 := by
    intro i hi d
    have hpos := pos_eq (p := wb.psz) i
    have hlt := (lt_count_iff hp n (i / wb.psz)).mpr (by omega)
    rw [hget, if_neg (by omega)]
    split
    . next hlast =>
      have hidx : Blocks.count wb.psz n - 1 = i / wb.psz := by
        generalize i / wb.psz = q at *
        omega
      cases wb.parts.get? ((i / wb.psz : Nat) : Int) with
      | none => rfl
      | some part =>
        simp only [map_some, getD_some, getD_eq_getElem?_getD, getElem?_take]
        rw [hidx, if_pos (by omega)]
    . rfl
  constructor
  . apply (hwf.withSize (n := (n : Int)) hs (by omega) (by omega)).withParts hs
    intro idx part hpart
    rw [hget] at hpart
    split at hpart
    . contradiction
    . split at hpart
      . obtain ⟨part', hpart', rfl⟩ := map_eq_some_iff.mp hpart
        have := hwf.part_len idx part' hpart'
        rw [length_take]
        change min _ _ ≤ wb.psz
        omega
      . exact hwf.part_len idx part hpart
  . constructor <;> rfl
  . rfl
  . intro i hi
    rw [byteAt_of_none hs, byteAt_of_none (by exact hs)]
    exact hkeep i hi _
  . intro i hi
    rw [byteAt_of_none (by exact hs)]
    change ((parts.get? ((i / wb.psz : Nat) : Int)).getD (wb.absent (i / wb.psz))).getD (i % wb.psz) 0 = 0
      ∨ ((parts.get? ((i / wb.psz : Nat) : Int)).getD (wb.absent (i / wb.psz))).getD (i % wb.psz) 0
          = (wb.absent (i / wb.psz)).getD (i % wb.psz) 0
      ∨ _
    rw [hget]
    split
    . right
      left
      rfl
    . next hlt =>
      have hpos := pos_eq (p := wb.psz) i
      have hmod := Nat.mod_lt i hp
      have hstart := (lt_count_iff hp n (i / wb.psz)).mp (by omega)
      have hlast : Blocks.count wb.psz n - 1 = i / wb.psz := by
        have hle := (count_le_iff hp n (i / wb.psz + 1)).mpr (by rw [Nat.add_mul]; omega)
        generalize i / wb.psz = q at *
        omega
      rw [if_pos (by omega), hlast]
      cases wb.parts.get? ((i / wb.psz : Nat) : Int) with
      | none =>
        right
        left
        rfl
      | some part =>
        left
        simp only [map_some, getD_some, getD_eq_getElem?_getD, getElem?_take]
        rw [if_neg (by omega)]
        rfl
  . intro i hi
    rw [memAt_of_none hs, memAt_of_none (by exact hs)]
    exact hkeep i hi _
  . exact ht
  . exact hdirty
  . intro idx hidx
    have := hidx.1
    omega

theorem extendParts_truncated {n : Nat}
    (hn : wb.totalSize < n) (hfit : (n : Int) + wb.partSize ≤ maxInt64 + 1)
    : Truncated wb n { wb.markDirty wb.totalSize n with totalSize := n } := by
  have hT := hwf.size_nonneg
  obtain ⟨size, hsize⟩ := Int.eq_ofNat_of_zero_le hT
  rw [markDirty_frame]
  constructor
  . exact { hwf.withSize hs (by omega) hfit with }
  . constructor <;> rfl
  . rfl
  . intros
    rfl
  . intro i hi
    right
    right
    exact ⟨by omega, rfl⟩
  . intros
    rfl
  . exact ht
  . intro idx _ hd
    exact markDirty_mono _ _ hd
  . intro idx hidx
    rw [hsize] at hidx ⊢
    exact markDirty_hit hwf hidx

end

theorem small_truncated (hwf : Wf wb) (ht : wb.touched = true) {n : Nat}
    (hs : wb.smallFileData = some data)
    (hmax : (n : Int) ≤ wb.smallFileMax) (hfit : (n : Int) + wb.partSize ≤ maxInt64 + 1)
    (hlen : s.len = n) (hget : ∀ i, i < n → s.toList.getD i 0 = data.toList.getD i 0)
    : Truncated wb n
        { wb with smallFileData := some s, totalSize := n, dirtyParts := insert 0 wb.dirtyParts } := by
  have hsome : wb.smallFileData.isSome := by simp [hs]
  have hP := hwf.partSize_eq
  have hsmall := hwf.smallOk hsome
  have hmaxP := hsmall.max_le
  constructor
  . exact
      { hwf with
        size_nonneg := by dsimp only; omega
        size_fits := hfit
        small_len := by
          intro s' hs'
          cases hs'
          exact congrArg Nat.cast hlen
        small_max := fun _ => ⟨hmax, hmaxP⟩
        small_parts := fun _ => hsmall.parts_none
        small_load := fun _ => hsmall.load_none }
  . constructor <;> rfl
  . rfl
  . intro i hi
    rw [byteAt_of_some hs, byteAt_of_some (by rfl)]
    exact hget i hi
  . intro i hi
    left
    rw [byteAt_of_some (by rfl), Flat.getD_of_length_le]
    rw [GoSlice.length_toList]
    omega
  . intro i hi
    simp only [memAt, hs]
    exact hget i hi
  . exact ht
  . intro idx _ hd
    exact Finset.mem_insert_of_mem hd
  . intro idx hidx
    have hlt := hidx.2.1
    rw [eq_zero_of_mul_lt (p := wb.psz) idx (by omega)]
    exact Finset.mem_insert_self _ _

theorem extendSmall_eq (data : GoSlice UInt8) (hn : data.len ≤ n)
    : ∃ s, extendSmall data n = some s ∧ s.len = n
      ∧ ∀ i, s.toList.getD i 0 = data.toList.getD i 0 := by
  unfold extendSmall
  split
  . generalize hcap : (if (n : Int) < 1024 then (1024 : Int) else n) = newCap
    have hfit : n ≤ newCap.toNat := by
      split at hcap <;> omega
    obtain ⟨grown, s, hgrown, hs, hlen, hget⟩ :=
      GoSlice.make_copyAt?_reslice? (0 : UInt8) data.toList (by rw [GoSlice.length_toList]; exact hn) hfit
    dsimp only
    rw [hgrown]
    exact ⟨s, hs, hlen, hget⟩
  . next hcap =>
    obtain ⟨s, hs, hlen, hget⟩ := data.reslice?_getD (0 : UInt8) (n := n) (by omega)
    rw [Int.toNat_natCast, hs]
    dsimp only
    rw [dif_pos (by omega)]
    refine ⟨_, rfl, hlen, ?_⟩
    intro i
    rw [GoSlice.getD_toList_clearFrom]
    split
    . next hi => exact hget i (by omega) hi
    . rw [Flat.getD_of_length_le]
      rw [GoSlice.length_toList]
      omega

theorem shrink_truncated (hwf : Wf wb) (ht : wb.touched = true) {n : Nat} (hn : n < wb.totalSize)
    : ∃ wb', shrink wb n = some (wb', none) ∧ Truncated wb n wb' := by
  have hfits := hwf.size_fits
  unfold shrink
  cases hs : wb.smallFileData with
  | none =>
    refine ⟨_, rfl, ?_⟩
    exact shrinkParts_truncated hwf hs ht hn
  | some data =>
    have hlen := hwf.small_len data hs
    have hmax := hwf.small_max (by simp [hs])
    have hcap : n ≤ data.cap := by
      have := data.hlen
      unfold GoSlice.cap
      omega
    obtain ⟨s, hs', hslen, hget⟩ := data.reslice?_getD (0 : UInt8) hcap
    dsimp only
    rw [Int.toNat_natCast, hs']
    refine ⟨_, rfl, ?_⟩
    apply small_truncated hwf ht hs (by omega) (by omega) hslen
    intro i hi
    exact hget i hi (by omega)

variable {self f g : WriteBuffer → Int → Option (WriteBuffer × Option BufError)}

theorem extend_of_none (self) (hs : wb.smallFileData = none) (size)
    : extend self wb size = some ({ wb.markDirty wb.totalSize size with totalSize := size }, none) := by
  unfold extend
  rw [hs]

theorem body_of_none (f g) (hs : wb.smallFileData = none) (size)
    : body f wb size = body g wb size := by
  unfold body
  dsimp only
  rw [extend_of_none f (by exact hs), extend_of_none g (by exact hs)]

end truncate

theorem truncate_eq_body (size) : wb.truncate size = truncate.body truncate wb size := by
  unfold truncate
  rw [truncate.body]
  conv => rhs; rw [truncate.body]
  dsimp only
  unfold truncate.extend
  rw [truncate.body_of_none _ _ migrateToPartMode_none]

theorem truncate_efbig {size : Int} (h : wb.maxSize < size)
    : wb.truncate size = some (wb, some .efbig) := by
  unfold truncate truncate.body
  rw [if_pos h]

theorem truncate_of_extend (hwf : Wf wb) {size : Int} (hM : size ≤ wb.maxSize)
    (hext : wb.totalSize < size → ∃ wb', truncate.extend truncate { wb with touched := true } size.toNat
        = some (wb', none) ∧ Truncated wb size.toNat wb')
    : ∃ wb', wb.truncate size = some (wb', none) ∧ Truncated wb size.toNat wb' := by
  have hT := hwf.size_nonneg
  have hsize : (if size < 0 then 0 else size) = (size.toNat : Int) := by
    split <;> omega
  have htwf : Wf { wb with touched := true } := { hwf with }
  rw [truncate_eq_body]
  unfold truncate.body
  dsimp only
  rw [if_neg (by omega), hsize]
  split
  . next hlt =>
    obtain ⟨wb', hshrink, htr⟩ := truncate.shrink_truncated htwf rfl hlt
    exact ⟨wb', hshrink, htr.of_touched⟩
  . split
    . next hgt => exact hext (by omega)
    . next hle =>
      refine ⟨_, rfl, ?_⟩
      constructor
      . exact htwf
      . constructor <;> rfl
      . change wb.totalSize = _
        omega
      . intros
        rfl
      . intros
        right
        right
        exact ⟨by omega, rfl⟩
      . intros
        rfl
      . rfl
      . intro idx _ hd
        exact hd
      . intro idx hidx
        have := hidx.1
        omega

theorem Truncated.of_migrateToPartMode (hwf : Wf wb) (h : Truncated wb.migrateToPartMode n wb')
    : Truncated wb n wb' := by
  have hcfg := sameCfg_migrateToPartMode wb
  have hsize : wb.migrateToPartMode.totalSize = wb.totalSize := by
    rw [migrateToPartMode_frame]
  have hdirty : wb.migrateToPartMode.dirtyParts = wb.dirtyParts := by
    rw [migrateToPartMode_frame]
  constructor
  . exact h.wf
  . exact hcfg.trans h.cfg
  . exact h.size
  . intro i hi
    rw [h.keep i hi, byteAt_migrateToPartMode hwf]
  . intro i hi
    have htail := h.tail i hi
    rw [hcfg.absent, hcfg.psz, byteAt_migrateToPartMode hwf, hsize] at htail
    exact htail
  . intro i hi
    rw [h.mem_keep i hi, memAt_migrateToPartMode hwf]
  . exact h.touched
  . intro idx hidx hd
    apply h.dirty_keep idx
    . rw [hcfg.psz]
      exact hidx
    . rw [hdirty]
      exact hd
  . intro idx hidx
    apply h.dirty_gap idx
    rw [hcfg.psz, hsize]
    exact hidx

theorem truncate_of_none (hwf : Wf wb) (hs : wb.smallFileData = none) {size : Int}
    (hM : size ≤ wb.maxSize) (hfit : size + wb.partSize ≤ maxInt64 + 1)
    : ∃ wb', wb.truncate size = some (wb', none) ∧ Truncated wb size.toNat wb' := by
  have hT := hwf.size_nonneg
  apply truncate_of_extend hwf hM
  intro hlt
  rw [truncate.extend_of_none _ (by exact hs)]
  refine ⟨_, rfl, ?_⟩
  have htwf : Wf { wb with touched := true } := { hwf with }
  apply Truncated.of_touched
  exact truncate.extendParts_truncated htwf hs rfl (by dsimp only; omega) (by dsimp only; omega)

theorem truncate_truncated (hwf : Wf wb) {size : Int} (hM : size ≤ wb.maxSize)
    (hfit : size + wb.partSize ≤ maxInt64 + 1)
    : ∃ wb', wb.truncate size = some (wb', none) ∧ Truncated wb size.toNat wb' := by
  cases hs : wb.smallFileData with
  | none => exact truncate_of_none hwf hs hM hfit
  | some data =>
    apply truncate_of_extend hwf hM
    intro hlt
    have htwf : Wf { wb with touched := true } := { hwf with }
    generalize ht : ({ wb with touched := true } : WriteBuffer) = t at htwf
    have hts : t.smallFileData = some data := by
      rw [← ht]
      exact hs
    have hcfg : SameCfg wb t := by
      rw [← ht]
      constructor <;> rfl
    have hback : ∀ wb', Truncated t size.toNat wb' → Truncated wb size.toNat wb' := by
      intro wb' h
      rw [← ht] at h
      exact h.of_touched
    have hTt : t.totalSize = wb.totalSize := by rw [← ht]
    have hlen := htwf.small_len data hts
    unfold truncate.extend
    rw [hts]
    dsimp only
    split
    . next hmax =>
      obtain ⟨s, hext, hslen, hget⟩ := truncate.extendSmall_eq data (n := size.toNat) (by omega)
      rw [hext]
      refine ⟨_, rfl, hback _ ?_⟩
      apply truncate.small_truncated htwf (by rw [← ht]) hts hmax _ hslen
      . intro i _
        exact hget i
      . rw [hcfg.partSize]
        omega
    . next hmax =>
      have hmcfg := hcfg.trans (sameCfg_migrateToPartMode t)
      have hcast : (size.toNat : Int) = size := by omega
      have hmM : size ≤ t.migrateToPartMode.maxSize := by
        rw [hmcfg.maxSize]
        exact hM
      obtain ⟨wb', htr, h⟩ :=
        truncate_of_none (wf_migrateToPartMode htwf) migrateToPartMode_none hmM
        (by rw [hmcfg.partSize]; exact hfit)
      rw [hcast]
      exact ⟨wb', htr, hback _ (h.of_migrateToPartMode htwf)⟩

end WriteBuffer
