import Drive9.Patch.Lemmas

/-!
This module contains the resumption of an upload: `ResumeUploadWithChecksums` lists the parts that
are not stored, and the Go, Python and JavaScript clients send them.
-/

open List Blocks

namespace Resume

open S3Client Backend

structure UploadPlan where
  partSize : Int
  parts : List Part

-- `none` where the number of checksums is wrong or `CalcParts` panics.
def resumeUploadWithChecksums (totalSize partSize : Int) (uploaded : List Int)
    (partChecksums : List String)
    : Option UploadPlan :=
  (calcParts totalSize partSize).bind fun allParts =>
    if partChecksums.length > 0 ∧ partChecksums.length ≠ allParts.length then
      none
    else
      some ⟨partSize, allParts.filter fun p => p.number ∉ uploaded⟩

inductive Client where
  | go
  | python
  | javascript

namespace Client

def chunkAt (data : Bytes) (offset size : Int) : Bytes := (data.drop offset.toNat).take size.toNat

-- A short read fails the call.
def uploadMissingParts (plan : UploadPlan) (data : Bytes) : Option (List (Int × Bytes)) :=
  let stdPartSize := if plan.partSize ≤ 0 then PartSize else plan.partSize
  plan.parts.mapM fun p =>
    let chunk := chunkAt data ((p.number - 1) * stdPartSize) p.size
    if (chunk.length : Int) ≠ p.size then none else some (p.number, chunk)

-- The Go client panics where `CalcParts` does.
def partChecksums (computeCRC32C : Bytes → String) (client : Client) (data : Bytes)
    : Option (List String) :=
  match client with
  | .go => (calcParts data.length PartSize).map fun parts =>
    parts.map fun p => computeCRC32C (chunkAt data ((p.number - 1) * PartSize) p.size)
  | .python | .javascript =>
    some ((List.range (Blocks.count PartSize.toNat data.length)).map fun i =>
    computeCRC32C (Multipart.block PartSize.toNat data i))

def uploadMissingPartsJS (plan : UploadPlan) (data : Bytes) (partsTotal : Nat)
    : List (Int × Bytes) :=
  let stdPartSize : Int := if data.length / partsTotal = 0 then PartSize else (data.length / partsTotal : Nat)
  plan.parts.map fun p => (p.number, chunkAt data ((p.number - 1) * stdPartSize) p.size)

def sends (client : Client) (plan : UploadPlan) (data : Bytes) (partsTotal : Nat)
    : Option (List (Int × Bytes)) :=
  match client with
  | .go | .python => uploadMissingParts plan data
  | .javascript => some (uploadMissingPartsJS plan data partsTotal)

def SendsMissing (computeCRC32C : Bytes → String) (client : Client) (partSize : Nat) (data : Bytes)
    (uploaded : List Int) : Prop :=
  ∀ checksums plan, client.partChecksums computeCRC32C data = some checksums
    → resumeUploadWithChecksums data.length partSize uploaded checksums = some plan
    → client.sends plan data (Blocks.count partSize data.length)
        = some (plan.parts.map fun p => (p.number, Multipart.block partSize data (p.number - 1).toNat))
      ∧ (plan.parts.map Part.number).Nodup ∧ (∀ p ∈ plan.parts, p.number ∉ uploaded)
      ∧ ∀ i < Blocks.count partSize data.length, (i : Int) + 1 ∉ uploaded
        → (i : Int) + 1 ∈ plan.parts.map Part.number

end Client

variable {n P : Nat} {plan : UploadPlan} {data : Bytes} {computeCRC32C : Bytes → String}

theorem calcParts_overflow (hn : (n : Int) ≤ maxInt64) (hP : 0 < P) (hPfit : (P : Int) ≤ maxInt64)
    (hfit : ¬ (n : Int) + P ≤ maxInt64 + 1) (h : calcParts n P = some parts)
    : parts = [] := by
  have hwrap : i64 ((n : Int) + P - 1) = n + P - 1 - 2 ^ 64 := by
    unfold i64 maxInt64 at *
    rw [Int.bmod_def]
    omega
  have hcount : (i64 ((n : Int) + P - 1)).tdiv P ≤ 0 := by
    rw [hwrap, ← Int.neg_nonneg, ← Int.neg_tdiv]
    apply Int.tdiv_nonneg
    . unfold maxInt64 at *
      omega
    . exact Int.natCast_nonneg P
  unfold calcParts at h
  dsimp only at h
  rw [if_neg (by omega : ¬ (P : Int) ≤ 0)] at h
  split at h
  . contradiction
  . cases h
    rw [Int.toNat_of_nonpos hcount]
    rfl

theorem partChecksums_pos (hn : 0 < data.length) (hfit : (data.length : Int) ≤ maxInt64)
    (h : Client.partChecksums computeCRC32C client data = some checksums)
    : 0 < checksums.length := by
  have hcount := (lt_count_iff (by decide : 0 < PartSize.toNat) data.length 0).mpr (by omega)
  unfold Client.partChecksums at h
  cases client with
  | go =>
    obtain ⟨parts, hparts, rfl⟩ := Option.map_eq_some_iff.mp h
    rw [length_map]
    by_cases hsum : (data.length : Int) + PartSize ≤ maxInt64 + 1
    . have hcast : PartSize = PartSize.toNat := by decide
      rw [hcast] at hsum hparts
      rw [calcParts_eq (by decide) hsum] at hparts
      cases hparts
      simpa using hcount
    . -- The sum overflows, and the negative number of parts makes the call panic.
      have hwrap : i64 ((data.length : Int) + PartSize - 1) + PartSize ≤ 0 := by
        unfold i64 maxInt64 PartSize at *
        rw [Int.bmod_def]
        omega
      unfold calcParts at hparts
      dsimp only at hparts
      rw [if_neg (by decide : ¬ PartSize ≤ 0)] at hparts
      generalize i64 ((data.length : Int) + PartSize - 1) = sum at hwrap hparts
      have hdiv := Int.le_tdiv_of_mul_le (by decide : 0 < PartSize) (by omega : 1 * PartSize ≤ -sum)
      rw [Int.neg_tdiv] at hdiv
      rw [if_pos (by omega)] at hparts
      cases hparts
  | python | javascript =>
    cases h
    simpa using hcount

theorem resume_parts (h : resumeUploadWithChecksums n P uploaded partChecksums = some plan)
    : ∃ parts, calcParts n P = some parts
      ∧ (partChecksums.length > 0 → partChecksums.length = parts.length)
      ∧ plan = ⟨P, parts.filter fun p => p.number ∉ uploaded⟩ := by
  obtain ⟨parts, hparts, h⟩ := Option.bind_eq_some_iff.mp h
  refine ⟨parts, hparts, ?_⟩
  split at h
  . contradiction
  . next haccepted => exact ⟨fun hpos => by_contra fun hne => haccepted ⟨hpos, hne⟩, (Option.some.inj h).symm⟩

theorem mem_partsOf (hP : 0 < P) (h : p ∈ partsOf P n)
    : ∃ i : Nat, i * P < n ∧ p = ⟨(i : Int) + 1, (min P (n - i * P) : Nat)⟩ := by
  obtain ⟨i, hi, rfl⟩ := mem_map.mp h
  exact ⟨i, (lt_count_iff hP n i).mp (mem_range.mp hi), rfl⟩

theorem chunkAt_eq_block (data) (i P : Nat)
    : Client.chunkAt data (i * P) (min P (data.length - i * P) : Nat)
      = Multipart.block P data i := by
  unfold Client.chunkAt Multipart.block Flat.slice
  rw [← Nat.cast_mul, Int.toNat_natCast, Int.toNat_natCast, Nat.add_mul]
  congr 1
  omega

theorem uploadMissingParts_eq (hP : 0 < P) (parts : List Part)
    (hparts : ∀ p ∈ parts, p ∈ partsOf P data.length)
    : Client.uploadMissingParts ⟨P, parts⟩ data
        =
      some (parts.map fun p => (p.number, Multipart.block P data (p.number - 1).toNat)) := by
  unfold Client.uploadMissingParts
  rw [if_neg (by omega : ¬ (P : Int) ≤ 0)]
  induction parts with
  | nil => rfl
  | cons p parts ih =>
    rw [forall_mem_cons] at hparts
    obtain ⟨i, hi, rfl⟩ := mem_partsOf hP hparts.1
    have hlen : ((Multipart.block P data i).length : Int)
        = (min P (data.length - i * P) : Nat) := by
      unfold Multipart.block Flat.slice
      rw [length_take, length_drop, Nat.add_mul]
      omega
    rw [mapM_cons, ih hparts.2]
    rw [Int.add_sub_cancel, chunkAt_eq_block, if_neg (not_not.mpr hlen)]
    simp

-- Every part but the last is full, so the parts have the part size on average only if the last one
-- is full too.
theorem stride_le (hn : 0 < n) (hP : 0 < P)
    : 0 < n / Blocks.count P n ∧ n / Blocks.count P n ≤ P ∧ (n / Blocks.count P n = P ↔ P ∣ n) := by
  have hpos := (Blocks.lt_count_iff hP n 0).mpr (by omega)
  have hmul := (Blocks.count_le_iff hP n _).mp (Nat.le_refl (Blocks.count P n))
  refine ⟨Nat.div_pos ?_ hpos, Nat.div_le_of_le_mul hmul, ?_, ?_⟩
  . exact (Blocks.count_le_iff hP n n).mpr (Nat.le_mul_of_pos_right n hP)
  . intro heq
    have hle := Nat.div_mul_le_self n (Blocks.count P n)
    rw [heq, Nat.mul_comm] at hle
    exact Dvd.intro_left _ (Nat.le_antisymm hle hmul)
  . rintro ⟨c, hc⟩
    have hcount := (Blocks.count_le_iff hP n c).mpr (by rw [hc, Nat.mul_comm])
    have hle := Nat.mul_le_mul_right P hcount
    rw [Nat.mul_comm c, ← hc] at hle
    exact Nat.div_eq_of_eq_mul_right hpos (Nat.le_antisymm hmul hle)

theorem uploadMissingPartsJS_eq (hn : 0 < data.length) (hP : 0 < P) (plan)
    : Client.uploadMissingPartsJS plan data (Blocks.count P data.length)
        =
      plan.parts.map fun p =>
        (p.number, Client.chunkAt data ((p.number - 1) * (data.length / Blocks.count P data.length : Nat)) p.size) := by
  unfold Client.uploadMissingPartsJS
  rw [if_neg (Nat.ne_of_gt (stride_le hn hP).1)]

theorem sendsMissing (hn : 0 < data.length) (hP : 0 < P) (hnfit : (data.length : Int) ≤ maxInt64)
    (hPfit : (P : Int) ≤ maxInt64)
    (h : maxInt64 + 1 < (data.length : Int) + P ∨ Blocks.count PartSize.toNat data.length ≠ Blocks.count P data.length
      ∨ P ∣ data.length ∨ ∀ k : Nat, 2 ≤ k → k ≤ Blocks.count P data.length → (k : Int) ∈ uploaded)
    (client : Client)
    : client.SendsMissing computeCRC32C P data uploaded := by
  intro checksums plan hchecksums hplan
  obtain ⟨parts, hcalc, haccepted, rfl⟩ := resume_parts hplan
  by_cases hfit : (data.length : Int) + P ≤ maxInt64 + 1
  . have hparts : parts = partsOf P data.length :=
      Option.some.inj (hcalc.symm.trans (calcParts_eq hP hfit))
    subst hparts
    refine ⟨?_, (nodup_partsOf P data.length).sublist (filter_sublist.map _), ?_, ?_⟩
    . cases client with
      | go | python => exact uploadMissingParts_eq hP _ fun p hp => mem_of_mem_filter hp
      | javascript =>
        unfold Client.sends
        dsimp only
        rw [uploadMissingPartsJS_eq hn hP]
        congr 1
        apply map_congr_left
        intro p hp
        obtain ⟨hmem, hmissing⟩ := mem_filter.mp hp
        obtain ⟨i, hi, rfl⟩ := mem_partsOf hP hmem
        have hcount := (lt_count_iff hP _ i).mpr hi
        rw [Int.add_sub_cancel, Int.toNat_natCast]
        obtain hover | hcounts | hdvd | hstored := h
        . omega
        . have hpos := (lt_count_iff (by decide : 0 < PartSize.toNat) data.length 0).mpr (by omega)
          cases hchecksums
          simp [partsOf, hpos, hcounts] at haccepted
        . rw [(stride_le hn hP).2.2.mpr hdvd, chunkAt_eq_block]
        . cases i with
          | zero =>
            rw [← chunkAt_eq_block, Nat.cast_zero, Int.zero_mul, Int.zero_mul]
          | succ i =>
            exact absurd (hstored (i + 1 + 1) (by omega) hcount) (of_decide_eq_true hmissing)
    . intro p hp
      simpa using (mem_filter.mp hp).2
    . intro i hi hmissing
      refine mem_map.mpr ⟨_, mem_filter.mpr ⟨mem_map_of_mem (mem_range.mpr hi), decide_eq_true hmissing⟩, rfl⟩
  . have hpos := partChecksums_pos hn hnfit hchecksums
    rw [calcParts_overflow hnfit hP hPfit hfit hcalc] at haccepted
    exact absurd (haccepted hpos) (Nat.ne_of_gt hpos)

-- The first byte of the part is the only one that is set.
theorem exists_chunkAt_ne_block (hP : 0 < P) (hi : i * P < n) (hoffset : offset < i * P)
    : ∃ data : Bytes, data.length = n
      ∧ Client.chunkAt data (offset : Nat) (min P (n - i * P) : Nat) ≠ Multipart.block P data i := by
  refine ⟨List.replicate (i * P) 0 ++ 1 :: List.replicate (n - i * P - 1) 0, ?_, ?_⟩
  . simp only [List.length_append, List.length_cons, List.length_replicate]
    omega
  . intro heq
    have hfirst := congrArg (fun bytes => bytes[0]?) heq
    unfold Client.chunkAt Multipart.block Flat.slice at hfirst
    simp only [Int.toNat_natCast, List.getElem?_take, List.getElem?_drop] at hfirst
    rw [List.getElem?_append_left (by simpa using hoffset),
      List.getElem?_append_right (by simp)] at hfirst
    simp [hP, hi, hoffset, Nat.add_mul] at hfirst

theorem exists_not_sendsMissing (hn : 0 < n) (hP : 0 < P) (hfit : (n : Int) + P ≤ maxInt64 + 1)
    (hcounts : Blocks.count PartSize.toNat n = Blocks.count P n) (hdvd : ¬ P ∣ n) (hk : 2 ≤ k)
    (hcount : k ≤ Blocks.count P n) (hmissing : (k : Int) ∉ uploaded)
    : ∃ data : Bytes, data.length = n ∧ ¬ Client.javascript.SendsMissing computeCRC32C P data uploaded := by
  obtain ⟨i, rfl⟩ := Nat.exists_eq_add_of_le' (Nat.le_of_succ_le hk)
  have hoffset : i * (n / Blocks.count P n) < i * P := by
    obtain ⟨_, hle, heq⟩ := stride_le hn hP
    apply Nat.mul_lt_mul_of_pos_left _ (by omega)
    exact Nat.lt_of_le_of_ne hle fun h => hdvd (heq.mp h)
  obtain ⟨data, rfl, hne⟩ := exists_chunkAt_ne_block hP ((lt_count_iff hP n i).mp hcount) hoffset
  refine ⟨data, rfl, fun h => ?_⟩
  have hsent := (h _ ⟨P, (partsOf P data.length).filter fun p => p.number ∉ uploaded⟩ rfl (by
    unfold resumeUploadWithChecksums
    rw [calcParts_eq hP hfit]
    simp [hcounts, partsOf])).1
  unfold Client.sends at hsent
  rw [uploadMissingPartsJS_eq hn hP] at hsent
  have hpart :=
    map_inj_left.mp (Option.some.inj hsent) ⟨(i : Int) + 1, (min P (data.length - i * P) : Nat)⟩
    (mem_filter.mpr ⟨mem_map.mpr ⟨i, mem_range.mpr hcount, rfl⟩, decide_eq_true hmissing⟩)
  rw [Int.add_sub_cancel, ← Nat.cast_mul, Int.toNat_natCast] at hpart
  exact hne (Prod.mk.inj hpart).2

theorem resume_sends_missing_iff (computeCRC32C : Bytes → String) (n P : Nat) (hn : 0 < n)
    (hP : 0 < P) (hnfit : (n : Int) ≤ maxInt64) (hPfit : (P : Int) ≤ maxInt64) (uploaded : List Int)
    : (∀ (client : Client) data, data.length = n → client.SendsMissing computeCRC32C P data uploaded)
        ↔
      maxInt64 + 1 < (n : Int) + P ∨ Blocks.count PartSize.toNat n ≠ Blocks.count P n ∨ P ∣ n
        ∨ ∀ k : Nat, 2 ≤ k → k ≤ Blocks.count P n → (k : Int) ∈ uploaded := by
  constructor
  . intro h
    by_contra hnot
    push Not at hnot
    obtain ⟨hfit, hcounts, hdvd, k, hk, hcount, hmissing⟩ := hnot
    obtain ⟨data, hlen, hwrong⟩ :=
      exists_not_sendsMissing hn hP hfit hcounts hdvd hk hcount hmissing
    exact hwrong (h .javascript data hlen)
  . rintro h client data rfl
    exact sendsMissing hn hP hnfit hPfit h client

theorem resume_sends_missing_iff_full_parts
    : Client.javascript.SendsMissing (fun _ => "") 8388608 (List.replicate (2 * 8388608) 0) [1] := by
  apply (resume_sends_missing_iff (fun _ => "") (2 * 8388608) 8388608 _ _ _ _ [1]).mpr
  . exact .inr (.inr (.inl ⟨2, rfl⟩))
  . exact length_replicate
  all_goals decide

theorem javascript_resumes_at_the_average_size
    : ∃ data : Bytes, data.length = 8388609
        ∧ ¬ Client.javascript.SendsMissing (fun _ => "") 8388608 data [1] := by
  apply exists_not_sendsMissing (k := 2)
  all_goals decide

end Resume
