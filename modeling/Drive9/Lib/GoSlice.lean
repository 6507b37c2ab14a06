import Drive9.Lib.Flat

/-!
This module contains Go slices that keep a backing array longer than themselves.
-/

structure GoSlice (α : Type) where
  arr : List α
  len : Nat
  hlen : len ≤ arr.length

namespace GoSlice

variable {α : Type}

def toList (s : GoSlice α) : List α := s.arr.take s.len

def cap (s : GoSlice α) : Nat := s.arr.length

def make (z : α) (n : Nat) : GoSlice α := ⟨List.replicate n z, n, by simp⟩

def reslice? (s : GoSlice α) (n : Nat) : Option (GoSlice α) :=
  if h : n ≤ s.arr.length then some ⟨s.arr, n, h⟩ else none

def clearFrom (z : α) (s : GoSlice α) (lo : Nat) (h : lo ≤ s.len) : GoSlice α :=
  ⟨Flat.copyAt s.arr lo (List.replicate (s.len - lo) z), s.len, by
    rw [Flat.length_copyAt]
    . exact s.hlen
    . exact Nat.le_trans h s.hlen⟩

def copyAt? (s : GoSlice α) (pos : Nat) (src : List α) : Option (GoSlice α) :=
  if h : pos ≤ s.len then
    some ⟨Flat.copyAt s.arr pos (src.take (s.len - pos)), s.len, by
      rw [Flat.length_copyAt]
      . exact s.hlen
      . exact Nat.le_trans h s.hlen⟩
  else
    none

section

variable (s : GoSlice α)

include s

@[simp]
theorem length_toList : s.toList.length = s.len := by
  simp [toList, s.hlen]

theorem getD_toList (z : α) (i : Nat)
    : s.toList.getD i z = if i < s.len then s.arr.getD i z else z := by
  simp only [toList, List.getD_eq_getElem?_getD, List.getElem?_take]
  grind

theorem reslice?_eq (h : n ≤ s.cap) : s.reslice? n = some ⟨s.arr, n, h⟩ := by
  unfold cap at h
  simp [reslice?, h]

theorem getD_toList_clearFrom (z : α) (lo i : Nat) (h : lo ≤ s.len)
    : (s.clearFrom z lo h).toList.getD i z = if i < lo then s.toList.getD i z else z := by
  have hcap := s.hlen
  rw [getD_toList, getD_toList]
  unfold clearFrom
  rw [Flat.getD_copyAt]
  . simp only [List.length_replicate, List.getD_eq_getElem?_getD, List.getElem?_replicate]
    grind
  . omega

theorem copyAt?_eq (src : List α) (h : pos ≤ s.len)
    : ∃ s', s.copyAt? pos src = some s' ∧ s'.len = s.len
      ∧ s'.toList = Flat.copyAt s.toList pos src := by
  unfold copyAt?
  simp only [h, ↓reduceDIte]
  refine ⟨_, rfl, rfl, ?_⟩
  unfold toList Flat.copyAt
  rw [List.ext_getElem?_iff]
  intro i
  simp only [List.getElem?_take, List.getElem?_append, List.length_append, List.length_take,
    List.getElem?_drop]
  grind

theorem reslice?_getD (z : α) (h : n ≤ s.cap)
    : ∃ s', s.reslice? n = some s' ∧ s'.len = n
        ∧ ∀ i, i < n → i < s.len → s'.toList.getD i z = s.toList.getD i z := by
  refine ⟨_, s.reslice?_eq h, rfl, ?_⟩
  intro i hn hlen
  rw [getD_toList, getD_toList]
  rw [if_pos hn, if_pos hlen]

end

theorem make_copyAt?_reslice? (z : α) (old : List α) (hold : old.length ≤ m) (hm : m ≤ n)
    : ∃ grown s, (make z n).copyAt? 0 old = some grown ∧ grown.reslice? m = some s ∧ s.len = m
        ∧ ∀ i, s.toList.getD i z = old.getD i z := by
  obtain ⟨grown, hgrown, hlen, hlist⟩ := (make z n).copyAt?_eq old (Nat.zero_le _)
  have hcap : m ≤ grown.cap := by
    have := grown.hlen
    unfold cap
    have hmake : (make z n).len = n := rfl
    omega
  obtain ⟨s, hs, hslen, hget⟩ := grown.reslice?_getD z hcap
  refine ⟨grown, s, hgrown, hs, hslen, ?_⟩
  intro i
  cases Nat.lt_or_ge i m with
  | inl hi =>
    have hmake : (make z n).len = n := rfl
    rw [hget i hi (by omega), hlist, Flat.getD_copyAt _ _ _ _ (Nat.zero_le _)]
    rw [length_toList, getD_toList]
    simp only [make, List.getD_eq_getElem?_getD, List.getElem?_replicate]
    grind
  | inr hi =>
    rw [Flat.getD_of_length_le z (by rw [length_toList]; omega)]
    rw [Flat.getD_of_length_le z (by omega)]

end GoSlice
