import Mathlib.Data.List.AList

/-!
This module contains finite maps with the operations of a Go `map`.
-/

structure FMap (κ ν : Type) where
  alist : AList (fun _ : κ => ν)

namespace FMap

open List Option

variable {κ ν : Type}

def empty : FMap κ ν := ⟨∅⟩

def keys (m : FMap κ ν) : List κ := m.alist.keys

def isEmpty (m : FMap κ ν) : Bool := m.alist.entries.isEmpty

def delIf (m : FMap κ ν) (p : κ → Bool) : FMap κ ν :=
  ⟨m.alist.entries.filter (fun e => !p e.1), m.alist.nodupKeys.sublist List.filter_sublist⟩

def mapValues (m : FMap κ ν) (f : κ → ν → ν) : FMap κ ν :=
  ⟨m.alist.entries.map fun e => ⟨e.1, f e.1 e.2⟩, by
    have hkeys : (m.alist.entries.map fun e => (⟨e.1, f e.1 e.2⟩ : Sigma fun _ : κ => ν)).keys
        = m.alist.entries.keys := by
      unfold List.keys
      rw [List.map_map]
      rfl
    unfold List.NodupKeys
    rw [hkeys]
    exact m.alist.nodupKeys⟩

def sumOn (m : FMap κ ν) (g : κ → ν → Int) : Int :=
  m.alist.entries.foldr (fun e sum => g e.1 e.2 + sum) 0

theorem nodup_keys (m : FMap κ ν) : m.keys.Nodup := AList.keys_nodup m.alist

theorem sumOn_mapValues (m : FMap κ ν) (f : κ → ν → ν) (g : κ → ν → Int)
    : (m.mapValues f).sumOn g = m.sumOn fun k v => g k (f k v) := by
  unfold mapValues sumOn
  rw [foldr_map]

theorem sumOn_sub (m : FMap κ ν) (g g' : κ → ν → Int)
    : (m.sumOn fun k v => g k v - g' k v) = m.sumOn g - m.sumOn g' := by
  unfold sumOn
  induction m.alist.entries with
  | nil => rfl
  | cons e es ih =>
    rw [foldr_cons, foldr_cons, foldr_cons, ih]
    dsimp only
    omega

variable [DecidableEq κ] {m : FMap κ ν}

def get? (m : FMap κ ν) (k : κ) : Option ν := AList.lookup k m.alist

def set (m : FMap κ ν) (k : κ) (v : ν) : FMap κ ν := ⟨AList.insert k v m.alist⟩

def del (m : FMap κ ν) (k : κ) : FMap κ ν := ⟨AList.erase k m.alist⟩

def modify (m : FMap κ ν) (k : κ) (f : ν → ν) : FMap κ ν :=
  match m.get? k with
  | none => m
  | some v => m.set k (f v)

def toList (m : FMap κ ν) : List (κ × ν) := m.keys.filterMap fun k => (m.get? k).map fun v => (k, v)

def setAll (m : FMap κ ν) (l : List (κ × ν)) : FMap κ ν := l.foldl (fun m e => m.set e.1 e.2) m

@[simp, grind =]
theorem get?_empty (k : κ) : (empty : FMap κ ν).get? k = none := by
  rfl

@[grind =]
theorem get?_set (m : FMap κ ν) (k k' : κ) (v : ν)
    : (m.set k v).get? k' = if k' = k then some v else m.get? k' := by
  split
  . next h =>
    rw [h]
    apply AList.lookup_insert
  . next h =>
    apply AList.lookup_insert_ne
    exact h

@[simp]
theorem get?_set_self (m : FMap κ ν) (k : κ) (v : ν) : (m.set k v).get? k = some v := by
  simp [get?_set]

theorem get?_set_ne (m : FMap κ ν) (v : ν) (h : k' ≠ k) : (m.set k v).get? k' = m.get? k' := by
  simp [get?_set, h]

theorem of_get?_set (h : (m.set k v).get? k' = some v')
    : k' = k ∧ v' = v ∨ k' ≠ k ∧ m.get? k' = some v' := by
  rw [get?_set] at h
  split at h
  . next heq =>
    cases h
    exact .inl ⟨heq, rfl⟩
  . next hne => exact .inr ⟨hne, h⟩

theorem forall_set {p : κ → ν → Prop} (h : ∀ k v, m.get? k = some v → p k v) (hnew : p k v)
    : ∀ k' v', (m.set k v).get? k' = some v' → p k' v' := by
  intro k' v' hget
  cases of_get?_set hget with
  | inl heq =>
    rw [heq.1, heq.2]
    exact hnew
  | inr hne => exact h k' v' hne.2

@[grind =]
theorem get?_modify (m : FMap κ ν) (k k' : κ) (f : ν → ν)
    : (m.modify k f).get? k' = if k' = k then (m.get? k).map f else m.get? k' := by
  unfold modify
  cases hk : m.get? k with
  | none =>
    dsimp only
    split
    . next h => rw [h, hk, map_none]
    . rfl
  | some v =>
    rw [get?_set, map_some]

@[grind =]
theorem get?_del (m : FMap κ ν) (k k' : κ)
    : (m.del k).get? k' = if k' = k then none else m.get? k' := by
  split
  . next h =>
    rw [h]
    apply AList.lookup_erase
  . next h =>
    apply AList.lookup_erase_ne
    exact h

theorem of_get?_del (h : (m.del k).get? k' = some v) : k' ≠ k ∧ m.get? k' = some v := by
  rw [get?_del] at h
  split at h
  . contradiction
  . next hne => exact ⟨hne, h⟩

@[grind =]
theorem get?_delIf (m : FMap κ ν) (p : κ → Bool) (k : κ)
    : (m.delIf p).get? k = if p k then none else m.get? k := by
  unfold delIf get? AList.lookup
  rcases m with ⟨⟨entries, hnd⟩⟩
  dsimp only
  clear hnd
  -- The key under test is either filtered out with its entry or untouched by the filter.
  induction entries with
  | nil => simp
  | cons e es ih =>
    rcases e with ⟨a, b⟩
    by_cases ha : p a
    . simp only [ha, Bool.not_true, Bool.false_eq_true, not_false_eq_true, filter_cons_of_neg]
      rw [ih]
      by_cases hk : k = a
      . subst hk
        simp [ha]
      . rw [dlookup_cons_ne _ _ (by simpa using hk)]
    . simp only [ha, Bool.not_false, filter_cons_of_pos]
      by_cases hk : k = a
      . subst hk
        simp [ha]
      . rw [dlookup_cons_ne _ _ (by simpa using hk), dlookup_cons_ne _ _ (by simpa using hk)]
        exact ih

theorem get?_of_isEmpty (h : m.isEmpty) (k : κ) : m.get? k = none := by
  rcases m with ⟨⟨entries, hnd⟩⟩
  unfold isEmpty at h
  rw [List.isEmpty_iff] at h
  subst h
  rfl

theorem mem_keys (m : FMap κ ν) (k : κ) : k ∈ m.keys ↔ (m.get? k).isSome := by
  unfold keys get?
  rw [AList.lookup_isSome]
  exact AList.mem_keys.symm

theorem mem_toList : (k, v) ∈ m.toList ↔ m.get? k = some v := by
  unfold toList
  rw [mem_filterMap]
  apply Iff.intro
  . intro h
    obtain ⟨k', -, hv⟩ := h
    obtain ⟨v', hv', heq⟩ := map_eq_some_iff.mp hv
    cases heq
    exact hv'
  . intro h
    refine ⟨k, ?_, ?_⟩
    . rw [mem_keys, h, isSome_some]
    . rw [h, map_some]

@[grind =]
theorem get?_mapValues (m : FMap κ ν) (f : κ → ν → ν) (k : κ)
    : (m.mapValues f).get? k = (m.get? k).map (f k) := by
  unfold mapValues get? AList.lookup
  rcases m with ⟨⟨entries, hnd⟩⟩
  dsimp only
  clear hnd
  induction entries with
  | nil => rfl
  | cons e es ih =>
    rcases e with ⟨a, b⟩
    rw [map_cons]
    by_cases hk : k = a
    . subst hk
      rw [dlookup_cons_eq, dlookup_cons_eq, map_some]
    . rw [dlookup_cons_ne _ _ (by simpa using hk), dlookup_cons_ne _ _ (by simpa using hk)]
      exact ih

theorem sumOn_congr (m : FMap κ ν) (h : ∀ k v, m.get? k = some v → g k v = g' k v)
    : m.sumOn g = m.sumOn g' := by
  unfold sumOn
  have hmem : ∀ e ∈ m.alist.entries, g e.1 e.2 = g' e.1 e.2 := by
    intro e he
    apply h
    exact mem_dlookup_iff m.alist.nodupKeys |>.mpr he
  clear h
  revert hmem
  induction m.alist.entries with
  | nil =>
    intro _
    rfl
  | cons e es ih =>
    intro hmem
    rw [foldr_cons, foldr_cons, hmem e mem_cons_self, ih]
    intro e' he'
    exact hmem e' (mem_cons_of_mem _ he')

theorem foldr_kerase (l : List (Sigma fun _ : κ => ν)) (k : κ) (g : κ → ν → Int)
    : l.foldr (fun e sum => g e.1 e.2 + sum) 0
      = (l.kerase k).foldr (fun e sum => g e.1 e.2 + sum) 0 + (l.dlookup k).elim 0 (g k) := by
  induction l with
  | nil => rfl
  | cons e es ih =>
    rcases e with ⟨a, b⟩
    by_cases hk : k = a
    . subst hk
      have herase : List.kerase k ((⟨k, b⟩ : Sigma fun _ : κ => ν) :: es) = es := kerase_cons_eq rfl
      rw [herase, dlookup_cons_eq, foldr_cons, elim_some]
      dsimp only
      omega
    . rw [kerase_cons_ne hk, dlookup_cons_ne _ _ (by simpa using hk), foldr_cons, foldr_cons, ih]
      omega

section

variable (m : FMap κ ν)

theorem sumOn_set (k : κ) (v : ν) (g : κ → ν → Int)
    : (m.set k v).sumOn g = m.sumOn g - (m.get? k).elim 0 (g k) + g k v := by
  have h := foldr_kerase m.alist.entries k g
  change ((⟨k, v⟩ : Sigma fun _ : κ => ν) :: m.alist.entries.kerase k).foldr (fun e sum => g e.1 e.2 + sum) 0 = _
  rw [foldr_cons]
  unfold sumOn get? AList.lookup
  dsimp only
  omega

theorem sumOn_modify (k : κ) (f : ν → ν) (g : κ → ν → Int)
    : (m.modify k f).sumOn g = m.sumOn g - (m.get? k).elim 0 (g k) + (m.get? k).elim 0 fun v => g k (f v) := by
  unfold modify
  cases hk : m.get? k with
  | none => simp
  | some v =>
    rw [sumOn_set, hk]
    rfl

theorem sumOn_eq_zero (h : ∀ k v, m.get? k = some v → g k v = 0) : m.sumOn g = 0 := by
  rw [m.sumOn_congr h]
  unfold sumOn
  induction m.alist.entries with
  | nil => rfl
  | cons e es ih => rw [foldr_cons, ih, Int.zero_add]

variable {l : List (κ × ν)}

theorem get?_setAll_of_not_mem (l) (h : k ∉ l.map Prod.fst) : (m.setAll l).get? k = m.get? k := by
  unfold setAll
  induction l generalizing m with
  | nil => rfl
  | cons e es ih =>
    rw [map_cons, mem_cons, not_or] at h
    rw [foldl_cons, ih _ h.2, get?_set_ne _ _ h.1]

theorem mem_of_get?_setAll (l) (h : (m.setAll l).get? k = some v)
    : m.get? k = some v ∨ (k, v) ∈ l := by
  induction l generalizing m with
  | nil => exact .inl h
  | cons e es ih =>
    cases ih (m.set e.1 e.2) h with
    | inl hset =>
      rw [get?_set] at hset
      split at hset
      . next heq =>
        right
        rw [heq, ← Option.some.inj hset]
        exact mem_cons_self
      . exact .inl hset
    | inr hmem => exact .inr (mem_cons_of_mem _ hmem)

theorem get?_setAll_of_mem (l) (hnd : (l.map Prod.fst).Nodup) (h : (k, v) ∈ l)
    : (m.setAll l).get? k = some v := by
  induction l generalizing m with
  | nil => contradiction
  | cons e es ih =>
    rw [map_cons, nodup_cons] at hnd
    change ((m.set e.1 e.2).setAll es).get? k = some v
    cases mem_cons.mp h with
    | inl heq =>
      subst heq
      rw [get?_setAll_of_not_mem _ _ hnd.1, get?_set_self]
    | inr hmem => exact ih _ hnd.2 hmem

end

end FMap
