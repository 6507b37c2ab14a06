import Drive9.Lib.Json.RoundTrip
import Mathlib.Data.List.Sort

/-!
This module contains the canonical form of a value, `canon`, and how it goes along with changing the
numbers of the value.
-/

variable {k : List Char} {v : Json} {done ms ms' : List (List Char × Json)}

namespace Json

open List Option

-- The induction over a value, with the items of an array and the values of an object for the inner
-- cases.
theorem induct {P : Json → Prop} (null : P null) (bool : ∀ b, P (bool b)) (num : ∀ n, P (num n))
    (str : ∀ s, P (str s))
    (arr : ∀ items, (∀ x ∈ items, P x) → P (arr items)) (obj : ∀ ms, (∀ m ∈ ms, P m.2) → P (obj ms))
    (j)
    : P j := by
  refine @Json.rec P (fun items => ∀ x ∈ items, P x) (fun ms => ∀ m ∈ ms, P m.2)
    (fun m => P m.2) null bool num str arr
    obj ?_ ?_ ?_ ?_ (fun _ _ h => h) j
  . simp
  . exact fun x xs hx hxs => List.forall_mem_cons.mpr ⟨hx, hxs⟩
  . simp
  . exact fun m ms hm hms => List.forall_mem_cons.mpr ⟨hm, hms⟩

def Ordered (ms : List (List Char × Json)) : Prop := (ms.map (·.1)).Pairwise (· < ·)

theorem ordered_nil : Ordered [] := List.Pairwise.nil

theorem ordered_cons : Ordered ((k, v) :: ms) ↔ (∀ m ∈ ms, k < m.1) ∧ Ordered ms := by
  unfold Ordered
  rw [map_cons, pairwise_cons]
  simp

theorem mem_insertMember (h : m ∈ insertMember k v ms) : m = (k, v) ∨ m ∈ ms := by
  induction ms with
  | nil => exact .inl (mem_singleton.mp h)
  | cons m' ms ih =>
    unfold insertMember at h
    split at h
    . cases mem_cons.mp h with
      | inl h => exact .inl h
      | inr h => exact .inr (mem_cons_of_mem _ h)
    . split at h
      . exact mem_cons.mp h
      . cases mem_cons.mp h with
        | inl h => exact .inr (h ▸ mem_cons_self)
        | inr h =>
          cases ih h with
          | inl h => exact .inl h
          | inr h => exact .inr (mem_cons_of_mem _ h)

theorem Ordered.insertMember (h : Ordered ms) (k) (v) : Ordered (insertMember k v ms) := by
  induction ms with
  | nil => exact pairwise_singleton _ _
  | cons m ms ih =>
    obtain ⟨hlt, hms⟩ := ordered_cons.mp h
    unfold Json.insertMember
    split
    . next heq =>
      rw [heq, ordered_cons]
      exact ⟨hlt, hms⟩
    . next hne =>
      split
      . next hk =>
        rw [ordered_cons]
        refine ⟨?_, h⟩
        intro m hm
        cases mem_cons.mp hm with
        | inl hm =>
          rw [hm]
          exact hk
        | inr hm => exact hk.trans (hlt m hm)
      . next hk =>
        rw [ordered_cons]
        refine ⟨?_, ih hms⟩
        intro m hm
        cases mem_insertMember hm with
        | inl hm =>
          rw [hm]
          exact lt_of_le_of_ne (not_lt.mp hk) (Ne.symm hne)
        | inr hm => exact hlt m hm

theorem insertMember_of_lt (h : ∀ m ∈ ms, m.1 < k) (v) : insertMember k v ms = ms ++ [(k, v)] := by
  induction ms with
  | nil => rfl
  | cons m ms ih =>
    rw [forall_mem_cons] at h
    unfold insertMember
    rw [if_neg h.1.ne', if_neg h.1.not_gt, ih h.2]
    rfl

theorem ordered_canonMembers (ms) (h : Ordered done) : Ordered (canonMembers ms done) := by
  induction ms generalizing done with
  | nil =>
    rw [canonMembers]
    exact h
  | cons m ms ih =>
    rw [canonMembers]
    exact ih (h.insertMember m.1 (canon m.2))

theorem canonMembers_of_ordered (h : Ordered ms) (hlt : ∀ m ∈ done, ∀ m' ∈ ms, m.1 < m'.1)
    : canonMembers ms done = done ++ ms.map fun m => (m.1, canon m.2) := by
  induction ms generalizing done with
  | nil =>
    rw [canonMembers]
    simp
  | cons m ms ih =>
    obtain ⟨hk, hms⟩ := ordered_cons.mp h
    rw [canonMembers, insertMember_of_lt (fun m hm => hlt m hm _ mem_cons_self), ih hms]
    . simp
    . intro m hm m' hm'
      cases mem_append.mp hm with
      | inl hm => exact hlt m hm m' (mem_cons_of_mem _ hm')
      | inr hm =>
        rw [mem_singleton.mp hm]
        exact hk m' hm'

theorem canon_obj (h : Ordered ms) : canon (obj ms) = obj (ms.map fun m => (m.1, canon m.2)) := by
  have hms := canonMembers_of_ordered h (show ∀ m ∈ ([] : List (List Char × Json)), ∀ m' ∈ ms, m.1 < m'.1 by simp)
  rw [canon, hms]
  rfl

variable {items : List Json}

theorem canon_arr (items) : canon (arr items) = arr (items.map canon) := by
  have h : canonItems items = items.map canon := by
    induction items with
    | nil => rw [canonItems, map_nil]
    | cons x xs ih => rw [canonItems, ih, map_cons]
  rw [canon, h]

theorem Number.text_injective : Function.Injective Number.text := by
  intro n m h
  have hn := n.scan_text stops_nil
  rw [h, m.scan_text stops_nil] at hn
  cases hn
  rfl

-- As in a Go map, the last member of a key counts.
def find (ms : List (List Char × Json)) (k : List Char) : Option Json :=
  match ms with
  | [] => none
  | (k', v) :: ms => (find ms k).or (if k = k' then some v else none)

theorem mem_of_find (h : find ms k = some v) : (k, v) ∈ ms := by
  induction ms with
  | nil => contradiction
  | cons m ms ih =>
    rw [find, or_eq_some_iff] at h
    cases h with
    | inl h => exact mem_cons_of_mem _ (ih h)
    | inr h =>
      rw [ite_none_right_eq_some] at h
      rw [h.2.1, ← Option.some.inj h.2.2]
      exact mem_cons_self

theorem find_of_lt (h : ∀ m ∈ ms, k < m.1) : find ms k = none := by
  cases hv : find ms k with
  | none => rfl
  | some v => exact absurd (h _ (mem_of_find hv)) (lt_irrefl k)

theorem Ordered.mem_iff (h : Ordered ms) : m ∈ ms ↔ find ms m.1 = some m.2 := by
  refine ⟨?_, mem_of_find⟩
  intro hm
  induction ms with
  | nil => contradiction
  | cons m' ms ih =>
    rw [find]
    cases mem_cons.mp hm with
    | inl hm =>
      rw [hm, find_of_lt (ordered_cons.mp h).1, if_pos rfl]
      rfl
    | inr hm =>
      rw [ih (ordered_cons.mp h).2 hm]
      rfl

theorem Ordered.eq_of_find (h : Ordered ms) (h' : Ordered ms') (heq : find ms = find ms')
    : ms = ms' := by
  apply (pairwise_map.mp h).eq_of_mem_iff (pairwise_map.mp h')
  intro m
  rw [h.mem_iff, h'.mem_iff, heq]

theorem Ordered.find_insertMember (h : Ordered ms) (k v k')
    : find (Json.insertMember k v ms) k' = if k' = k then some v else find ms k' := by
  induction ms with
  | nil => rfl
  | cons m ms ih =>
    obtain ⟨hlt, hms⟩ := ordered_cons.mp h
    unfold Json.insertMember
    split
    . next heq =>
      rw [find, find, ← heq]
      split
      . next hk =>
        rw [hk, find_of_lt (heq ▸ hlt)]
        rfl
      . rfl
    . split
      . next hk =>
        rw [find]
        split
        . next heq =>
          rw [heq, find_of_lt]
          . rfl
          . rw [forall_mem_cons]
            exact ⟨hk, fun m hm => hk.trans (hlt m hm)⟩
        . exact or_none
      . rw [find, ih hms, find]
        split
        . rfl
        . rfl

theorem find_canonMembers (ms) (h : Ordered done) (k)
    : find (canonMembers ms done) k = ((find ms k).map canon).or (find done k) := by
  induction ms generalizing done with
  | nil =>
    rw [canonMembers]
    rfl
  | cons m ms ih =>
    rw [canonMembers, ih (h.insertMember _ _), h.find_insertMember, find, Option.map_or,
      Option.or_assoc]
    split
    . rfl
    . rfl

theorem find_canonMembers_nil (ms k) : find (canonMembers ms []) k = (find ms k).map canon := by
  rw [find_canonMembers ms ordered_nil]
  exact or_none

theorem mem_canonMembers (h : m ∈ canonMembers ms []) : ∃ m' ∈ ms, m = (m'.1, canon m'.2) := by
  rw [(ordered_canonMembers ms ordered_nil).mem_iff, find_canonMembers_nil, map_eq_some_iff] at h
  obtain ⟨v, hv, hm⟩ := h
  exact ⟨_, mem_of_find hv, Prod.ext rfl hm.symm⟩

theorem canonMembers_eq_iff
    : canonMembers ms [] = canonMembers ms' []
      ↔ ∀ k, (find ms k).map canon = (find ms' k).map canon := by
  constructor
  . intro h k
    rw [← find_canonMembers_nil ms, ← find_canonMembers_nil ms', h]
  . intro h
    apply (ordered_canonMembers ms ordered_nil).eq_of_find (ordered_canonMembers ms' ordered_nil)
    funext k
    rw [find_canonMembers_nil, find_canonMembers_nil, h]

theorem canon_canon (j : Json) : canon (canon j) = canon j := by
  induction j using induct with
  | null | bool b | num n | str s => rfl
  | arr items ih =>
    rw [canon_arr, canon_arr, List.map_map]
    exact congrArg arr (List.map_congr_left ih)
  | obj ms ih =>
    have hfixed : ∀ m ∈ canonMembers ms [], (m.1, canon m.2) = m := by
      intro m hm
      obtain ⟨m', hm', rfl⟩ := mem_canonMembers hm
      rw [ih m' hm']
    rw [canon, canon_obj (ordered_canonMembers ms ordered_nil), List.map_congr_left hfixed,
      List.map_id']

-- The value a text stands for: an object is a finite map, a number its literal.
inductive Value where
  | null
  | bool (b : Bool)
  | num (text : List Char)
  | str (s : List Char)
  | arr (items : List Value)
  | obj (members : List Char → Option Value)

mutual

def denote : Json → Value
  | null => .null
  | bool b => .bool b
  | num n => .num n.text
  | str s => .str s
  | arr items => .arr (denoteItems items)
  | obj members => .obj (denoteMembers members)

def denoteItems : List Json → List Value
  | [] => []
  | x :: xs => denote x :: denoteItems xs

def denoteMembers : List (List Char × Json) → List Char → Option Value
  | [], _ => none
  | (k, v) :: ms, k' => (denoteMembers ms k').or (if k' = k then some (denote v) else none)

end

theorem denoteItems_eq (items) : denoteItems items = items.map denote := by
  induction items with
  | nil => rfl
  | cons x xs ih => rw [denoteItems, ih, map_cons]

theorem denoteMembers_eq (ms) (k) : denoteMembers ms k = (find ms k).map denote := by
  induction ms with
  | nil => rfl
  | cons m ms ih =>
    rw [denoteMembers, ih, find, map_or]
    split
    . rfl
    . rfl

theorem map_eq_map_iff {f : α → β} {g : α → γ} {xs : List α}
    (h : ∀ x ∈ xs, ∀ y, f x = f y ↔ g x = g y) (ys)
    : xs.map f = List.map f ys ↔ xs.map g = ys.map g := by
  induction xs generalizing ys with
  | nil => simp
  | cons x xs ih =>
    rw [forall_mem_cons] at h
    cases ys with
    | nil => simp
    | cons y ys => simp only [map_cons, List.cons.injEq, h.1, ih h.2 ys]

theorem canon_eq_iff (j j') : canon j = canon j' ↔ denote j = denote j' := by
  induction j using induct generalizing j' with
  | null | bool b | str s =>
    cases j' with
    | null | bool b' | num n' | str s' | arr items' | obj ms' => simp [canon, denote]
  | num n =>
    cases j' with
    | num n' => simp [canon, denote, Number.text_injective.eq_iff]
    | null | bool b' | str s' | arr items' | obj ms' => simp [canon, denote]
  | arr items ih =>
    cases j' with
    | arr items' =>
      rw [canon_arr, canon_arr, denote, denote, denoteItems_eq, denoteItems_eq, arr.injEq,
        Value.arr.injEq]
      exact map_eq_map_iff ih _
    | null | bool b' | num n' | str s' | obj ms' => simp [canon, denote]
  | obj ms ih =>
    cases j' with
    | obj ms' =>
      rw [canon, canon, denote, denote, obj.injEq, Value.obj.injEq, canonMembers_eq_iff, funext_iff]
      apply forall_congr'
      intro k
      rw [denoteMembers_eq, denoteMembers_eq]
      cases hv : find ms k with
      | none => cases find ms' k with
        | none | some w => simp
      | some v => cases find ms' k with
        | none => simp
        | some w => simp [ih _ (mem_of_find hv) w]
    | null | bool b' | num n' | str s' | arr items' => simp [canon, denote]

mutual

def mapNumbers (f : Number → Number) : Json → Json
  | null => null
  | bool b => bool b
  | num n => num (f n)
  | str s => str s
  | arr items => arr (mapItems f items)
  | obj members => obj (mapMembers f members)

def mapItems (f : Number → Number) : List Json → List Json
  | [] => []
  | x :: xs => mapNumbers f x :: mapItems f xs

def mapMembers (f : Number → Number) : List (List Char × Json) → List (List Char × Json)
  | [] => []
  | (k, v) :: ms => (k, mapNumbers f v) :: mapMembers f ms

end

mutual

def numbers : Json → List Number
  | null => []
  | bool _ => []
  | num n => [n]
  | str _ => []
  | arr items => itemNumbers items
  | obj members => memberNumbers members

def itemNumbers : List Json → List Number
  | [] => []
  | x :: xs => numbers x ++ itemNumbers xs

def memberNumbers : List (List Char × Json) → List Number
  | [] => []
  | (_, v) :: ms => numbers v ++ memberNumbers ms

end

variable (f : Number → Number)

theorem mapItems_eq_map (items) : mapItems f items = items.map (mapNumbers f) := by
  induction items with
  | nil => rfl
  | cons x xs ih => rw [mapItems, ih, map_cons]

theorem mapMembers_eq_map (ms) : mapMembers f ms = ms.map fun m => (m.1, mapNumbers f m.2) := by
  induction ms with
  | nil => rfl
  | cons m ms ih => rw [mapMembers, ih, map_cons]

theorem itemNumbers_eq_flatMap (items) : itemNumbers items = items.flatMap numbers := by
  induction items with
  | nil => rfl
  | cons x xs ih => rw [itemNumbers, ih, flatMap_cons]

theorem memberNumbers_eq_flatMap (ms) : memberNumbers ms = ms.flatMap fun m => numbers m.2 := by
  induction ms with
  | nil => rfl
  | cons m ms ih => rw [memberNumbers, ih, flatMap_cons]

theorem mem_itemNumbers : n ∈ itemNumbers items ↔ ∃ x ∈ items, n ∈ numbers x := by
  rw [itemNumbers_eq_flatMap, mem_flatMap]

theorem mem_memberNumbers : n ∈ memberNumbers ms ↔ ∃ m ∈ ms, n ∈ numbers m.2 := by
  rw [memberNumbers_eq_flatMap, mem_flatMap]

theorem mapMembers_insertMember (k) (v) (ms)
    : mapMembers f (insertMember k v ms) = insertMember k (mapNumbers f v) (mapMembers f ms) := by
  induction ms with
  | nil => rfl
  | cons m ms ih =>
    rw [mapMembers]
    unfold insertMember
    split
    . rfl
    . split
      . rfl
      . rw [mapMembers, ih]

mutual

theorem canon_mapNumbers (j : Json) : canon (mapNumbers f j) = mapNumbers f (canon j) := by
  match j with
  | null => rfl
  | bool b => rfl
  | num n => rfl
  | str s => rfl
  | arr items => rw [mapNumbers, canon, canon, mapNumbers, canonItems_mapItems items]
  | obj members =>
    rw [mapNumbers, canon, canon, mapNumbers, ← canonMembers_mapMembers members [], mapMembers]

theorem canonItems_mapItems (items)
    : canonItems (mapItems f items) = mapItems f (canonItems items) := by
  match items with
  | [] => rfl
  | x :: xs =>
    rw [mapItems, canonItems, canonItems, mapItems, canon_mapNumbers x, canonItems_mapItems xs]

theorem canonMembers_mapMembers (ms done)
    : canonMembers (mapMembers f ms) (mapMembers f done) = mapMembers f (canonMembers ms done) := by
  match ms with
  | [] => rw [mapMembers, canonMembers, canonMembers]
  | (k, v) :: ms =>
    rw [mapMembers, canonMembers, canonMembers, canon_mapNumbers v, ← mapMembers_insertMember,
      canonMembers_mapMembers ms]

end

theorem mapNumbers_eq_self_iff (j : Json) : mapNumbers f j = j ↔ ∀ n ∈ numbers j, f n = n := by
  induction j using induct with
  | null | bool b | num n | str s => simp [mapNumbers, numbers]
  | arr items ih =>
    rw [mapNumbers, numbers, arr.injEq, mapItems_eq_map, itemNumbers_eq_flatMap, forall_mem_flatMap]
    nth_rewrite 2 [← List.map_id items]
    rw [List.map_eq_map_iff]
    exact forall₂_congr ih
  | obj ms ih =>
    rw [mapNumbers, numbers, obj.injEq, mapMembers_eq_map, memberNumbers_eq_flatMap,
      forall_mem_flatMap]
    nth_rewrite 2 [← List.map_id ms]
    rw [List.map_eq_map_iff]
    exact forall₂_congr fun m hm => Prod.mk_right_inj.trans (ih m hm)

theorem numbers_canon_subset (j : Json) : numbers (canon j) ⊆ numbers j := by
  induction j using induct with
  | null | bool b | num n | str s => exact List.Subset.refl _
  | arr items ih =>
    intro n hn
    rw [canon_arr, numbers, mem_itemNumbers] at hn
    obtain ⟨y, hy, hn⟩ := hn
    obtain ⟨x, hx, rfl⟩ := mem_map.mp hy
    exact mem_itemNumbers.mpr ⟨x, hx, ih x hx hn⟩
  | obj ms ih =>
    intro n hn
    rw [canon, numbers, mem_memberNumbers] at hn
    obtain ⟨m, hm, hn⟩ := hn
    obtain ⟨m', hm', rfl⟩ := mem_canonMembers hm
    exact mem_memberNumbers.mpr ⟨m', hm', ih m' hm' hn⟩

theorem mapNumbers_mapNumbers (g) (j : Json)
    : mapNumbers g (mapNumbers f j) = mapNumbers (fun n => g (f n)) j := by
  induction j using induct with
  | null | bool b | num n | str s => rfl
  | arr items ih =>
    simp only [mapNumbers, mapItems_eq_map, List.map_map]
    exact congrArg arr (map_congr_left ih)
  | obj ms ih =>
    simp only [mapNumbers, mapMembers_eq_map, List.map_map]
    exact congrArg obj (map_congr_left fun m hm => congrArg (m.1, ·) (ih m hm))

theorem numbers_mapNumbers (j : Json) : numbers (mapNumbers f j) = (numbers j).map f := by
  induction j using induct with
  | null | bool b | num n | str s => rfl
  | arr items ih =>
    rw [mapNumbers, numbers, numbers, mapItems_eq_map, itemNumbers_eq_flatMap,
      itemNumbers_eq_flatMap, List.flatMap_map, List.map_flatMap]
    exact flatMap_congr ih
  | obj ms ih =>
    rw [mapNumbers, numbers, numbers, mapMembers_eq_map, memberNumbers_eq_flatMap,
      memberNumbers_eq_flatMap, List.flatMap_map, List.map_flatMap]
    exact flatMap_congr ih

def keys : Json → List (List Char)
  | obj members => members.map (·.1)
  | _ => []

end Json
