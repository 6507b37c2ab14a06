import Drive9.Datastore.Search.Impl
import Drive9.Lib.Glob

/-!
This module contains what the searches return: rows of the join whose path meets the condition of
the query, and nothing else.
-/

open List Option

namespace Datastore

theorem mem_of_limitRows (h : limitRows limit rows = .ok out) (hx : x ∈ out) : x ∈ rows := by
  unfold limitRows at h
  split at h
  . contradiction
  . cases h
    exact mem_of_mem_take hx

namespace SearchTables

variable {engine : Engine} {t : SearchTables} {pathPrefix : Str} {limit : Int}
  {out : List SearchResult}

def Finds (t : SearchTables) (pathPrefix : Str) (res : SearchResult) : Prop :=
  ∃ n ∈ t.db.fileNodes, res.path = n.path ∧ pathCond pathPrefix n.path = true

theorem finds_of_found (hr : r ∈ t.inodeRows) (hfound : r.found pathPrefix = true)
    (score : Option Float)
    : t.Finds pathPrefix (r.result score) := by
  obtain ⟨n, hn, hrow⟩ := mem_filterMap.mp hr
  obtain ⟨inodeID, _, hrow⟩ := bind_eq_some_iff.mp hrow
  obtain ⟨inode, _, hrow⟩ := bind_eq_some_iff.mp hrow
  cases hrow
  exact ⟨n, hn, rfl, (Bool.and_eq_true_iff.mp hfound).2⟩

theorem found_of_vectorRow (h : t.vectorRow engine columns gated vecParam pathPrefix r = some row)
    : row.1 = r ∧ r.found pathPrefix = true := by
  obtain ⟨s, _, h⟩ := bind_eq_some_iff.mp h
  obtain ⟨v, _, h⟩ := bind_eq_some_iff.mp h
  split at h
  . next hcond =>
    cases h
    exact ⟨rfl, (Bool.and_eq_true_iff.mp hcond).1⟩
  . contradiction

theorem finds_of_runVectorSearch
    (h : runVectorSearch (t.vectorQuery engine columns gated vecParam pathPrefix limit) = .ok out)
    : ∀ res ∈ out, t.Finds pathPrefix res := by
  unfold runVectorSearch at h
  split at h
  . contradiction
  . next rows hrows =>
    cases h
    intro res hres
    obtain ⟨row, hmem, hrow⟩ := mem_filterMap.mp hres
    have hmem := mem_of_limitRows hrows hmem
    rw [mem_insertionSort] at hmem
    obtain ⟨r, hr, hvec⟩ := mem_filterMap.mp hmem
    obtain ⟨rfl, hfound⟩ := found_of_vectorRow hvec
    dsimp only at hrow
    split at hrow
    . contradiction
    . cases hrow
      exact finds_of_found hr hfound _

theorem finds_of_searchByVector
    (h : t.searchByVector engine columns queryEmbedding pathPrefix limit = .ok out)
    : ∀ res ∈ out, t.Finds pathPrefix res := by
  unfold searchByVector at h
  split at h
  . cases h
    simp
  . exact finds_of_runVectorSearch h

theorem finds_of_searchByText
    (h : t.searchByText engine columns queryText pathPrefix limit = .ok out)
    : ∀ res ∈ out, t.Finds pathPrefix res := by
  unfold searchByText at h
  split at h
  . cases h
    simp
  . exact finds_of_runVectorSearch h

theorem finds_of_ftsSearch (h : t.ftsSearch engine query pathPrefix limit = .ok out)
    : ∀ res ∈ out, t.Finds pathPrefix res := by
  unfold ftsSearch at h
  split at h
  . contradiction
  . cases h
    intro res hres
    obtain ⟨row, _, hres⟩ := mem_flatMap.mp hres
    obtain ⟨r, hr, rfl⟩ := mem_map.mp hres
    obtain ⟨hr, hcond⟩ := mem_filter.mp hr
    exact finds_of_found hr (Bool.and_eq_true_iff.mp hcond).2 _

theorem finds_of_limitRows (hrows : limitRows limit rows = .ok rows')
    (hfound : ∀ r ∈ rows, r ∈ t.inodeRows ∧ r.found pathPrefix = true)
    : ∀ res ∈ rows'.map fun r => r.result none, t.Finds pathPrefix res := by
  intro res hres
  obtain ⟨r, hr, rfl⟩ := mem_map.mp hres
  obtain ⟨hmem, hcond⟩ := hfound r (mem_of_limitRows hrows hr)
  exact finds_of_found hmem hcond none

theorem found_of_mem_sorted {cond : InodeRow → Bool} [DecidableRel rel]
    (h : r ∈ (t.inodeRows.filter fun r => r.found pathPrefix && cond r).insertionSort rel)
    : r ∈ t.inodeRows ∧ r.found pathPrefix = true := by
  rw [mem_insertionSort, mem_filter] at h
  exact ⟨h.1, (Bool.and_eq_true_iff.mp h.2).1⟩

theorem finds_of_keywordSearch (h : t.keywordSearch query pathPrefix limit = .ok out)
    : ∀ res ∈ out, t.Finds pathPrefix res := by
  unfold keywordSearch at h
  dsimp only at h
  split at h
  . contradiction
  . next rows hrows =>
    cases h
    exact finds_of_limitRows hrows fun r hr => found_of_mem_sorted hr

theorem finds_of_find (h : t.find f = .ok out) : ∀ res ∈ out, t.Finds f.pathPrefix res := by
  unfold find at h
  dsimp only at h
  split at h
  . contradiction
  . next rows hrows =>
    cases h
    exact finds_of_limitRows hrows fun r hr => found_of_mem_sorted hr

end SearchTables

section Merge

variable {f : FMap Str SearchResult → SearchResult → FMap Str SearchResult}

theorem mem_of_get?_foldl
    (hf : ∀ all r k v, (f all r).get? k = some v → all.get? k = some v ∨ v = r)
    (results : List SearchResult) (all : FMap Str SearchResult)
    (h : (results.foldl f all).get? k = some v)
    : all.get? k = some v ∨ v ∈ results := by
  induction results generalizing all with
  | nil => exact .inl h
  | cons r results ih =>
    cases ih (f all r) h with
    | inl h =>
      cases hf all r k v h with
      | inl h => exact .inl h
      | inr h =>
        subst h
        exact .inr mem_cons_self
    | inr h => exact .inr (mem_cons_of_mem r h)

theorem get?_set_path {all : FMap Str SearchResult} {v : SearchResult}
    (h : (all.set r.path r).get? k = some v)
    : all.get? k = some v ∨ v = r := by
  cases FMap.of_get?_set h with
  | inl h => exact .inr h.2
  | inr h => exact .inl h.2

theorem mem_of_get?_merged {fts vec : List SearchResult}
    (hf : ∀ all r k v, (f all r).get? k = some v → all.get? k = some v ∨ v = r)
    (h : (vec.foldl f (fts.foldl (fun all r => all.set r.path r) .empty)).get? k = some v)
    : v ∈ fts ∨ v ∈ vec := by
  cases mem_of_get?_foldl hf vec _ h with
  | inl h =>
    cases mem_of_get?_foldl (fun all r k v => get?_set_path) fts .empty h with
    | inl h =>
      rw [FMap.get?_empty] at h
      contradiction
    | inr h => exact .inl h
  | inr h => exact .inr h

theorem path_of_mem_rrfMerge (h : res ∈ rrfMerge fts vec limit)
    : ∃ r, (r ∈ fts ∨ r ∈ vec) ∧ res.path = r.path := by
  have h := mem_of_mem_take h
  rw [mem_insertionSort] at h
  obtain ⟨⟨k, r⟩, hr, rfl⟩ := mem_map.mp h
  refine ⟨r, ?_, rfl⟩
  rw [FMap.mem_toList] at hr
  apply mem_of_get?_merged _ hr
  intro all r k v hv
  split at hv
  . exact .inl hv
  . exact get?_set_path hv

end Merge

section Literal

-- A backslash escapes the next character, and a doubled quote is one quote.
def scanLiteral (s : Str) : Option (Str × Str) :=
  match s with
  | [] => none
  | '\'' :: '\'' :: s => (scanLiteral s).map fun (value, rest) => ('\'' :: value, rest)
  | '\'' :: rest => some ([], rest)
  | '\\' :: c :: s => (scanLiteral s).map fun (value, rest) => (c :: value, rest)
  | '\\' :: [] => none
  | c :: s => (scanLiteral s).map fun (value, rest) => (c :: value, rest)

def quoted (c : Char) : Str := if c = '\\' ∨ c = '\'' then [c, c] else [c]

theorem quoted_of_ne (h : c ≠ '\\' ∧ c ≠ '\'') : quoted c = [c] := by
  rw [quoted, if_neg (by simp [h])]

theorem double_double (s : Str) : double '\'' (double '\\' s) = s.flatMap quoted := by
  unfold double
  rw [flatMap_assoc]
  congr
  funext c
  unfold quoted
  by_cases hback : c = '\\'
  . subst hback
    rfl
  . by_cases hquote : c = '\''
    . subst hquote
      rfl
    . simp [hback, hquote]

theorem scanLiteral_quoted (s : Str) (hrest : rest.head? ≠ some '\'')
    : scanLiteral (s.flatMap quoted ++ '\'' :: rest) = some (s, rest) := by
  induction s with
  | nil =>
    rw [flatMap_nil, nil_append, scanLiteral]
    rintro s rfl
    exact hrest rfl
  | cons c s ih =>
    rw [flatMap_cons, append_assoc]
    by_cases hback : c = '\\'
    . subst hback
      simp [quoted, scanLiteral, ih]
    . by_cases hquote : c = '\''
      . subst hquote
        simp [quoted, scanLiteral, ih]
      . rw [quoted_of_ne ⟨hback, hquote⟩, singleton_append, scanLiteral.eq_def]
        split <;> simp_all

theorem remove_quoted (h : c ≠ '\\' ∧ c ≠ '\'') (s : Str)
    : remove c (s.flatMap quoted) = (remove c s).flatMap quoted := by
  unfold remove
  induction s with
  | nil => rfl
  | cons x s ih =>
    rw [flatMap_cons, filter_append, ih, filter_cons]
    by_cases hx : x = c
    . subst hx
      simp [quoted_of_ne h]
    . have hquoted : (quoted x).filter (· ≠ c) = quoted x := by
        unfold quoted
        split <;> simp [hx]
      rw [hquoted, if_pos (decide_eq_true hx), flatMap_cons]

theorem removePair_cons_of_ne (h : c = a → s.head? ≠ some b)
    : removePair a b (c :: s) = c :: removePair a b s := by
  cases s with
  | nil => rfl
  | cons y s =>
    rw [removePair, if_neg]
    rintro ⟨hc, rfl⟩
    exact h hc rfl

theorem removePair_quoted_append (ha : a ≠ '\\' ∧ a ≠ '\'') (h : c = a → s.head? ≠ some b)
    : removePair a b (quoted c ++ s) = quoted c ++ removePair a b s := by
  unfold quoted
  split
  . next hc =>
    have hne : c ≠ a := by
      rintro rfl
      simp [ha] at hc
    rw [cons_append, singleton_append, removePair_cons_of_ne (fun h => absurd h hne),
      removePair_cons_of_ne (fun h => absurd h hne)]
    rfl
  . exact removePair_cons_of_ne h

theorem removePair_quoted (ha : a ≠ '\\' ∧ a ≠ '\'') (hb : b ≠ '\\' ∧ b ≠ '\'') (s : Str)
    : removePair a b (s.flatMap quoted) = (removePair a b s).flatMap quoted := by
  fun_induction removePair a b s with
  | case1 x y s hpair ih =>
    rw [flatMap_cons, flatMap_cons, hpair.1, hpair.2, quoted_of_ne ha, quoted_of_ne hb,
      singleton_append, singleton_append, removePair, if_pos ⟨rfl, rfl⟩, ih]
  | case2 x y s hpair ih =>
    rw [flatMap_cons, removePair_quoted_append ha, ih, flatMap_cons]
    intro hx hy
    have hhead : ((y :: s).flatMap quoted).head? = some y := by
      rw [flatMap_cons, quoted]
      split <;> rfl
    rw [hhead] at hy
    exact hpair ⟨hx, Option.some.inj hy⟩
  | case3 s hs =>
    match s with
    | [] => rfl
    | [x] =>
      rw [flatMap_singleton, ← append_nil (quoted x), removePair_quoted_append ha (by simp)]
      rfl
    | x :: y :: s => exact absurd rfl (hs x y s)

-- The literal ends at the quote behind it, and reads as the query without what was removed.
theorem scanLiteral_ftsSafe (query : Str) (column : Str)
    : scanLiteral (ftsSafe query ++ '\'' :: ',' :: column)
        =
      some (remove '\x00' (removePair '*' '/' (removePair '/' '*' (removePair '-' '-' (remove ';' query)))),
        ',' :: column) := by
  unfold ftsSafe
  dsimp only
  rw [double_double, remove_quoted (by decide), removePair_quoted (by decide) (by decide),
    removePair_quoted (by decide) (by decide), removePair_quoted (by decide) (by decide), remove_quoted (by decide)]
  apply scanLiteral_quoted
  rw [head?_cons]
  decide

end Literal

section Glob

-- The name is compared with the glob exactly if the glob has nothing that only `LIKE` treats
-- specially.
theorem findCond_glob_iff (glob : Str)
    : (∀ (t : SearchTables) (f : FindFilter) (r : InodeRow),
        t.findCond { f with nameGlob := glob } r
          =
        (Glob.accepts glob r.node.name && t.findCond { f with nameGlob := [] } r))
        ↔
      glob ≠ [] ∧ Glob.Plain glob := by
  constructor
  . intro h
    have hname (n : Str) : (glob = [] || Like.accepts (glob.map Glob.toLike) n)
        = Glob.accepts glob n := by
      specialize h ⟨⟨false, [], .empty, .empty, .empty, .empty⟩, .empty, .empty, []⟩
        ⟨[], [], [], [], none, none, 0, 0, 0⟩ ⟨⟨[], [], [], n, false, none, none⟩, [], ⟨0, 0, .confirmed⟩⟩
      delta Glob.toLike
      simpa [SearchTables.findCond, SearchTables.tagCond] using h
    have hne : glob ≠ [] := by
      rintro rfl
      exact absurd (hname ['x']) (by decide)
    have hsample := hname (Glob.sample glob)
    rw [Glob.accepts_sample, Bool.or_true] at hsample
    exact ⟨hne, Glob.plain_of_accepts_sample hsample.symm⟩
  . rintro ⟨hne, hplain⟩ t f r
    have hlike := Glob.accepts_map_toLike hplain r.node.name
    unfold SearchTables.findCond
    dsimp only
    rw [← hlike, decide_eq_false hne, Bool.false_or, decide_eq_true rfl, Bool.true_or,
      Bool.and_true]
    simp only [Bool.and_assoc]
    exact Bool.and_left_comm _ _ _

theorem underscore_matches_any
    : SearchTables.findCond ⟨⟨false, [], .empty, .empty, .empty, .empty⟩, .empty, .empty, []⟩
          ⟨[], ['a', '_', 'c'], [], [], none, none, 0, 0, 0⟩
          ⟨⟨[], ['/', 'a', 'b', 'c'], ['/'], ['a', 'b', 'c'], false, none, none⟩, [], ⟨0, 1, .confirmed⟩⟩ = true
      ∧ Glob.accepts ['a', '_', 'c'] ['a', 'b', 'c'] = false := by
  decide

end Glob

end Datastore
