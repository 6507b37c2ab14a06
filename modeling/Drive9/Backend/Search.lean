import Drive9.Datastore.Search.Lemmas

/-!
This module contains `Grep` of the backend: the full-text and the vector searches run side by side,
each may fail alone, and the keyword search is the fallback when they find nothing.
-/

namespace Backend

open Datastore
open Journal (trimSpace)

structure SearchConfig where
  usesDatabaseAutoEmbedding : Bool
  -- `queryEmbedder.EmbedText`
  queryEmbedder : Option (Str → Option Embedding)

inductive GrepError where
  | emptyQuery
  | store (err : StoreError)
  deriving DecidableEq

def rowsOf (resp : Except StoreError (List SearchResult)) : List SearchResult :=
  match resp with
  | .error _ => []
  | .ok rows => rows

def betterScore (existing r : SearchResult) : Bool :=
  match existing.score, r.score with
  | none, _ => true
  | some _, none => false
  | some x, some y => y > x

def keepBetter (best : FMap Str SearchResult) (r : SearchResult) : FMap Str SearchResult :=
  match best.get? r.path with
  | some existing => if betterScore existing r then best.set r.path r else best
  | none => best.set r.path r

def mergeVectorResults (a b : List SearchResult) : List SearchResult :=
  let best : FMap Str SearchResult := a.foldl (fun best r => best.set r.path r) .empty
  let best := b.foldl keepBetter best
  (best.toList.map Prod.snd).insertionSort fun a b => byScore a b

def grepMerge (ftsRows vecRows vecDescRows : List SearchResult) (limit : Nat)
    : Option (List SearchResult) :=
  let mergedVec := mergeVectorResults vecRows vecDescRows
  if ftsRows = [] ∧ mergedVec = [] then none else some (rrfMerge ftsRows mergedVec limit)

section Grep

variable (engine : Engine) (config : SearchConfig) (t : SearchTables)

def vectorResponses (query pathPrefix : Str) (fetch : Int)
    : List SearchResult × List SearchResult :=
  if config.usesDatabaseAutoEmbedding then
    (rowsOf (t.vectorSearchByText engine query pathPrefix fetch),
      rowsOf (t.vectorSearchDescriptionByText engine query pathPrefix fetch))
  else
    match config.queryEmbedder.bind fun embedText => embedText query with
    | none => ([], [])
    | some queryVec =>
      (rowsOf (t.vectorSearch engine queryVec pathPrefix fetch),
        rowsOf (t.vectorSearchDescription engine queryVec pathPrefix fetch))

def grep (query pathPrefix : Str) (limit : Int) : Except GrepError (List SearchResult) :=
  if trimSpace query = [] then
    .error .emptyQuery
  else
    let limit := if limit ≤ 0 ∨ limit > 100 then 20 else limit
    let fetch := limit * 3
    let ftsRows := rowsOf (t.ftsSearch engine query pathPrefix fetch)
    let (vecRows, vecDescRows) := vectorResponses engine config t query pathPrefix fetch
    match grepMerge ftsRows vecRows vecDescRows limit.toNat with
    | some rows => .ok rows
    | none =>
      match t.keywordSearch query pathPrefix limit with
      | .error err => .error (.store err)
      | .ok rows => .ok rows

end Grep

theorem mem_of_mem_mergeVectorResults (h : res ∈ mergeVectorResults a b) : res ∈ a ∨ res ∈ b := by
  unfold mergeVectorResults at h
  rw [List.mem_insertionSort] at h
  obtain ⟨⟨k, r⟩, hr, rfl⟩ := List.mem_map.mp h
  rw [FMap.mem_toList] at hr
  apply mem_of_get?_merged _ hr
  intro best r k v hv
  unfold keepBetter at hv
  split at hv
  . split at hv
    . exact get?_set_path hv
    . exact .inl hv
  . exact get?_set_path hv

section Finds

variable {engine : Engine} {config : SearchConfig} {t : SearchTables} {pathPrefix : Str}

theorem finds_of_mem_rowsOf (h : ∀ out, resp = .ok out → ∀ res ∈ out, t.Finds pathPrefix res)
    : ∀ res ∈ rowsOf resp, t.Finds pathPrefix res := by
  unfold rowsOf
  split
  . intro res hres
    contradiction
  . next rows => exact h rows rfl

theorem finds_of_vectorResponses (query : Str) (fetch : Int)
    : (∀ res ∈ (vectorResponses engine config t query pathPrefix fetch).1, t.Finds pathPrefix res)
      ∧ ∀ res ∈ (vectorResponses engine config t query pathPrefix fetch).2, t.Finds pathPrefix res := by
  unfold vectorResponses
  split
  . exact ⟨finds_of_mem_rowsOf fun _ => SearchTables.finds_of_searchByText,
      finds_of_mem_rowsOf fun _ => SearchTables.finds_of_searchByText⟩
  . split
    . refine ⟨?_, ?_⟩
      all_goals
        intro res hres
        contradiction
    . exact ⟨finds_of_mem_rowsOf fun _ => SearchTables.finds_of_searchByVector,
        finds_of_mem_rowsOf fun _ => SearchTables.finds_of_searchByVector⟩

theorem finds_of_grepMerge (h : grepMerge ftsRows vecRows vecDescRows limit = some rows)
    (hfts : ∀ res ∈ ftsRows, t.Finds pathPrefix res)
    (hvec : ∀ res ∈ vecRows, t.Finds pathPrefix res)
    (hdesc : ∀ res ∈ vecDescRows, t.Finds pathPrefix res)
    : ∀ res ∈ rows, t.Finds pathPrefix res := by
  unfold grepMerge at h
  dsimp only at h
  split at h
  . contradiction
  . cases h
    intro res hres
    obtain ⟨r, hr, hpath⟩ := path_of_mem_rrfMerge hres
    have hr : t.Finds pathPrefix r := by
      cases hr with
      | inl hr => exact hfts r hr
      | inr hr =>
        cases mem_of_mem_mergeVectorResults hr with
        | inl hr => exact hvec r hr
        | inr hr => exact hdesc r hr
    obtain ⟨n, hn, hrn, hcond⟩ := hr
    exact ⟨n, hn, hpath.trans hrn, hcond⟩

theorem finds_of_grep (h : grep engine config t query pathPrefix limit = .ok out)
    : ∀ res ∈ out, t.Finds pathPrefix res := by
  unfold grep at h
  split at h
  . contradiction
  . dsimp only at h
    split at h
    . next rows hmerge =>
      cases h
      apply finds_of_grepMerge hmerge
      . exact finds_of_mem_rowsOf fun _ => SearchTables.finds_of_ftsSearch
      . exact (finds_of_vectorResponses query _).1
      . exact (finds_of_vectorResponses query _).2
    . split at h
      . contradiction
      . next rows hrows =>
        cases h
        exact SearchTables.finds_of_keywordSearch hrows

end Finds

end Backend
