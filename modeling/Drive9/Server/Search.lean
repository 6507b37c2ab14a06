import Drive9.Backend.Search
import Drive9.Datastore.Subtree
import Drive9.Server.Authorization.Lemmas

/-!
This module contains the search handlers.
-/

open List

namespace Server

open Datastore Backend Pathutil Str

inductive SearchError where
  | unauthorized (err : FSError)
  | emptyGrepQuery
  | grep (err : GrepError)
  | find (err : StoreError)
  deriving DecidableEq

section Handlers

variable (nfc : Str → Str) (s : Option TenantScope)

def handleGrep (engine : Engine) (config : SearchConfig) (t : SearchTables) (path query : Str)
    (limit : Int)
    : Except SearchError (List SearchResult) :=
  match authorizeFS nfc s fsOpSearch path with
  | .error err => .error (.unauthorized err)
  | .ok () =>
    if query = [] then
      .error .emptyGrepQuery
    else
      match grep engine config t query path limit with
      | .error err => .error (.grep err)
      | .ok results => .ok results

def handleFind (t : SearchTables) (path : Str) (f : FindFilter)
    : Except SearchError (List SearchResult) :=
  match authorizeFS nfc s fsOpSearch path with
  | .error err => .error (.unauthorized err)
  | .ok () =>
    match t.find { f with pathPrefix := path } with
    | .error err => .error (.find err)
    | .ok results => .ok results

end Handlers

def InSubtree (p q : Str) : Prop := q = p ∨ p ++ ['/'] <+: q

-- The path of every node is in the form of its kind.
structure PathsCanonical (nfc : Str → Str) (t : SearchTables) : Prop where
  file : ∀ n ∈ t.db.fileNodes, n.isDirectory = false → canonicalize nfc n.path = .ok n.path
  dir : ∀ n ∈ t.db.fileNodes, n.isDirectory = true → canonicalizeDir nfc n.path = .ok n.path

structure SearchesInSubtree (nfc : Str → Str) (p : Str) : Prop where
  fts : ∀ engine t, PathsCanonical nfc t
    → ∀ query limit out, t.ftsSearch engine query p limit = .ok out
    → ∀ res ∈ out, InSubtree p res.path
  keyword : ∀ t, PathsCanonical nfc t → ∀ query limit out, t.keywordSearch query p limit = .ok out
    → ∀ res ∈ out, InSubtree p res.path
  vector : ∀ engine t, PathsCanonical nfc t → ∀ queryEmbedding limit out,
    t.vectorSearch engine queryEmbedding p limit = .ok out → ∀ res ∈ out, InSubtree p res.path
  vectorByText : ∀ engine t, PathsCanonical nfc t → ∀ queryText limit out,
    t.vectorSearchByText engine queryText p limit = .ok out → ∀ res ∈ out, InSubtree p res.path
  vectorDescription : ∀ engine t, PathsCanonical nfc t → ∀ queryEmbedding limit out,
    t.vectorSearchDescription engine queryEmbedding p limit = .ok out → ∀ res ∈ out, InSubtree p res.path
  vectorDescriptionByText : ∀ engine t, PathsCanonical nfc t → ∀ queryText limit out,
    t.vectorSearchDescriptionByText engine queryText p limit = .ok out → ∀ res ∈ out, InSubtree p res.path
  find : ∀ (t : SearchTables), PathsCanonical nfc t
    → ∀ (f : FindFilter) out, t.find { f with pathPrefix := p } = .ok out
    → ∀ res ∈ out, InSubtree p res.path

variable {nfc : Str → Str} {p : Str}

structure Below (nfc : Str → Str) (p : Str) (segs : List Str) : Prop where
  ne : segs ≠ []
  good : ∀ s ∈ segs, GoodSegment nfc s
  eq : p = render segs

theorem below_of_canonicalize (laws : NfcLaws nfc) (hcanon : canonicalize nfc p = .ok p)
    (hroot : p ≠ ['/'])
    : ∃ segs, Below nfc p segs := by
  rw [canonicalize_eq_ok_iff laws] at hcanon
  obtain ⟨hgood, hp⟩ := hcanon
  split at hp
  . contradiction
  . next hne =>
    refine ⟨(segments p).map nfc, ?_, ?_, hp⟩
    . intro hnil
      rw [hnil] at hp
      exact hne (.inl hp)
    . intro s hs
      obtain ⟨s', hs', rfl⟩ := mem_map.mp hs
      exact hgood.segment laws hs'

namespace Below

variable {segs : List Str} (hp : Below nfc p segs)

include hp

theorem segments_eq : segments p = segs := by
  rw [hp.eq]
  exact segments_render fun s hs => (hp.good s hs).segment

theorem ne_nil : p ≠ [] := by
  intro hnil
  have hsegs := hp.segments_eq
  rw [hnil] at hsegs
  exact hp.ne hsegs.symm

theorem ne_slash : p ≠ ['/'] := by
  rw [hp.eq]
  exact render_ne_slash fun s hs => (hp.good s hs).segment

theorem noBackslash : '\\' ∉ p := by
  rw [hp.eq]
  exact (goodRaw_render hp.good).noBackslash

theorem rdropWhile : p.rdropWhile (· = '/') = p := by
  rw [rdropWhile_eq_self_iff]
  intro hne hlast
  have hlast? : p.getLast? ≠ some '/' := by
    rw [hp.eq]
    exact getLast?_render fun s hs => (hp.good s hs).segment
  rw [getLast?_eq_some_getLast hne, of_decide_eq_true hlast] at hlast?
  contradiction

theorem pathCond_iff (q : Str)
    : pathCond p q = true ↔ q = p ∨ Like.accepts (p ++ ['/'] ++ ['%']) q = true := by
  unfold pathCond subtreeCond
  rw [if_pos ⟨hp.ne_nil, hp.ne_slash⟩, if_pos hp.ne_slash, hp.rdropWhile, append_assoc]
  simp

theorem pathCond_iff_inSubtree (hunderscore : '_' ∉ p) (hpercent : '%' ∉ p) (q : Str)
    : pathCond p q = true ↔ InSubtree p q := by
  have hliteral : ∀ c ∈ p ++ ['/'], Like.literal c := by
    intro c hc
    cases mem_append.mp hc with
    | inl hc =>
      unfold Like.literal
      simp only [ne_eq, Bool.and_eq_true, decide_eq_true_eq]
      refine ⟨⟨?_, ?_⟩, ?_⟩
      all_goals
        rintro rfl
      . exact hpercent hc
      . exact hunderscore hc
      . exact hp.noBackslash hc
    | inr hc =>
      rw [mem_singleton.mp hc]
      decide
  rw [hp.pathCond_iff, Like.accepts_literal hliteral]
  rfl

theorem searchesInSubtree (hunderscore : '_' ∉ p) (hpercent : '%' ∉ p)
    : SearchesInSubtree nfc p := by
  have hfinds : ∀ (t : SearchTables) (res : SearchResult), t.Finds p res
      → InSubtree p res.path := by
    rintro t res ⟨n, _, hpath, hcond⟩
    rw [hpath]
    exact (hp.pathCond_iff_inSubtree hunderscore hpercent n.path).mp hcond
  constructor
  case fts => exact fun _ t _ _ _ _ h res hres => hfinds t res (SearchTables.finds_of_ftsSearch h res hres)
  case keyword => exact fun t _ _ _ _ h res hres => hfinds t res (SearchTables.finds_of_keywordSearch h res hres)
  case find => exact fun t _ _ _ h res hres => hfinds t res (SearchTables.finds_of_find h res hres)
  case vector => exact fun _ t _ _ _ _ h res hres => hfinds t res (SearchTables.finds_of_searchByVector h res hres)
  case vectorDescription =>
    exact fun _ t _ _ _ _ h res hres => hfinds t res (SearchTables.finds_of_searchByVector h res hres)
  all_goals exact fun _ t _ _ _ _ h res hres => hfinds t res (SearchTables.finds_of_searchByText h res hres)

end Below

section Wildcard

def neighbour (p : Str) : FileNode :=
  { nodeID := [], path := p.map dash ++ "/x".toList, parentPath := [], name := ['x'], isDirectory := false,
    fileID := some ['f'], inodeID := some ['f'] }

def neighbourTables (p : Str) : SearchTables :=
  { db := { siblingDb [] with fileNodes := [neighbour p], inodes := FMap.empty.set ['f'] ⟨0, 1, .confirmed⟩ }
    confirmedAt := .empty
    semantic := .empty
    fileTags := [] }

def noFilter : FindFilter :=
  { pathPrefix := [], nameGlob := [], tagKey := [], tagValue := [], after := none, before := none, minSize := 0,
    maxSize := 0, limit := 0 }

variable {segs : List Str} (hp : Below nfc p segs)

include hp

theorem pathsCanonical_neighbourTables (laws : NfcLaws nfc)
    : PathsCanonical nfc (neighbourTables p) := by
  have hsegs : (neighbour p).path = render (segs.map (List.map dash) ++ [['x']]) := by
    rw [render_append, ← map_dash_render, ← hp.eq]
    rfl
  have hgood : ∀ s ∈ segs.map (List.map dash) ++ [['x']], GoodSegment nfc s := by
    intro s hs
    cases mem_append.mp hs with
    | inl hs =>
      obtain ⟨s', hs', rfl⟩ := mem_map.mp hs
      exact goodSegment_map_dash laws (hp.good s' hs')
    | inr hs =>
      rw [mem_singleton.mp hs]
      exact ⟨⟨by decide, by decide⟩, by decide, by simp, by decide, laws.ascii _ (by simp)⟩
  constructor
  . intro n hn _
    rw [mem_singleton.mp hn, hsegs]
    exact canonicalize_render laws (append_ne_nil_of_right_ne_nil _ (cons_ne_nil _ _)) hgood
  . intro n hn hdir
    rw [mem_singleton.mp hn] at hdir
    contradiction

theorem accepts_neighbour : Like.accepts (p ++ ['/'] ++ ['%']) (neighbour p).path = true := by
  have hpath : (neighbour p).path = (p ++ ['/']).map dash ++ ['x'] := by
    rw [map_append, append_assoc]
    rfl
  rw [hpath]
  apply Like.accepts_map_append dash dash_of_literal
  rw [mem_append, not_or]
  exact ⟨hp.noBackslash, by decide⟩

theorem pathCond_neighbour : pathCond p (neighbour p).path = true := by
  rw [hp.pathCond_iff]
  exact .inr (accepts_neighbour hp)

theorem find_neighbour
    : (neighbourTables p).find { noFilter with pathPrefix := p }
      = .ok [InodeRow.result ⟨neighbour p, ['f'], ⟨0, 1, .confirmed⟩⟩ none] := by
  have hrows : (neighbourTables p).inodeRows = [⟨neighbour p, ['f'], ⟨0, 1, .confirmed⟩⟩] := rfl
  unfold SearchTables.find
  rw [hrows, filter_singleton]
  unfold InodeRow.found
  rw [pathCond_neighbour hp]
  rfl

omit hp

theorem not_inSubtree_neighbour (hwild : '_' ∈ p ∨ '%' ∈ p) : ¬ InSubtree p (neighbour p).path := by
  have hpath : (neighbour p).path = p.map dash ++ ['/'] ++ ['x'] := by
    rw [append_assoc]
    rfl
  rw [hpath]
  rintro (heq | hprefix)
  . have hlen := congrArg List.length heq
    simp at hlen
  . have hprefix : p ++ ['/'] <+: p.map dash ++ ['/'] := by
      apply prefix_of_prefix_length_le hprefix (prefix_append _ _)
      simp
    have heq := hprefix.eq_of_length (by simp)
    exact map_dash_ne_self hwild (append_cancel_right heq).symm

end Wildcard

section Authorized

variable {rows : List APIKeyFSScope} {scopes : List FSScope} {op : FSOp}

theorem trimPrefix_colon {q : Str} (h : q.head? ≠ some ':') : q.trimPrefix [':'] = q := by
  unfold trimPrefix
  rw [if_neg]
  rintro ⟨rest, rfl⟩
  exact h rfl

theorem allowed_of_inSubtree (laws : NfcLaws nfc) (hscopes : fsScopesFromMeta nfc rows = .ok scopes)
    (hp : Below nfc p segs) (hallowed : Allowed nfc scopes op p) (hq : GoodRaw q)
    (hin : InSubtree p q)
    : Allowed nfc scopes op q := by
  have hbuilt : ∀ scope ∈ scopes, Built nfc scope := fun scope hmem => built_of_mem hscopes hmem
  have hhead : p.head? = some '/' := by
    rw [hp.eq]
    cases segs with
    | nil => exact absurd rfl hp.ne
    | cons s segs => rfl
  have hp' : canonicalize nfc p = .ok p := by
    rw [hp.eq]
    exact canonicalize_render laws hp.ne hp.good
  rw [allowed_iff laws hbuilt, trimPrefix_colon (by rw [hhead]; decide)] at hallowed
  obtain ⟨_, hcanon, scope, hmem, hgrants, hprefix⟩ := hallowed
  rw [hp'] at hcanon
  cases hcanon
  cases hin with
  | inl heq =>
    rw [heq, allowed_iff laws hbuilt, trimPrefix_colon (by rw [hhead]; decide)]
    exact ⟨p, hp', scope, hmem, hgrants, hprefix⟩
  | inr hin =>
    obtain ⟨rest, rfl⟩ := hin
    have hseg : segments (p ++ ['/'] ++ rest) = segs ++ segments rest := by
      rw [append_assoc, singleton_append, segments_append_slash, hp.segments_eq]
    have hhead' : (p ++ ['/'] ++ rest).head? = some '/' := by
      cases p with
      | nil => contradiction
      | cons c p => exact hhead
    rw [allowed_iff laws hbuilt, trimPrefix_colon (by rw [hhead']; decide)]
    refine ⟨_, (canonicalize_eq_ok_iff laws).mpr ⟨hq, rfl⟩, scope, hmem, hgrants, hprefix.trans ?_⟩
    rw [if_neg, segments_render, hseg, map_append, render_map_nfc hp.good, hp.segments_eq]
    . exact prefix_append _ _
    . intro s hs
      obtain ⟨s', hs', rfl⟩ := mem_map.mp hs
      exact (hq.segment laws hs').segment
    . rintro (h | h)
      . rw [h] at hhead'
        contradiction
      . have hlen := congrArg List.length h
        have := length_pos_of_ne_nil hp.ne_nil
        simp at hlen
        omega

theorem goodRaw_of_pathsCanonical (h : PathsCanonical nfc t) (hn : n ∈ t.db.fileNodes)
    : GoodRaw n.path := by
  cases hdir : n.isDirectory with
  | false => exact goodRaw_of_canonicalizeAs nfc (h.file n hn hdir)
  | true => exact goodRaw_of_canonicalizeAs nfc (h.dir n hn hdir)

end Authorized

/--
For every scoped token and canonical path that it may search: all searches stay in the subtree of
the path if and only if the path has no wildcard of `LIKE`, and then the handlers return only what
the token may search.
-/
theorem search_stays_in_subtree_iff_no_wildcard (nfc : Str → Str) (laws : NfcLaws nfc)
    (rows : List APIKeyFSScope)
    (scopes : List FSScope) (hscopes : fsScopesFromMeta nfc rows = .ok scopes) (p : Str)
    (hcanon : canonicalize nfc p = .ok p) (hroot : p ≠ ['/'])
    (hallowed : authorizeFS nfc (some ⟨true, scopes⟩) fsOpSearch p = .ok ())
    : (SearchesInSubtree nfc p ↔ '_' ∉ p ∧ '%' ∉ p)
      ∧ ('_' ∉ p ∧ '%' ∉ p → ∀ t, PathsCanonical nfc t
          → (∀ engine config query limit out,
              handleGrep nfc (some ⟨true, scopes⟩) engine config t p query limit = .ok out
              → ∀ res ∈ out, authorizeFS nfc (some ⟨true, scopes⟩) fsOpSearch res.path = .ok ())
            ∧ ∀ f out, handleFind nfc (some ⟨true, scopes⟩) t p f = .ok out
              → ∀ res ∈ out, authorizeFS nfc (some ⟨true, scopes⟩) fsOpSearch res.path
                = .ok ()) := by
  obtain ⟨segs, hp⟩ := below_of_canonicalize laws hcanon hroot
  refine ⟨⟨?_, ?_⟩, ?_⟩
  . intro h
    by_contra hwild
    have hin := h.find (neighbourTables p) (pathsCanonical_neighbourTables hp laws) noFilter _ (find_neighbour hp) _
      (List.mem_singleton_self _)
    exact not_inSubtree_neighbour (by tauto) hin
  . rintro ⟨hunderscore, hpercent⟩
    exact hp.searchesInSubtree hunderscore hpercent
  . rintro ⟨hunderscore, hpercent⟩ t hpaths
    have hfinds : ∀ res, t.Finds p res → Allowed nfc scopes fsOpSearch res.path := by
      rintro res ⟨n, hn, hpath, hcond⟩
      rw [hpath]
      apply allowed_of_inSubtree laws hscopes hp hallowed (goodRaw_of_pathsCanonical hpaths hn)
      exact (hp.pathCond_iff_inSubtree hunderscore hpercent n.path).mp hcond
    refine ⟨?_, ?_⟩
    . intro engine config query limit out h res hres
      unfold handleGrep at h
      rw [hallowed] at h
      dsimp only at h
      split at h
      . contradiction
      . split at h
        . contradiction
        . next results hgrep =>
          cases h
          exact hfinds res (finds_of_grep hgrep res hres)
    . intro f out h res hres
      unfold handleFind at h
      rw [hallowed] at h
      dsimp only at h
      split at h
      . contradiction
      . next results hfind =>
        cases h
        exact hfinds res (SearchTables.finds_of_find hfind res hres)

theorem search_stays_in_subtree_iff_no_wildcard_docs
    : ∃ scopes, fsScopesFromMeta id [⟨"/docs".toList, "read,search".toList⟩] = .ok scopes
        ∧ authorizeFS id (some ⟨true, scopes⟩) fsOpSearch "/docs/a".toList = .ok ()
        ∧ SearchesInSubtree id "/docs/a".toList := by
  refine ⟨_, rfl, by decide +kernel, ?_⟩
  have hsearch := search_stays_in_subtree_iff_no_wildcard id nfcLaws_id [⟨"/docs".toList, "read,search".toList⟩] _ rfl
    "/docs/a".toList (by decide +kernel) (by decide) (by decide +kernel)
  exact hsearch.1.mpr (by decide)

def axbTables : SearchTables :=
  { neighbourTables [] with
    db := { siblingDb [] with
      fileNodes := [⟨['1'], "/axb/k".toList, "/axb/".toList, "k".toList, false, some ['f'], some ['f']⟩]
      inodes := FMap.empty.set ['f'] ⟨3, 1, .confirmed⟩ } }

-- A token for `/a_b` finds a file of the neighbour, which it may not read.
theorem underscore_finds_neighbour
    : ∃ scopes, fsScopesFromMeta id [⟨"/a_b".toList, "read,search".toList⟩] = .ok scopes
        ∧ canonicalize id "/a_b".toList = .ok "/a_b".toList
        ∧ PathsCanonical id axbTables
        ∧ (∃ out, handleFind id (some ⟨true, scopes⟩) axbTables "/a_b".toList noFilter = .ok out
            ∧ out.map (·.path) = ["/axb/k".toList])
        ∧ ¬ InSubtree "/a_b".toList "/axb/k".toList
        ∧ authorizeFS id (some ⟨true, scopes⟩) fsOpRead "/axb/k".toList = .error .accessDenied := by
  have hpaths : PathsCanonical id axbTables := by
    constructor
    . decide +kernel
    . decide +kernel
  have hout : ¬ InSubtree "/a_b".toList "/axb/k".toList := by
    unfold InSubtree
    decide
  exact ⟨_, rfl, by decide +kernel, hpaths, ⟨_, rfl, rfl⟩, hout, by decide +kernel⟩

end Server
