import Drive9.Backend.Namespace.Lemmas
import Drive9.Server.Search
import Drive9.Server.Sources.Impl

/-!
This module contains the proof of when the path that a handler authorizes is the path that the
backend touches.
-/

open List

namespace Server

open Datastore Backend Pathutil Str

-- `:`, `_` and `%` neither compose with what is before them nor with what follows.
structure NfcInert (nfc : Str → Str) : Prop where
  inert : ∀ c, c = ':' ∨ c = '_' ∨ c = '%' → ∀ a b, nfc (a ++ c :: b) = nfc a ++ c :: nfc b

structure RowsOk (nfc : Str → Str) (nodes : List FileNode) : Prop where
  keys : KeysOk nodes
  dirs : ∀ n ∈ nodes, n.isDirectory = true → canonicalize nfc n.path = .ok n.path → n.path = ['/']

/--
What the request looks up because of `r` is the file or the directory that `p` denotes, and what it
moves is this or below it.
-/
def SourceRequest.TouchesOnly (nfc : Str → Str) (dirID : Str → ID) (req : SourceRequest) (r p : Str)
    : Prop :=
  ∀ s : FileStore, RowsOk nfc s.db.fileNodes
    → (∀ n, req.named nfc s r = some n → n.path = p ∨ n.path = dirForm true p)
      ∧ ∀ n ∈ req.moved nfc dirID s r, n.path = p ∨ dirForm true p <+: n.path

-- A rename to the path it comes from does nothing.
def SourceRequest.Plain (nfc : Str → Str) (req : SourceRequest) (r : Str) : Prop :=
  r.head? ≠ some ':'
    ∧ ∀ newPath, req = .rename newPath → ('_' ∉ r ∧ '%' ∉ r)
      ∨ canonicalizeDir nfc newPath = canonicalizeDir nfc r

section Segments

variable {nfc : Str → Str} {raw p : Str}

theorem exists_first_segment (body : Str)
    : ∃ a b, '/' ∉ a ∧ ∀ front : Str, segments (front ++ body) = segments (front ++ a) ++ segments b := by
  have ha : '/' ∉ body.takeWhile (· ≠ '/') := by
    intro hmem
    have := mem_takeWhile_imp hmem
    simp at this
  cases hrest : body.dropWhile (· ≠ '/') with
  | nil =>
    refine ⟨body.takeWhile (· ≠ '/'), [], ha, ?_⟩
    intro front
    rw [segments_nil, append_nil]
    congr 2
    conv => lhs; rw [← takeWhile_append_dropWhile (p := (· ≠ '/')) (l := body), hrest, append_nil]
  | cons c b =>
    have hc : c = '/' := by
      have := head?_dropWhile_not (· ≠ '/') body
      rw [hrest] at this
      simpa using this
    refine ⟨body.takeWhile (· ≠ '/'), b, ha, ?_⟩
    intro front
    rw [← segments_append_slash, append_assoc]
    congr 2
    conv => lhs; rw [← takeWhile_append_dropWhile (p := (· ≠ '/')) (l := body), hrest, hc]

theorem segments_colon (ha : '/' ∉ a) : segments ([':'] ++ a) = [':' :: a] := by
  apply segments_segment
  refine ⟨cons_ne_nil _ _, ?_⟩
  rw [mem_append, not_or]
  exact ⟨by decide, ha⟩

theorem goodRaw_colon (h : GoodRaw body) : GoodRaw (':' :: body) := by
  obtain ⟨a, b, ha, hseg⟩ := exists_first_segment body
  constructor
  . intro c hc
    cases mem_cons.mp hc with
    | inl hc =>
      rw [hc]
      decide
    | inr hc => exact h.noControl c hc
  . intro hc
    cases mem_cons.mp hc with
    | inl hc => contradiction
    | inr hc => exact h.noBackslash hc
  . intro s hs
    have hcolon : segments (':' :: body) = (':' :: a) :: segments b := by
      rw [← singleton_append, hseg [':'], segments_colon ha]
      rfl
    rw [hcolon] at hs
    cases mem_cons.mp hs with
    | inl hs =>
      rw [hs]
      refine ⟨?_, ?_⟩
      all_goals
        intro heq
        exact absurd (List.cons.inj heq).1 (by decide)
    | inr hs =>
      apply h.noDot s
      have := hseg []
      rw [nil_append] at this
      rw [this]
      exact mem_append_right _ hs

theorem segments_colon_ne (laws : NfcLaws nfc) (hinert : NfcInert nfc) (body : Str)
    : (segments (':' :: body)).map nfc ≠ (segments body).map nfc := by
  obtain ⟨a, b, ha, hseg⟩ := exists_first_segment body
  have hbody : segments body = segments a ++ segments b := hseg []
  have hcolon : segments (':' :: body) = (':' :: a) :: segments b := by
    rw [← singleton_append, hseg [':'], segments_colon ha]
    rfl
  have hnfc : nfc (':' :: a) = ':' :: nfc a := by
    have := hinert.inert ':' (.inl rfl) [] a
    rwa [laws.nil] at this
  rw [hbody, hcolon, map_cons, map_append, hnfc]
  by_cases hne : a = []
  . subst hne
    intro heq
    have hlen := congrArg List.length heq
    simp [segments_nil] at hlen
  . rw [segments_segment ⟨hne, ha⟩]
    intro heq
    have hlen := congrArg List.length (List.cons.inj heq).1
    simp at hlen

theorem goodRaw_of_trimPrefix (h : GoodRaw (r.trimPrefix [':'])) : GoodRaw r := by
  by_cases hcolon : r.head? = some ':'
  . cases r with
    | nil => contradiction
    | cons c body =>
      rw [head?_cons, Option.some.injEq] at hcolon
      subst hcolon
      have htrim : trimPrefix (':' :: body) [':'] = body := by
        unfold trimPrefix
        rw [if_pos ⟨body, rfl⟩]
        rfl
      rw [htrim] at h
      exact goodRaw_colon h
  . rwa [trimPrefix_colon hcolon] at h

theorem wildcard_of_raw (laws : NfcLaws nfc) (hinert : NfcInert nfc)
    (h : canonicalize nfc raw = .ok p) (hc : c = '_' ∨ c = '%') (hmem : c ∈ raw)
    : c ∈ p := by
  have hslash : c ≠ '/' := by
    rintro rfl
    simp at hc
  obtain ⟨s, hs, hmem⟩ := exists_segment_of_mem hslash hmem
  obtain ⟨a, b, hab⟩ := append_of_mem hmem
  have hnfc : c ∈ nfc s := by
    rw [hab, hinert.inert c (.inr hc)]
    simp
  have hp : nfc s ∈ segments p := by
    rw [segments_of_canonicalize laws h]
    exact mem_map_of_mem hs
  exact mem_of_mem_segments hp hnfc

theorem below_of_wildcard (laws : NfcLaws nfc) (h : canonicalize nfc raw = .ok p)
    (hwild : '_' ∈ p ∨ '%' ∈ p)
    : ∃ segs, Below nfc p segs := by
  obtain ⟨hgood, hp⟩ := (canonicalize_eq_ok_iff laws).mp h
  split at hp
  . rw [hp] at hwild
    simp at hwild
  . refine ⟨_, ?_, hgood.segments_map laws, hp⟩
    intro hnil
    rw [hp, hnil] at hwild
    simp at hwild

end Segments

namespace SourceRequest

variable {nfc : Str → Str} {dirID : Str → ID} {req : SourceRequest} {r p : Str} {s : FileStore}

section Plain

section

variable (laws : NfcLaws nfc)

include laws

section

variable (hp : canonicalize nfc r = .ok p)

include hp

theorem path_of_named (h : req.named nfc s r = some n) : n.path = p ∨ n.path = dirForm true p := by
  cases req with
  | copy dstPath =>
    unfold named at h
    rw [hp] at h
    dsimp only at h
    split at h
    . next heq _ =>
      cases heq
      split at h
      . contradiction
      . exact .inl (Db.mem_of_node? h).2
    . contradiction
  | rename newPath =>
    unfold named at h
    dsimp only at h
    split at h
    . contradiction
    . obtain ⟨⟨path, node⟩, hresolve, rfl⟩ := Option.map_eq_some_iff.mp h
      have hpath := (Db.mem_of_node? (of_resolveNodePath hresolve).1).2
      rw [hpath]
      cases path_of_resolveNodePath laws hp hresolve with
      | inl h => exact .inr h
      | inr h => exact .inl h.2
  | batchRead =>
    unfold named at h
    rw [hp] at h
    exact .inl (Db.mem_of_node? h).2

theorem canonicalize_of_not_isDir (hne : r ≠ []) (hdir : isDir r = false)
    : canonicalize nfc p = .ok p ∧ p ≠ ['/'] := by
  obtain ⟨hgood, heq⟩ := (canonicalize_eq_ok_iff laws).mp hp
  unfold isDir at hdir
  rw [Bool.or_eq_false_iff, decide_eq_false_iff_not, decide_eq_false_iff_not] at hdir
  rw [if_neg (by tauto)] at heq
  have hsegs : (segments r).map nfc ≠ [] := by
    have hlast : r.getLast hne ≠ '/' := by
      intro hlast
      rw [getLast?_eq_some_getLast hne, hlast] at hdir
      exact hdir.2 rfl
    obtain ⟨s, hs, _⟩ := exists_segment_of_mem hlast (getLast_mem hne)
    exact ne_nil_of_mem (mem_map_of_mem hs)
  have hsegments := hgood.segments_map laws
  rw [heq]
  exact ⟨canonicalize_render laws hsegs hsegments,
    render_ne_slash fun s hs => (hsegments s hs).segment⟩

theorem path_of_directory (hrows : RowsOk nfc s.db.fileNodes)
    (hne : r ≠ []) (hresolve : resolveNodePath nfc s.db r = some (oldPath, node))
    (hdirectory : node.isDirectory = true)
    : oldPath = dirForm true p := by
  obtain ⟨hmem, hpath⟩ := Db.mem_of_node? (of_resolveNodePath hresolve).1
  obtain hold | ⟨hfile, hold⟩ := path_of_resolveNodePath laws hp hresolve
  . exact hold
  . obtain ⟨hcanon, hroot⟩ := canonicalize_of_not_isDir laws hp hne hfile
    have hdir := hrows.dirs node hmem hdirectory
    rw [hpath, hold] at hdir
    exact absurd (hdir hcanon) hroot

theorem path_of_moved (hrows : RowsOk nfc s.db.fileNodes) (hplain : ∀ newPath, req = .rename newPath
      → ('_' ∉ r ∧ '%' ∉ r) ∨ canonicalizeDir nfc newPath = canonicalizeDir nfc r)
    : ∀ n ∈ req.moved nfc dirID s r, n.path = p ∨ dirForm true p <+: n.path := by
  intro n hn
  cases req with
  | copy | batchRead => contradiction
  | rename newPath =>
    specialize hplain newPath rfl
    unfold moved at hn
    dsimp only at hn
    split at hn
    . contradiction
    . next hne =>
      split at hn
      . contradiction
      . next oldPath node hresolve =>
        split at hn
        . contradiction
        . next hmoves =>
          split at hn
          . next hdirectory =>
            have hold := path_of_directory laws hp hrows hne hresolve hdirectory
            subst hold
            right
            cases hplain with
            | inl hplain =>
              exact (inDir_iff (literal_dirForm laws hp hplain) n).mp (mem_selected.mp hn).2
            | inr hplain =>
              refine absurd ?_ hmoves
              unfold canonicalizePathForKind
              rw [if_pos hdirectory, hplain, canonicalizeDir_of_canonicalize laws hp]
          . have hpath := (Db.mem_of_node? (of_resolveNodePath hresolve).1).2
            rw [mem_singleton.mp hn, hpath]
            obtain hold | ⟨_, hold⟩ := path_of_resolveNodePath laws hp hresolve
            . exact .inr (hold ▸ prefix_rfl)
            . exact .inl hold

end

end

theorem segments_of_touched {n : FileNode} (h : n.path = p ∨ dirForm true p <+: n.path)
    : segments p <+: segments n.path := by
  cases h with
  | inl h =>
    rw [h]
  | inr h =>
    obtain ⟨rest, hrest⟩ := h
    rw [← hrest]
    unfold dirForm
    split
    . rw [append_assoc, singleton_append, segments_append_slash]
      exact prefix_append _ _
    . next hroot =>
      have hroot : p = ['/'] := by simpa using hroot
      rw [hroot]
      exact List.nil_prefix

end Plain

section Colon

def oneFile (q : Str) : FileStore :=
  { FileStore.empty false with
    db := { (FileStore.empty false).db with fileNodes := [fileNode [] q none] } }

theorem rowsOk_oneFile (q : Str) : RowsOk nfc (oneFile q).db.fileNodes where
  keys := ⟨nodup_singleton _, nodup_singleton _⟩
  dirs := by
    intro n hn hdir
    rw [mem_singleton.mp hn] at hdir
    contradiction

theorem node?_oneFile (q : Str) : (oneFile q).db.node? q = some (fileNode [] q none) := by
  unfold Db.node? oneFile
  rw [find?_cons_of_pos]
  exact decide_eq_true rfl

theorem segments_normalizePath (laws : NfcLaws nfc) (hgood : GoodRaw r)
    : segments (normalizePath nfc r) = (segments r).map nfc := by
  have hcanon := (canonicalize_eq_ok_iff laws).mpr ⟨hgood, rfl⟩
  unfold normalizePath
  rw [hcanon, canonicalizeDir_of_canonicalize laws hcanon]
  split
  . rw [segments_dirForm]
    exact segments_of_canonicalize laws hcanon
  . exact segments_of_canonicalize laws hcanon

theorem exists_named (laws : NfcLaws nfc) (hgood : GoodRaw r) (hne : r ≠ [])
    (hdst : ∀ dstPath, req = .copy dstPath → GoodRaw dstPath)
    : ∃ q, segments q = (segments r).map nfc
      ∧ req.named nfc (oneFile q) r = some (fileNode [] q none) := by
  have hcanon := (canonicalize_eq_ok_iff laws).mpr ⟨hgood, rfl⟩
  cases req with
  | copy dstPath =>
    have hdst := (canonicalize_eq_ok_iff laws).mpr ⟨hdst dstPath rfl, rfl⟩
    refine ⟨_, segments_of_canonicalize laws hcanon, ?_⟩
    unfold named
    dsimp only
    rw [hcanon, hdst]
    dsimp only
    rw [if_neg hne]
    exact node?_oneFile _
  | rename newPath =>
    refine ⟨_, segments_normalizePath laws hgood, ?_⟩
    unfold named resolveNodePath
    dsimp only
    rw [if_neg hne, node?_oneFile]
    rfl
  | batchRead =>
    refine ⟨_, segments_of_canonicalize laws hcanon, ?_⟩
    unfold named
    rw [hcanon]
    exact node?_oneFile _

theorem not_touchesOnly_of_colon (laws : NfcLaws nfc) (hinert : NfcInert nfc)
    (hp : canonicalize nfc body = .ok p) (hdst : ∀ dstPath, req = .copy dstPath → GoodRaw dstPath)
    : ¬ req.TouchesOnly nfc dirID (':' :: body) p := by
  intro h
  have hgood := goodRaw_colon (goodRaw_of_canonicalizeAs nfc hp)
  obtain ⟨q, hq, hnamed⟩ := exists_named laws hgood (cons_ne_nil _ _) hdst
  have hpath : q = p ∨ q = dirForm true p := (h (oneFile q) (rowsOk_oneFile q)).1 _ hnamed
  have hsegments : segments q = segments p := by
    cases hpath with
    | inl hpath => rw [hpath]
    | inr hpath => rw [hpath, segments_dirForm]
  rw [hq, segments_of_canonicalize laws hp] at hsegments
  exact segments_colon_ne laws hinert body hsegments

end Colon

section Wildcard

def wildcardStore (p : Str) : FileStore :=
  { FileStore.empty false with
    db := { (FileStore.empty false).db with fileNodes := [dirNode ['d'] ['d'] (p ++ ['/']), neighbour p] } }

theorem neighbour_ne (p) : (neighbour p).path ≠ p ∧ (neighbour p).path ≠ p ++ ['/'] := by
  refine ⟨?_, ?_⟩
  all_goals
    intro heq
    have hlen := congrArg List.length heq
    simp [neighbour] at hlen

theorem rowsOk_wildcardStore (laws : NfcLaws nfc) : RowsOk nfc (wildcardStore p).db.fileNodes where
  keys := by
    have hne := (neighbour_ne p).2.symm
    constructor
    . exact nodup_cons.mpr ⟨by simp [neighbour, dirNode], nodup_singleton _⟩
    . exact nodup_cons.mpr ⟨by simpa [dirNode] using hne, nodup_singleton _⟩
  dirs := by
    intro n hn hdir hcanon
    cases mem_cons.mp hn with
    | inl hn =>
      rw [hn] at hcanon ⊢
      obtain ⟨hgood, heq⟩ := (canonicalize_eq_ok_iff laws).mp hcanon
      split at heq
      . exact heq
      . have hlast := getLast?_render fun s hs => (hgood.segments_map laws s hs).segment
        rw [← heq] at hlast
        exact absurd (getLast?_concat) hlast
    | inr hn =>
      rw [mem_singleton.mp hn] at hdir
      contradiction

variable {segs : List Str} (hbelow : Below nfc p segs)

include hbelow

theorem dirForm_eq : dirForm true p = p ++ ['/'] := by
  unfold dirForm
  rw [if_pos ⟨rfl, hbelow.ne_slash⟩]

theorem resolveNodePath_wildcardStore (laws : NfcLaws nfc) (hp : canonicalize nfc r = .ok p)
    : resolveNodePath nfc (wildcardStore p).db r
      = some (p ++ ['/'], dirNode ['d'] ['d'] (p ++ ['/'])) := by
  have hdirForm := canonicalizeDir_of_canonicalize laws hp
  rw [dirForm_eq hbelow] at hdirForm
  have hdir : (wildcardStore p).db.node? (p ++ ['/'])
      = some (dirNode ['d'] ['d'] (p ++ ['/'])) := by
    unfold Db.node? wildcardStore
    rw [find?_cons_of_pos]
    exact decide_eq_true rfl
  have hfile : (wildcardStore p).db.node? p = none := by
    unfold Db.node?
    rw [find?_eq_none]
    intro n hn
    rw [decide_eq_true_eq]
    cases mem_cons.mp hn with
    | inl hn => simp [hn, dirNode]
    | inr hn =>
      rw [mem_singleton.mp hn]
      exact (neighbour_ne p).1
  unfold resolveNodePath normalizePath
  rw [hdirForm, hp]
  dsimp only
  cases hraw : isDir r with
  | true =>
    rw [if_pos rfl, hdir]
  | false =>
    rw [if_neg Bool.false_ne_true, hfile]
    rw [if_neg Bool.false_ne_true, if_neg (by simp), hdir]
    rfl

theorem not_touchesOnly_of_wildcard (laws : NfcLaws nfc) (hp : canonicalize nfc r = .ok p)
    (hne : r ≠ [])
    (hwild : '_' ∈ p ∨ '%' ∈ p) (hnew : canonicalizeDir nfc newPath ≠ canonicalizeDir nfc r)
    : ¬ (SourceRequest.rename newPath).TouchesOnly nfc dirID r p := by
  intro h
  have hmoves : p ++ ['/'] ≠ canonicalizePathForKind nfc newPath true := by
    have hdirForm := canonicalizeDir_of_canonicalize laws hp
    rw [dirForm_eq hbelow] at hdirForm
    unfold canonicalizePathForKind
    rw [if_pos rfl]
    split
    . next heq =>
      rintro rfl
      exact hnew (heq.trans hdirForm.symm)
    . next heq =>
      rintro rfl
      have hself : canonicalizeDir nfc (p ++ ['/']) = .ok (p ++ ['/']) := by
        apply (canonicalizeDir_eq_ok_iff laws).mpr
        rw [segments_append_singleton, hbelow.segments_eq, render_map_nfc hbelow.good, ← hbelow.eq]
        exact ⟨(hbelow.eq ▸ goodRaw_render hbelow.good).concat_slash, rfl⟩
      rw [hself] at heq
      contradiction
  have hmade := dirsMade_withParents dirID (canonicalizePathForKind nfc newPath true)
    (wildcardStore p).db.fileNodes
  rw [← fileNodes_ensureParentDirs] at hmade
  obtain ⟨n, hn, hfill⟩ := hmade.old (neighbour p) (mem_cons_of_mem _ (mem_singleton_self _))
  have hmoved : n ∈ (SourceRequest.rename newPath).moved nfc dirID (wildcardStore p) r := by
    unfold moved
    rw [resolveNodePath_wildcardStore hbelow laws hp]
    dsimp only
    have hdirectory : (dirNode ['d'] ['d'] (p ++ ['/'])).isDirectory = true := rfl
    rw [if_neg hne, hdirectory, if_neg hmoves, if_pos rfl]
    apply mem_selected.mpr
    refine ⟨hn, ?_⟩
    unfold inDir
    rw [hfill.path, accepts_neighbour hbelow, Bool.or_true]
  have hpath := (h (wildcardStore p) (rowsOk_wildcardStore laws)).2 n hmoved
  rw [hfill.path, dirForm_eq hbelow] at hpath
  exact not_inSubtree_neighbour hwild hpath

end Wildcard

end SourceRequest

section Authorized

variable {nfc : Str → Str} {scopes : List FSScope} {req : SourceRequest} {r : Str}

theorem of_authorizeFSPair (h : authorizeFSPair nfc scope srcOp srcPath dstOp dstPath = .ok ())
    : authorizeFS nfc scope srcOp srcPath = .ok ()
      ∧ authorizeFS nfc scope dstOp dstPath = .ok () := by
  unfold authorizeFSPair at h
  split at h
  . contradiction
  . next hsrc => exact ⟨hsrc, h⟩

theorem allowed_of_authorize (h : req.authorize nfc (some ⟨true, scopes⟩) r = .ok ())
    : Allowed nfc scopes req.sourceOp r := by
  cases req with
  | copy dstPath | rename newPath => exact (of_authorizeFSPair h).1
  | batchRead => exact h

end Authorized

/--
For every request that its handler lets through: whatever rows there are, it touches because of `r`
only what the authorizer's form of `r` denotes if and only if `r` does not start with a colon and,
in a rename to another path, has no wildcard of `LIKE`; and then what it touches is in a scope of
the token that grants the operation.
-/
theorem touched_is_authorized_iff_plain (nfc : Str → Str) (laws : NfcLaws nfc)
    (hinert : NfcInert nfc) (dirID : Str → ID) (rows : List APIKeyFSScope) (scopes : List FSScope)
    (hscopes : fsScopesFromMeta nfc rows = .ok scopes) (req : SourceRequest) (r : Str)
    (hallowed : req.authorize nfc (some ⟨true, scopes⟩) r = .ok ())
    : ∃ p, normalizeFSAuthorizationPath nfc r = .ok p
        ∧ (req.TouchesOnly nfc dirID r p ↔ req.Plain nfc r)
        ∧ (req.Plain nfc r → ∀ s : FileStore, RowsOk nfc s.db.fileNodes
          → ∀ n, req.named nfc s r = some n ∨ n ∈ req.moved nfc dirID s r
            → ∃ scope ∈ scopes, Grants scope req.sourceOp
              ∧ segments scope.scopePrefix <+: segments n.path) := by
  have hbuilt : ∀ scope ∈ scopes, Built nfc scope := fun scope hmem => built_of_mem hscopes hmem
  have hsource := allowed_of_authorize hallowed
  obtain ⟨p, hp, scope, hmem, hgrants, hin⟩ := (allowed_iff laws hbuilt r).mp hsource
  have hplain : req.Plain nfc r → canonicalize nfc r = .ok p := by
    intro hplain
    rwa [trimPrefix_colon hplain.1] at hp
  refine ⟨p, ?_, ⟨?_, ?_⟩, ?_⟩
  . unfold normalizeFSAuthorizationPath
    rw [hp]
  . intro htouches
    have hhead : r.head? ≠ some ':' := by
      intro hhead
      cases r with
      | nil => contradiction
      | cons c body =>
        rw [List.head?_cons, Option.some.injEq] at hhead
        subst hhead
        refine SourceRequest.not_touchesOnly_of_colon laws hinert hp ?_ htouches
        rintro dstPath rfl
        obtain ⟨_, hp, _⟩ := (allowed_iff laws hbuilt dstPath).mp (of_authorizeFSPair hallowed).2
        exact goodRaw_of_trimPrefix (goodRaw_of_canonicalizeAs nfc hp)
    rw [trimPrefix_colon hhead] at hp
    refine ⟨hhead, ?_⟩
    rintro newPath rfl
    by_contra hwild
    rw [not_or] at hwild
    have hraw : '_' ∈ r ∨ '%' ∈ r := by tauto
    have hpwild : '_' ∈ p ∨ '%' ∈ p := by
      cases hraw with
      | inl hraw => exact .inl (wildcard_of_raw laws hinert hp (.inl rfl) hraw)
      | inr hraw => exact .inr (wildcard_of_raw laws hinert hp (.inr rfl) hraw)
    have hne : r ≠ [] := by
      rintro rfl
      simp at hraw
    obtain ⟨segs, hbelow⟩ := below_of_wildcard laws hp hpwild
    exact SourceRequest.not_touchesOnly_of_wildcard hbelow laws hp hne hpwild hwild.2 htouches
  . intro h s hrows
    exact ⟨fun n => SourceRequest.path_of_named laws (hplain h),
      SourceRequest.path_of_moved laws (hplain h) hrows h.2⟩
  . intro h s hrows n hn
    have hpath : n.path = p ∨ dirForm true p <+: n.path := by
      cases hn with
      | inl hn =>
        cases SourceRequest.path_of_named laws (hplain h) hn with
        | inl hn => exact .inl hn
        | inr hn => exact .inr (hn ▸ List.prefix_rfl)
      | inr hn => exact SourceRequest.path_of_moved laws (hplain h) hrows h.2 n hn
    exact ⟨scope, hmem, hgrants, hin.trans (SourceRequest.segments_of_touched hpath)⟩

theorem touched_is_authorized_iff_plain_renamed
    : ∃ scopes, fsScopesFromMeta id [⟨"/a".toList, "write,delete".toList⟩] = .ok scopes
        ∧ (SourceRequest.rename "/a/y".toList).authorize id (some ⟨true, scopes⟩) "/a/x".toList
          = .ok ()
        ∧ ∃ p, normalizeFSAuthorizationPath id "/a/x".toList = .ok p
          ∧ (SourceRequest.rename "/a/y".toList).TouchesOnly id id "/a/x".toList p := by
  refine ⟨_, rfl, by decide +kernel, ?_⟩
  obtain ⟨p, hp, htouches, _⟩ :=
    touched_is_authorized_iff_plain id nfcLaws_id ⟨fun _ _ _ _ => rfl⟩ id
    [⟨"/a".toList, "write,delete".toList⟩] _ rfl (.rename "/a/y".toList) "/a/x".toList (by decide +kernel)
  refine ⟨p, hp, htouches.mpr ⟨by decide, ?_⟩⟩
  intro newPath _
  exact .inl (by decide)

def colonStore : FileStore :=
  [.write ['f'] ['1'] "/:/a/x".toList .db9 [] 1, .write ['g'] ['2'] "/axb/k".toList .db9 [] 1,
    .mkdir ['3'] ['d'] "/a_b".toList].foldl (fun s op => (NamespaceOp.run id id s op).2) (FileStore.empty false)

-- A token for `/a` copies a file that it may not read, and a token for `/a_b` moves one that it may
-- not delete.
theorem colon_and_underscore_touch_others
    : RowsOk id colonStore.db.fileNodes
      ∧ (∃ scopes, fsScopesFromMeta id [⟨"/a".toList, "read,write".toList⟩] = .ok scopes
        ∧ (handleCopy id id (some ⟨true, scopes⟩) colonStore ['4'] ":/a/x".toList "/a/y".toList).1
          = .ok ()
        ∧ fileNode ['4'] "/a/y".toList (some ['f'])
          ∈ (handleCopy id id (some ⟨true, scopes⟩) colonStore ['4'] ":/a/x".toList "/a/y".toList).2.db.fileNodes
        ∧ normalizeFSAuthorizationPath id ":/a/x".toList = .ok "/a/x".toList
        ∧ authorizeFS id (some ⟨true, scopes⟩) fsOpRead "/:/a/x".toList = .error .accessDenied)
      ∧ ∃ scopes, fsScopesFromMeta id [⟨"/a_b".toList, "delete".toList⟩, ⟨"/c".toList, "write".toList⟩] = .ok scopes
        ∧ (handleRename id id (some ⟨true, scopes⟩) colonStore "/a_b".toList "/c".toList).1 = .ok ()
        ∧ "/axb/k".toList ∈ colonStore.db.fileNodes.map (·.path)
        ∧ "/axb/k".toList
          ∉ (handleRename id id (some ⟨true, scopes⟩) colonStore "/a_b".toList "/c".toList).2.db.fileNodes.map (·.path)
        ∧ authorizeFS id (some ⟨true, scopes⟩) fsOpDelete "/axb/k".toList
          = .error .accessDenied := by
  have hrows : RowsOk id colonStore.db.fileNodes := by
    constructor
    . exact ⟨by decide +kernel, by decide +kernel⟩
    . decide +kernel
  refine ⟨hrows, ⟨_, rfl, ?_⟩, _, rfl, ?_⟩
  . decide +kernel
  . decide +kernel

end Server
