import Drive9.Datastore.PathLemmas
import Drive9.Server.Authorization.Impl

/-!
This module contains the proof that a scope gives access to exactly the subtree below its prefix.
-/

namespace Server

open Str Pathutil List

variable {nfc : Str → Str} {scopes : List FSScope} {op : FSOp}

section Subtree

def Canonical (p : Str) : Prop := p = ['/'] ∨ ∃ segs, (∀ s ∈ segs, Segment s) ∧ p = render segs

theorem canonical_of_canonicalize (laws : NfcLaws nfc) (h : canonicalize nfc raw = .ok p)
    : Canonical p := by
  obtain ⟨hgood, heq⟩ := (canonicalize_eq_ok_iff laws).mp h
  split at heq
  . exact .inl heq
  . refine .inr ⟨_, ?_, heq⟩
    intro s hs
    obtain ⟨t, ht, rfl⟩ := mem_map.mp hs
    exact (hgood.segment laws ht).segment

theorem append_slash_isPrefix_render (hs : ∀ x ∈ s, Segment x) (ht : ∀ x ∈ t, Segment x)
    : render s ++ ['/'] <+: render t ↔ s <+: t ∧ t ≠ s := by
  constructor
  . rintro ⟨u, hu⟩
    have hseg : t = s ++ segments u := by
      rw [← segments_render ht, ← hu, append_assoc, singleton_append, segments_append_slash,
        segments_render hs]
    refine ⟨⟨segments u, hseg.symm⟩, ?_⟩
    rintro rfl
    have hlen := congrArg List.length hu
    rw [length_append, length_append, length_singleton] at hlen
    omega
  . rintro ⟨⟨rest, rfl⟩, hne⟩
    cases rest with
    | nil => exact absurd (append_nil s) hne
    | cons x rest =>
      refine ⟨x ++ render rest, ?_⟩
      rw [render_append, render_cons, append_assoc]
      rfl

theorem pathMatchesScope_iff (hscope : Canonical scopePrefix) (hp : Canonical p)
    : pathMatchesScope scopePrefix p = true ↔ segments scopePrefix <+: segments p := by
  unfold pathMatchesScope
  split
  . next hroot =>
    rw [hroot]
    exact ⟨fun _ => List.nil_prefix, fun _ => rfl⟩
  . next hroot =>
    obtain ⟨s, hs, rfl⟩ := hscope.resolve_left hroot
    rw [segments_render hs]
    split
    . next heq =>
      rw [heq, segments_render hs]
      exact ⟨fun _ => prefix_refl s, fun _ => rfl⟩
    . next hne =>
      rw [List.isPrefixOf_iff_prefix]
      cases hp with
      | inl hroot =>
        rw [hroot]
        have hseg : segments ['/'] = [] := rfl
        rw [hseg, prefix_nil]
        cases s with
        | nil => exact ⟨fun _ => rfl, fun _ => prefix_refl _⟩
        | cons x s =>
          refine ⟨fun hprefix => ?_, fun hnil => absurd hnil (cons_ne_nil x s)⟩
          have hlen := hprefix.length_le
          rw [render_cons] at hlen
          simp at hlen
      | inr hsegs =>
        obtain ⟨t, ht, rfl⟩ := hsegs
        rw [append_slash_isPrefix_render hs ht, segments_render ht]
        refine and_iff_left ?_
        rintro rfl
        exact hne rfl

end Subtree

section Scopes

structure Built (nfc : Str → Str) (scope : FSScope) : Prop where
  canonical : ∃ raw, canonicalize nfc raw = .ok scope.scopePrefix
  known : ∀ op, scope.has op = true → isKnownFSOp op = true

theorem known_of_go (h : parseFSScopeOps.go parts ops = .ok ops')
    (hops : ∀ op, (ops.get? op).getD false = true → isKnownFSOp op = true) (op)
    : (ops'.get? op).getD false = true → isKnownFSOp op = true := by
  induction parts generalizing ops with
  | nil =>
    cases h
    exact hops op
  | cons part parts ih =>
    unfold parseFSScopeOps.go at h
    dsimp only at h
    split at h
    . exact ih h hops
    . split at h
      . contradiction
      . next hknown =>
        apply ih h
        intro op' hop'
        rw [FMap.get?_set] at hop'
        split at hop'
        . next heq =>
          rw [heq]
          exact Bool.eq_true_of_not_eq_false hknown
        . exact hops op' hop'

theorem built_of_fsScopeFromMeta (h : fsScopeFromMeta nfc row = .ok scope) : Built nfc scope := by
  unfold fsScopeFromMeta at h
  split at h
  . contradiction
  . split at h
    . contradiction
    . split at h
      . contradiction
      . next scopePrefix hnorm =>
        split at h
        . contradiction
        . next ops hops =>
          cases h
          constructor
          . unfold normalizeFSAuthorizationPath at hnorm
            split at hnorm
            . contradiction
            . next p hcanon =>
              cases hnorm
              exact ⟨_, hcanon⟩
          . unfold parseFSScopeOps at hops
            split at hops
            . contradiction
            . next ops' hgo =>
              split at hops
              . contradiction
              . split at hops
                . contradiction
                . cases hops
                  apply known_of_go hgo
                  intro op hop
                  rw [FMap.get?_empty] at hop
                  contradiction

theorem mem_fsScopesFromMeta (h : fsScopesFromMeta nfc rows = .ok scopes) (scope : FSScope)
    : scope ∈ scopes ↔ ∃ row ∈ rows, fsScopeFromMeta nfc row = .ok scope := by
  induction rows generalizing scopes with
  | nil =>
    cases h
    simp
  | cons row rows ih =>
    unfold fsScopesFromMeta at h
    split at h
    . contradiction
    . next first hfirst =>
      split at h
      . contradiction
      . next rest hrest =>
        cases h
        rw [mem_cons, ih hrest, exists_mem_cons_iff, hfirst, Except.ok.injEq, eq_comm]

theorem built_of_mem (h : fsScopesFromMeta nfc rows = .ok scopes) (hmem : scope ∈ scopes)
    : Built nfc scope := by
  obtain ⟨row, _, hrow⟩ := (mem_fsScopesFromMeta h scope).mp hmem
  exact built_of_fsScopeFromMeta hrow

def Grants (scope : FSScope) (op : FSOp) : Prop :=
  scope.has op = true ∧ (op = fsOpSearch → scope.has fsOpRead = true)

theorem scopeAllows_iff (laws : NfcLaws nfc) (hscope : Built nfc scope) (hp : Canonical p)
    : scopeAllows scope op p = true
      ↔ Grants scope op ∧ segments scope.scopePrefix <+: segments p := by
  obtain ⟨raw, hraw⟩ := hscope.canonical
  unfold scopeAllows Grants
  split
  . next hsearch =>
    simp [hsearch.1, hsearch.2]
  . next hsearch =>
    split
    . next hop => simp [hop]
    . next hop =>
      rw [pathMatchesScope_iff (canonical_of_canonicalize laws hraw) hp]
      refine (and_iff_right ⟨Bool.eq_true_of_not_eq_false hop, ?_⟩).symm
      intro heq
      exact Bool.eq_true_of_not_eq_false fun hread => hsearch ⟨heq, hread⟩

end Scopes

def Allowed (nfc : Str → Str) (scopes : List FSScope) (op : FSOp) (rawPath : Str) : Prop :=
  authorizeFS nfc (some ⟨true, scopes⟩) op rawPath = .ok ()

theorem allowed_iff (laws : NfcLaws nfc) (hbuilt : ∀ scope ∈ scopes, Built nfc scope)
    (rawPath : Str)
    : Allowed nfc scopes op rawPath
        ↔
      ∃ p, canonicalize nfc (rawPath.trimPrefix [':']) = .ok p
        ∧ ∃ scope ∈ scopes, Grants scope op ∧ segments scope.scopePrefix <+: segments p := by
  have hallows : ∀ p, canonicalize nfc (rawPath.trimPrefix [':']) = .ok p
      → (scopes.any (scopeAllows · op p) = true
      ↔ ∃ scope ∈ scopes, Grants scope op ∧ segments scope.scopePrefix <+: segments p) := by
    intro p hp
    rw [any_eq_true]
    exact exists_congr fun scope => and_congr_right fun hmem =>
      scopeAllows_iff laws (hbuilt scope hmem) (canonical_of_canonicalize laws hp)
  unfold Allowed authorizeFS
  dsimp only
  rw [if_neg Bool.noConfusion]
  split
  . next hunknown =>
    constructor
    . intro h
      contradiction
    . rintro ⟨p, _, scope, hmem, hgrants, _⟩
      rw [(hbuilt scope hmem).known op hgrants.1] at hunknown
      contradiction
  . unfold normalizeFSAuthorizationPath
    cases hcanon : canonicalize nfc (rawPath.trimPrefix [':']) with
    | error err =>
      constructor
      . intro h
        contradiction
      . rintro ⟨p, hp, _⟩
        contradiction
    | ok p =>
      have hp := hallows p hcanon
      dsimp only
      split
      . next hany =>
        exact ⟨fun _ => ⟨p, rfl, hp.mp hany⟩, fun _ => rfl⟩
      . next hany =>
        constructor
        . intro h
          contradiction
        . rintro ⟨p', hp', hscope⟩
          cases hp'
          exact absurd (hp.mpr hscope) hany

theorem not_prefix_sibling (hmore : more ≠ [])
    : ¬ dir ++ [name] <+: dir ++ (name ++ more) :: rest := by
  rw [prefix_append_right_inj, cons_prefix_cons]
  rintro ⟨heq, _⟩
  exact hmore (self_eq_append_right.mp heq)

/--
For the scopes of any rows: access is membership in the subtree of a scope that grants the
operation. So it is inherited by everything below a path, a scope gives none to a sibling whose name
goes on after its own, and more rows never take one away.
-/
theorem authorizeFS_is_subtree_membership (nfc : Str → Str) (laws : NfcLaws nfc)
    (rows : List APIKeyFSScope)
    (scopes : List FSScope) (hscopes : fsScopesFromMeta nfc rows = .ok scopes) (op : FSOp)
    (rawPath : Str)
    : (authorizeFS nfc (some ⟨true, scopes⟩) op rawPath = .ok ()
          ↔
        ∃ p, canonicalize nfc (rawPath.trimPrefix [':']) = .ok p
          ∧ ∃ scope ∈ scopes, scope.has op = true ∧ (op = fsOpSearch → scope.has fsOpRead = true)
            ∧ segments scope.scopePrefix <+: segments p)
      ∧ (∀ below p q, canonicalize nfc (rawPath.trimPrefix [':']) = .ok p
          → canonicalize nfc (below.trimPrefix [':']) = .ok q → segments p <+: segments q
          → authorizeFS nfc (some ⟨true, scopes⟩) op rawPath = .ok ()
          → authorizeFS nfc (some ⟨true, scopes⟩) op below = .ok ())
      ∧ (∀ scope ∈ scopes, ∀ dir name more rest p, segments scope.scopePrefix = dir ++ [name]
          → canonicalize nfc (rawPath.trimPrefix [':']) = .ok p
          → segments p = dir ++ (name ++ more) :: rest
          → more ≠ [] → scopeAllows scope op p = false)
      ∧ ∀ rows' scopes', rows ⊆ rows' → fsScopesFromMeta nfc rows' = .ok scopes'
          → authorizeFS nfc (some ⟨true, scopes⟩) op rawPath = .ok ()
          → authorizeFS nfc (some ⟨true, scopes'⟩) op rawPath = .ok () := by
  have hbuilt : ∀ scope ∈ scopes, Built nfc scope := fun scope hmem => built_of_mem hscopes hmem
  refine ⟨?_, ?_, ?_, ?_⟩
  . refine (allowed_iff laws hbuilt rawPath).trans ?_
    simp only [Grants, and_assoc]
  . intro below p q hp hq hsub hallowed
    obtain ⟨p', hp', scope, hmem, hgrants, hprefix⟩ := (allowed_iff laws hbuilt rawPath).mp hallowed
    rw [hp] at hp'
    cases hp'
    exact (allowed_iff laws hbuilt below).mpr ⟨q, hq, scope, hmem, hgrants, hprefix.trans hsub⟩
  . intro scope hmem dir name more rest p hscope hp hseg hmore
    apply Bool.eq_false_iff.mpr
    intro hallows
    have hin :=
      (scopeAllows_iff laws (hbuilt scope hmem) (canonical_of_canonicalize laws hp)).mp hallows
    rw [hscope, hseg] at hin
    exact not_prefix_sibling hmore hin.2
  . intro rows' scopes' hsub hscopes' hallowed
    obtain ⟨p, hp, scope, hmem, hin⟩ := (allowed_iff laws hbuilt rawPath).mp hallowed
    apply (allowed_iff laws (fun scope hmem => built_of_mem hscopes' hmem) rawPath).mpr
    refine ⟨p, hp, scope, ?_, hin⟩
    obtain ⟨row, hrow, hfrom⟩ := (mem_fsScopesFromMeta hscopes scope).mp hmem
    exact (mem_fsScopesFromMeta hscopes' scope).mpr ⟨row, hsub hrow, hfrom⟩

-- A token with the prefix `:/a//b/` reads what is below `/a/b`, and not `/a/bc`.
theorem authorizeFS_is_subtree_membership_slashes
    : ∃ scopes, fsScopesFromMeta id [⟨":/a//b/".toList, "read, search".toList⟩] = .ok scopes
        ∧ authorizeFS id (some ⟨true, scopes⟩) fsOpSearch "a/b//c".toList = .ok ()
        ∧ ∀ scope ∈ scopes, scopeAllows scope fsOpRead "/a/bc".toList = false := by
  have hall := authorizeFS_is_subtree_membership id nfcLaws_id [⟨":/a//b/".toList, "read, search".toList⟩] _ rfl
  refine ⟨_, rfl, (hall fsOpSearch "a/b//c".toList).1.mpr ?_, ?_⟩
  . exact ⟨"/a/b/c".toList, by decide +kernel, _, List.mem_singleton_self _, by decide +kernel⟩
  . intro scope hmem
    apply (hall fsOpRead "/a/bc".toList).2.2.1 scope hmem ["a".toList] "b".toList "c".toList [] "/a/bc".toList
    . rw [List.mem_singleton.mp hmem]
      decide +kernel
    . decide +kernel
    . decide +kernel
    . decide

end Server
