import Drive9.Datastore.Path
import Mathlib.Data.List.Chain

/-!
This module contains the canonical paths in terms of their segments.
-/

variable {d p raw s t : Str} {segs : List Str} {c : Char}

open List

namespace Str

def segments (s : Str) : List Str := (s.splitOn '/').filter (· ≠ [])

def render (segs : List Str) : Str := segs.flatMap ('/' :: ·)

def Segment (s : Str) : Prop := s ≠ [] ∧ '/' ∉ s

theorem splitOn_append_slash (a b : Str)
    : (a ++ '/' :: b).splitOn '/' = a.splitOn '/' ++ b.splitOn '/' := by
  apply splitOnP_append_cons
  rfl

theorem splitOn_of_not_mem (h : '/' ∉ s) : s.splitOn '/' = [s] := by
  apply splitOnP_eq_singleton
  intro c hc
  rw [beq_eq_false_iff_ne]
  exact fun heq => h (heq ▸ hc)

@[simp]
theorem segments_nil : segments [] = [] := by
  rfl

theorem segments_append_slash (a b) : segments (a ++ '/' :: b) = segments a ++ segments b := by
  unfold segments
  rw [splitOn_append_slash, filter_append]

theorem segments_slash_cons (b) : segments ('/' :: b) = segments b := by
  exact segments_append_slash [] b

theorem segments_append_singleton (a) : segments (a ++ ['/']) = segments a := by
  rw [segments_append_slash, segments_nil, append_nil]

theorem segments_segment (h : Segment s) : segments s = [s] := by
  unfold segments
  rw [splitOn_of_not_mem h.2]
  simp [h.1]

@[simp]
theorem render_nil : render [] = [] := by
  rfl

@[simp]
theorem render_cons (s) (segs) : render (s :: segs) = '/' :: s ++ render segs := by
  rfl

theorem render_ne_nil (h : segs ≠ []) : render segs ≠ [] := by
  cases segs with
  | nil => contradiction
  | cons s segs => simp

theorem render_append (a b) : render (a ++ b) = render a ++ render b := by
  exact flatMap_append

theorem segments_render (h : ∀ s ∈ segs, Segment s) : segments (render segs) = segs := by
  induction segs with
  | nil => rfl
  | cons s segs ih =>
    rw [forall_mem_cons] at h
    rw [render_cons, cons_append, segments_slash_cons]
    cases segs with
    | nil =>
      rw [render_nil, append_nil]
      exact segments_segment h.1
    | cons t segs =>
      specialize ih h.2
      rw [render_cons, cons_append, segments_slash_cons] at ih
      rw [render_cons, cons_append, segments_append_slash, segments_segment h.1, ih]
      rfl

theorem mem_splitOn (h : t ∈ s.splitOn '/') : '/' ∉ t ∧ ∀ c ∈ t, c ∈ s := by
  induction hn : s.length using Nat.strong_induction_on generalizing s with
  | _ n ih =>
    by_cases hs : '/' ∈ s
    . obtain ⟨a, b, rfl⟩ := append_of_mem hs
      rw [splitOn_append_slash, mem_append] at h
      rw [length_append, length_cons] at hn
      cases h with
      | inl h =>
        obtain ⟨h1, h2⟩ := ih a.length (by omega) h rfl
        exact ⟨h1, fun c hc => mem_append_left _ (h2 c hc)⟩
      | inr h =>
        obtain ⟨h1, h2⟩ := ih b.length (by omega) h rfl
        exact ⟨h1, fun c hc => mem_append_right _ (mem_cons_of_mem _ (h2 c hc))⟩
    . rw [splitOn_of_not_mem hs, mem_singleton] at h
      subst h
      exact ⟨hs, fun c hc => hc⟩

theorem segment_of_mem_segments (h : t ∈ segments s) : Segment t := by
  obtain ⟨hmem, hne⟩ := mem_filter.mp h
  exact ⟨by simpa using hne, (mem_splitOn hmem).1⟩

theorem mem_of_mem_segments (h : t ∈ segments s) (hc : c ∈ t) : c ∈ s := by
  exact (mem_splitOn (mem_filter.mp h).1).2 c hc

theorem segments_dropWhile (s) : segments (s.dropWhile (· = '/')) = segments s := by
  induction s with
  | nil => rfl
  | cons c s ih =>
    rw [dropWhile_cons]
    split
    . next h =>
      rw [ih, show c = '/' by simpa using h, segments_slash_cons]
    . rfl

theorem segments_rdropWhile (s) : segments (s.rdropWhile (· = '/')) = segments s := by
  induction s using List.reverseRecOn with
  | nil => rfl
  | append_singleton s c ih =>
    rw [rdropWhile_concat]
    split
    . next h =>
      rw [ih, show c = '/' by simpa using h, segments_append_singleton]
    . rfl

theorem segments_trimSlashes (s) : segments s.trimSlashes = segments s := by
  unfold trimSlashes
  rw [segments_rdropWhile, segments_dropWhile]

theorem mem_splitOn_iff_mem_segments (hne : seg ≠ []) : seg ∈ s.splitOn '/' ↔ seg ∈ segments s := by
  unfold segments
  rw [mem_filter]
  simp [hne]

theorem slash_intercalate (h : segs ≠ []) : '/' :: ['/'].intercalate segs = render segs := by
  induction segs with
  | nil => contradiction
  | cons s segs ih =>
    cases segs with
    | nil => simp [List.intercalate]
    | cons t segs =>
      rw [render_cons, ← ih (by simp)]
      simp [List.intercalate]

section

variable (h : ∀ s ∈ segs, Segment s)

include h

theorem getLast?_render : (render segs).getLast? ≠ some '/' := by
  induction segs using List.reverseRecOn with
  | nil => simp
  | append_singleton segs s _ =>
    obtain ⟨hne, hslash⟩ := h s (by simp)
    rw [render_append, render_cons, render_nil, append_nil, getLast?_append,
      getLast?_cons_of_ne_nil hne, Option.or_of_isSome (by simpa using hne)]
    intro hc
    exact hslash (mem_of_getLast? hc)

theorem render_ne_slash : render segs ≠ ['/'] := by
  intro heq
  apply getLast?_render h
  rw [heq]
  rfl

theorem trimSlash_render : trimSlash ('/' :: ['/'].intercalate segs) = render segs := by
  by_cases hne : segs = []
  . subst hne
    rfl
  . rw [slash_intercalate hne]
    unfold trimSlash
    rw [if_neg (getLast?_render h)]

end

@[simp]
theorem trimSlash_concat (s) : trimSlash (s ++ ['/']) = s := by
  unfold trimSlash
  simp

theorem exists_segment_of_mem (hc : c ≠ '/') (h : c ∈ raw) : ∃ s ∈ segments raw, c ∈ s := by
  have hjoin : ∀ parts : List Str, c ∈ ['/'].intercalate parts → ∃ s ∈ parts, c ∈ s := by
    intro parts
    induction parts with
    | nil => simp [List.intercalate]
    | cons s parts ih =>
      cases parts with
      | nil => simp [List.intercalate]
      | cons t parts =>
        intro hmem
        have hcons : ['/'].intercalate (s :: t :: parts)
            = s ++ '/' :: ['/'].intercalate (t :: parts) := by
          simp [List.intercalate]
        rw [hcons, mem_append, mem_cons] at hmem
        obtain hmem | hmem | hmem := hmem
        . exact ⟨s, mem_cons_self, hmem⟩
        . exact absurd hmem hc
        . obtain ⟨s', hs', hmem⟩ := ih hmem
          exact ⟨s', mem_cons_of_mem s hs', hmem⟩
  have hraw : ['/'].intercalate (raw.splitOn '/') = raw := intercalate_splitOn '/'
  rw [← hraw] at h
  obtain ⟨s, hs, hmem⟩ := hjoin _ h
  refine ⟨s, mem_filter.mpr ⟨hs, ?_⟩, hmem⟩
  rw [decide_eq_true_eq]
  exact ne_nil_of_mem hmem

end Str

namespace PathPkg

open Str

theorem foldl_cleanSegment (rooted) (out segs : List Str)
    (h : ∀ s ∈ segs, s ≠ ['.'] ∧ s ≠ ['.', '.'])
    : segs.foldl (cleanSegment rooted) out = out ++ segs.filter (· ≠ []) := by
  induction segs generalizing out with
  | nil => simp
  | cons s segs ih =>
    rw [forall_mem_cons] at h
    rw [foldl_cons, ih _ h.2]
    unfold cleanSegment
    by_cases hs : s = []
    . simp [hs]
    . simp [hs, h.1.1, h.1.2]

theorem clean_rooted (h : ∀ s ∈ segments p, s ≠ ['.'] ∧ s ≠ ['.', '.'])
    : clean ('/' :: p) = '/' :: ['/'].intercalate (segments p) := by
  have hseg : ∀ s ∈ ('/' :: p).splitOn '/', s ≠ ['.'] ∧ s ≠ ['.', '.'] := by
    intro s hs
    by_cases hne : s = []
    . subst hne
      exact ⟨by decide, by decide⟩
    . rw [mem_splitOn_iff_mem_segments hne, segments_slash_cons] at hs
      exact h s hs
  unfold clean
  dsimp only
  rw [foldl_cleanSegment _ _ _ hseg, if_pos head?_cons, nil_append]
  congr 2

end PathPkg

namespace Pathutil

open Str

structure GoodRaw (raw : Str) : Prop where
  noControl : ∀ c ∈ raw, ¬ c.toNat ≤ 0x1f
  noBackslash : '\\' ∉ raw
  noDot : ∀ s ∈ segments raw, s ≠ ['.'] ∧ s ≠ ['.', '.']

theorem goodRaw_nil : GoodRaw [] := by
  constructor
  all_goals simp

theorem goodRaw_slash : GoodRaw ['/'] := by
  constructor
  . intro c hc
    rw [mem_singleton.mp hc]
    decide
  . decide
  . intro s hs
    contradiction

theorem exists_rooted (raw) : ∃ p, rooted raw = '/' :: p ∧ segments p = segments raw := by
  unfold rooted
  split
  . next h =>
    cases raw with
    | nil => contradiction
    | cons c p =>
      rw [head?_cons, Option.some.injEq] at h
      subst h
      exact ⟨p, rfl, (segments_slash_cons p).symm⟩
  . exact ⟨raw, rfl, rfl⟩

theorem segments_rooted (raw) : segments (rooted raw) = segments raw := by
  obtain ⟨p, hp, hseg⟩ := exists_rooted raw
  rw [hp, segments_slash_cons, hseg]

def dirForm (isDir : Bool) (p : Str) : Str := if isDir ∧ p ≠ ['/'] then p ++ ['/'] else p

variable (nfc : Str → Str)

variable {isDir : Bool}

theorem canonicalizeAs_eq (isDir) (hraw : ¬ (raw = [] ∨ raw = ['/'])) (hgood : GoodRaw raw)
    : canonicalizeAs nfc raw isDir = .ok (dirForm isDir (nfc (render (segments raw)))) := by
  obtain ⟨p, hp, hseg⟩ := exists_rooted raw
  have hcontrol : raw.find? (fun c => c.toNat ≤ 0x1f) = none := by
    rw [find?_eq_none]
    intro c hc
    simpa using hgood.noControl c hc
  have hdots : ((rooted raw).trimSlashes.splitOn '/').find? (fun seg => seg = ['.'] ∨ seg = ['.', '.']) = none := by
    rw [find?_eq_none]
    intro s hs
    by_cases hne : s = []
    . subst hne
      decide
    . rw [mem_splitOn_iff_mem_segments hne, segments_trimSlashes, segments_rooted] at hs
      simpa using hgood.noDot s hs
  have hclean : PathPkg.clean (rooted raw) = '/' :: ['/'].intercalate (segments raw) := by
    rw [hp, ← hseg]
    exact PathPkg.clean_rooted (by rw [hseg]; exact hgood.noDot)
  unfold canonicalizeAs
  rw [if_neg hraw, hcontrol]
  rw [if_neg hgood.noBackslash, hdots]
  rw [hclean, if_neg (by simp), trimSlash_render fun s hs => segment_of_mem_segments hs]
  rfl

theorem goodRaw_of_canonicalizeAs (h : canonicalizeAs nfc raw isDir = .ok p) : GoodRaw raw := by
  unfold canonicalizeAs at h
  split at h
  . next hraw =>
    cases hraw with
    | inl hraw => rw [hraw]; exact goodRaw_nil
    | inr hraw => rw [hraw]; exact goodRaw_slash
  . split at h
    . contradiction
    . next hcontrol =>
      split at h
      . contradiction
      . next hback =>
        split at h
        . contradiction
        . next hdots =>
          rw [find?_eq_none] at hcontrol hdots
          refine ⟨?_, hback, ?_⟩
          . intro c hc
            simpa using hcontrol c hc
          . intro s hs
            have hmem : s ∈ (rooted raw).trimSlashes.splitOn '/' := by
              rw [mem_splitOn_iff_mem_segments (segment_of_mem_segments hs).1, segments_trimSlashes,
                segments_rooted]
              exact hs
            simpa using hdots s hmem

/--
What is used of NFC: it is idempotent, leaves ASCII strings alone and commutes with `/`; a slash, a
backslash, a control character or a string of dots is the normal form of itself only; and `_`, `%`
and `-` take no part in any composition, so that one may stand for the other.
-/
structure NfcLaws (nfc : Str → Str) : Prop where
  idem : ∀ s, nfc (nfc s) = nfc s
  ascii : ∀ s, (∀ c ∈ s, c.toNat < 128) → nfc s = s
  slash : ∀ a b, nfc (a ++ '/' :: b) = nfc a ++ '/' :: nfc b
  mem : ∀ s c, c ∈ nfc s → c = '/' ∨ c = '\\' ∨ c.toNat ≤ 0x1f → c ∈ s
  dots : ∀ s, (∀ c ∈ nfc s, c = '.') → nfc s = s
  punctuation : ∀ s, nfc (s.map fun c => if c = '_' ∨ c = '%' then '-' else c)
    = (nfc s).map fun c => if c = '_' ∨ c = '%' then '-' else c

theorem nfcLaws_id : NfcLaws id := by
  constructor
  case mem => exact fun s c hc _ => hc
  all_goals simp

variable {nfc}

namespace NfcLaws

variable (laws : NfcLaws nfc)

include laws

theorem nil : nfc [] = [] := by
  exact laws.ascii [] (by simp)

theorem slash_cons (b) : nfc ('/' :: b) = '/' :: nfc b := by
  have h := laws.slash [] b
  rw [laws.nil] at h
  exact h

theorem render (segs) : nfc (render segs) = Str.render (segs.map nfc) := by
  induction segs with
  | nil => exact laws.nil
  | cons s segs ih =>
    have happend : nfc (s ++ Str.render segs) = nfc s ++ nfc (Str.render segs) := by
      cases segs with
      | nil => simp [laws.nil]
      | cons t segs => rw [render_cons, cons_append, laws.slash, laws.slash_cons]
    rw [render_cons, cons_append, laws.slash_cons, happend, ih]
    rfl

end NfcLaws

structure GoodSegment (nfc : Str → Str) (s : Str) : Prop where
  segment : Segment s
  noDot : s ≠ ['.'] ∧ s ≠ ['.', '.']
  noControl : ∀ c ∈ s, ¬ c.toNat ≤ 0x1f
  noBackslash : '\\' ∉ s
  nfc : nfc s = s

theorem GoodRaw.segment (laws : NfcLaws nfc) (h : GoodRaw raw) (hs : s ∈ segments raw)
    : GoodSegment nfc (nfc s) := by
  have hseg := segment_of_mem_segments hs
  have hdots : ∀ t : Str, (∀ c ∈ t, c = '.') → s ≠ t → nfc s ≠ t := by
    intro t ht hne heq
    have := laws.dots s (by rw [heq]; exact ht)
    exact hne (this.symm.trans heq)
  refine ⟨⟨hdots [] (by simp) hseg.1, ?_⟩, ⟨?_, ?_⟩, ?_, ?_, laws.idem s⟩
  . intro hc
    exact hseg.2 (laws.mem s _ hc (.inl rfl))
  . exact hdots ['.'] (by simp) (h.noDot s hs).1
  . exact hdots ['.', '.'] (by simp) (h.noDot s hs).2
  . intro c hc hctl
    exact h.noControl c (mem_of_mem_segments hs (laws.mem s c hc (.inr (.inr hctl)))) hctl
  . intro hc
    exact h.noBackslash (mem_of_mem_segments hs (laws.mem s _ hc (.inr (.inl rfl))))

theorem mem_render (h : c ∈ render segs) : c = '/' ∨ ∃ s ∈ segs, c ∈ s := by
  obtain ⟨s, hs, hc⟩ := mem_flatMap.mp h
  cases mem_cons.mp hc with
  | inl hc => exact .inl hc
  | inr hc => exact .inr ⟨s, hs, hc⟩

theorem goodRaw_render (h : ∀ s ∈ segs, GoodSegment nfc s) : GoodRaw (render segs) := by
  constructor
  . intro c hc
    cases mem_render hc with
    | inl hc => rw [hc]; decide
    | inr hc =>
      obtain ⟨s, hs, hc⟩ := hc
      exact (h s hs).noControl c hc
  . intro hc
    cases mem_render hc with
    | inl hc => contradiction
    | inr hc =>
      obtain ⟨s, hs, hc⟩ := hc
      exact (h s hs).noBackslash hc
  . rw [segments_render fun s hs => (h s hs).segment]
    exact fun s hs => (h s hs).noDot

theorem GoodRaw.concat_slash (h : GoodRaw raw) : GoodRaw (raw ++ ['/']) := by
  constructor
  . intro c hc
    cases mem_append.mp hc with
    | inl hc => exact h.noControl c hc
    | inr hc =>
      rw [mem_singleton.mp hc]
      decide
  . simpa using h.noBackslash
  . rw [segments_append_singleton]
    exact h.noDot

theorem segments_dirForm (isDir) (p) : segments (dirForm isDir p) = segments p := by
  unfold dirForm
  split
  . exact segments_append_singleton p
  . rfl

theorem goodRaw_dirForm (isDir) (h : ∀ s ∈ segs, GoodSegment nfc s)
    : GoodRaw (dirForm isDir (render segs)) := by
  unfold dirForm
  split
  . exact (goodRaw_render h).concat_slash
  . exact goodRaw_render h

theorem render_map_nfc (h : ∀ s ∈ segs, GoodSegment nfc s) : segs.map nfc = segs := by
  rw [map_congr_left fun s hs => (h s hs).nfc]
  exact map_id segs

section

variable (laws : NfcLaws nfc)

include laws

theorem canonicalizeAs_eq_ok_iff (isDir)
    : canonicalizeAs nfc raw isDir = .ok p
        ↔
      GoodRaw raw ∧ p = if raw = [] ∨ raw = ['/'] then ['/'] else dirForm isDir (render ((segments raw).map nfc)) := by
  have heq : GoodRaw raw → canonicalizeAs nfc raw isDir
      = .ok (if raw = [] ∨ raw = ['/'] then ['/'] else dirForm isDir (render ((segments raw).map nfc))) := by
    intro hgood
    split
    . next hraw =>
      unfold canonicalizeAs
      rw [if_pos hraw]
    . next hraw => rw [canonicalizeAs_eq nfc isDir hraw hgood, laws.render]
  constructor
  . intro h
    have hgood := goodRaw_of_canonicalizeAs nfc h
    rw [heq hgood, Except.ok.injEq] at h
    exact ⟨hgood, h.symm⟩
  . rintro ⟨hgood, rfl⟩
    exact heq hgood

theorem canonicalizeDir_eq_ok_iff
    : canonicalizeDir nfc raw = .ok p ↔ GoodRaw raw ∧ p = render ((segments raw).map nfc) ++ ['/'] := by
  unfold canonicalizeDir
  rw [canonicalizeAs_eq_ok_iff laws]
  apply and_congr_right
  intro hgood
  split
  . next hraw =>
    rcases hraw with rfl | rfl
    . rfl
    . rfl
  . rw [dirForm, if_pos]
    refine ⟨rfl, render_ne_slash ?_⟩
    intro s hs
    obtain ⟨t, ht, rfl⟩ := mem_map.mp hs
    exact (hgood.segment laws ht).segment

theorem canonicalize_eq_ok_iff : canonicalize nfc raw = .ok p
        ↔
      GoodRaw raw ∧ p = if raw = [] ∨ raw = ['/'] then ['/'] else render ((segments raw).map nfc) :=
  canonicalizeAs_eq_ok_iff laws false

theorem canonicalizeAs_render (isDir) (hne : segs ≠ []) (h : ∀ s ∈ segs, GoodSegment nfc s)
    : canonicalizeAs nfc (dirForm isDir (render segs)) isDir
      = .ok (dirForm isDir (render segs)) := by
  have hsegs : segments (dirForm isDir (render segs)) = segs := by
    rw [segments_dirForm, segments_render fun s hs => (h s hs).segment]
  rw [canonicalizeAs_eq_ok_iff laws, if_neg, hsegs, render_map_nfc h]
  . exact ⟨goodRaw_dirForm isDir h, rfl⟩
  . rintro (heq | heq)
    all_goals
      rw [heq] at hsegs
      exact hne hsegs.symm

theorem canonicalize_render (hne : segs ≠ []) (h : ∀ s ∈ segs, GoodSegment nfc s)
    : canonicalize nfc (render segs) = .ok (render segs) := canonicalizeAs_render laws false hne h

theorem GoodRaw.segments_map (h : GoodRaw raw)
    : ∀ s ∈ (segments raw).map nfc, GoodSegment nfc s := by
  intro s hs
  obtain ⟨t, ht, rfl⟩ := mem_map.mp hs
  exact h.segment laws ht

theorem segments_of_canonicalize (h : canonicalizeAs nfc raw isDir = .ok p)
    : segments p = (segments raw).map nfc := by
  obtain ⟨hgood, rfl⟩ := (canonicalizeAs_eq_ok_iff laws isDir).mp h
  split
  . next hroot =>
    rcases hroot with rfl | rfl
    all_goals rfl
  . rw [segments_dirForm]
    exact segments_render fun s hs => (hgood.segments_map laws s hs).segment

theorem canonicalizeDir_of_canonicalize (h : canonicalize nfc raw = .ok p)
    : canonicalizeDir nfc raw = .ok (dirForm true p) := by
  obtain ⟨hgood, hp⟩ := (canonicalizeAs_eq_ok_iff laws false).mp h
  apply (canonicalizeAs_eq_ok_iff laws true).mpr
  refine ⟨hgood, ?_⟩
  rw [hp]
  split
  . rfl
  . rfl

end

def CanonicalDir (nfc : Str → Str) (d : Str) : Prop := ∃ raw, canonicalizeDir nfc raw = .ok d

theorem canonicalDir_iff (laws : NfcLaws nfc)
    : CanonicalDir nfc d ↔ ∃ segs, (∀ s ∈ segs, GoodSegment nfc s) ∧ d = render segs ++ ['/'] := by
  unfold CanonicalDir
  simp only [canonicalizeDir_eq_ok_iff laws]
  constructor
  . rintro ⟨raw, hgood, rfl⟩
    refine ⟨_, ?_, rfl⟩
    intro s hs
    obtain ⟨t, ht, rfl⟩ := mem_map.mp hs
    exact hgood.segment laws ht
  . rintro ⟨segs, hsegs, rfl⟩
    refine ⟨render segs ++ ['/'], (goodRaw_render hsegs).concat_slash, ?_⟩
    rw [segments_append_singleton, segments_render fun s hs => (hsegs s hs).segment,
      render_map_nfc hsegs]

theorem CanonicalDir.exists_eq_concat (laws : NfcLaws nfc) (h : CanonicalDir nfc d)
    : ∃ e, d = e ++ ['/'] := by
  obtain ⟨segs, _, rfl⟩ := (canonicalDir_iff laws).mp h
  exact ⟨_, rfl⟩

theorem CanonicalDir.noBackslash (laws : NfcLaws nfc) (h : CanonicalDir nfc d) : '\\' ∉ d := by
  obtain ⟨segs, hsegs, rfl⟩ := (canonicalDir_iff laws).mp h
  exact (goodRaw_render hsegs).concat_slash.noBackslash

structure Normal (nfc : Str → Str) (isDir : Bool) (p : Str) : Prop where
  head : p.head? = some '/'
  -- no empty segment: no two slashes in a row
  noEmpty : p.IsChain fun a b => a = '/' → b ≠ '/'
  noDot : ∀ s ∈ p.splitOn '/', s ≠ ['.'] ∧ s ≠ ['.', '.']
  noControl : ∀ c ∈ p, ¬ c.toNat ≤ 0x1f
  noBackslash : '\\' ∉ p
  last : p.getLast? = some '/' ↔ p = ['/'] ∨ isDir = true
  again : canonicalizeAs nfc p isDir = .ok p

def OnlySlashes (raw : Str) : Prop := 2 ≤ raw.length ∧ ∀ c ∈ raw, c = '/'

theorem onlySlashes_iff : OnlySlashes raw ↔ ¬ (raw = [] ∨ raw = ['/']) ∧ segments raw = [] := by
  constructor
  . rintro ⟨hlen, h⟩
    refine ⟨?_, eq_nil_iff_forall_not_mem.mpr ?_⟩
    . rintro (rfl | rfl)
      all_goals simp at hlen
    . intro s hs
      obtain ⟨hne, hslash⟩ := segment_of_mem_segments hs
      obtain ⟨c, hc⟩ := exists_mem_of_ne_nil s hne
      rw [h c (mem_of_mem_segments hs hc)] at hc
      exact hslash hc
  . rintro ⟨hraw, h⟩
    have hall : ∀ c ∈ raw, c = '/' := by
      intro c hc
      by_contra hne
      obtain ⟨s, hs, _⟩ := exists_segment_of_mem hne hc
      rw [h] at hs
      contradiction
    refine ⟨?_, hall⟩
    match raw with
    | [] => simp at hraw
    | [c] => simp [hall] at hraw
    | _ :: _ :: _ => simp

theorem isChain_render (h : ∀ s ∈ segs, Segment s)
    : (render segs).IsChain fun a b => a = '/' → b ≠ '/' := by
  induction segs with
  | nil => simp
  | cons s segs ih =>
    rw [forall_mem_cons] at h
    have hs : ∀ c ∈ s, c ≠ '/' := fun c hc heq => h.1.2 (heq ▸ hc)
    rw [render_cons, isChain_append, isChain_cons]
    refine ⟨⟨fun c hc _ => hs c (mem_of_mem_head? hc), ?_⟩, ih h.2, ?_⟩
    . apply List.Pairwise.isChain
      apply pairwise_of_forall_mem_list
      exact fun a ha _ _ hslash => absurd hslash (hs a ha)
    . intro c hc _ _ hslash
      rw [getLast?_cons_of_ne_nil h.1.1] at hc
      exact absurd hslash (hs c (mem_of_getLast? hc))

theorem splitOn_noDot (hgood : GoodRaw p) : ∀ s ∈ p.splitOn '/', s ≠ ['.'] ∧ s ≠ ['.', '.'] := by
  intro s hs
  by_cases hne : s = []
  . simp [hne]
  . exact hgood.noDot s ((mem_splitOn_iff_mem_segments hne).mp hs)

section

variable (laws : NfcLaws nfc)

include laws

theorem normal_slash : Normal nfc isDir ['/'] := by
  constructor
  case noDot => exact splitOn_noDot goodRaw_slash
  case again => exact (canonicalizeAs_eq_ok_iff laws isDir).mpr ⟨goodRaw_slash, by simp⟩
  all_goals simp

theorem normal_dirForm (hne : segs ≠ []) (h : ∀ s ∈ segs, GoodSegment nfc s)
    : Normal nfc isDir (dirForm isDir (render segs)) := by
  have hseg : ∀ s ∈ segs, Segment s := fun s hs => (h s hs).segment
  have hform : dirForm isDir (render segs) = render segs ++ if isDir then ['/'] else [] := by
    unfold dirForm
    cases isDir with
    | true => simp [render_ne_slash hseg]
    | false => simp
  have hgood := goodRaw_dirForm isDir h
  have hlast := getLast?_render hseg
  constructor
  case head =>
    rw [hform]
    cases segs with
    | nil => contradiction
    | cons s segs => rfl
  case noEmpty =>
    rw [hform]
    apply (isChain_render hseg).append
    . split
      all_goals simp
    . intro c hc _ _ hslash
      rw [hslash] at hc
      exact absurd hc hlast
  case noDot => exact splitOn_noDot hgood
  case noControl => exact hgood.noControl
  case noBackslash => exact hgood.noBackslash
  case last =>
    have hroot : dirForm isDir (render segs) ≠ ['/'] := by
      intro heq
      have hsegs := segments_dirForm isDir (render segs)
      rw [heq, segments_render hseg] at hsegs
      exact hne hsegs.symm
    rw [or_iff_right hroot, hform]
    cases isDir with
    | true => simp
    | false => simpa using hlast
  case again => exact canonicalizeAs_render laws isDir hne h

variable (h : canonicalizeAs nfc raw isDir = .ok p)

include h

theorem eq_dirForm (hraw : isDir = true ∨ ¬ OnlySlashes raw)
    : p = if (segments raw).map nfc = [] then ['/'] else dirForm isDir (render ((segments raw).map nfc)) := by
  obtain ⟨_, rfl⟩ := (canonicalizeAs_eq_ok_iff laws isDir).mp h
  split
  . next hroot =>
    rw [if_pos]
    rcases hroot with rfl | rfl
    all_goals rfl
  . next hroot =>
    split
    . next hsegs =>
      rw [onlySlashes_iff] at hraw
      rw [hsegs, hraw.resolve_right (not_not.mpr ⟨hroot, map_eq_nil_iff.mp hsegs⟩)]
      rfl
    . rfl

theorem normal_iff : Normal nfc isDir p ↔ isDir = true ∨ ¬ OnlySlashes raw := by
  obtain ⟨hgood, hp⟩ := (canonicalizeAs_eq_ok_iff laws isDir).mp h
  constructor
  . intro hnormal
    by_contra hraw
    rw [not_or, not_not, Bool.not_eq_true, onlySlashes_iff] at hraw
    rw [if_neg hraw.2.1, hraw.2.2, hraw.1] at hp
    have hhead := hnormal.head
    simp [hp, dirForm] at hhead
  . intro hraw
    rw [eq_dirForm laws h hraw]
    split
    . exact normal_slash laws
    . next hsegs => exact normal_dirForm laws hsegs (hgood.segments_map laws)

end

theorem normal_form_iff (nfc) (laws : NfcLaws nfc) (isDir) (raw raw' p p' : Str)
    (h : canonicalizeAs nfc raw isDir = .ok p) (h' : canonicalizeAs nfc raw' isDir = .ok p')
    : (Normal nfc isDir p ∧ Normal nfc isDir p' ∧ (p = p' ↔ (segments raw).map nfc = (segments raw').map nfc))
        ↔
      isDir = true ∨ ¬ OnlySlashes raw ∧ ¬ OnlySlashes raw' := by
  rw [normal_iff laws h, normal_iff laws h', or_and_left, ← and_assoc, and_iff_left_iff_imp]
  rintro ⟨hraw, hraw'⟩
  rw [← segments_of_canonicalize laws h, ← segments_of_canonicalize laws h']
  constructor
  . exact congrArg segments
  . intro heq
    rw [segments_of_canonicalize laws h, segments_of_canonicalize laws h'] at heq
    rw [eq_dirForm laws h hraw, eq_dirForm laws h' hraw', heq]

theorem normal_form_iff_spelled
    : (Normal id false ['/', 'a'] ∧ Normal id false ['/', 'a'] ∧ (['/', 'a'] = ['/', 'a']
        ↔ (segments ['a', '/']).map id = (segments ['/', '/', 'a']).map id))
      ∧ ¬ OnlySlashes ['a', '/'] ∧ ¬ OnlySlashes ['/', '/', 'a'] := by
  have hraw : ¬ OnlySlashes ['a', '/'] ∧ ¬ OnlySlashes ['/', '/', 'a'] := by
    simp [OnlySlashes]
  exact ⟨(normal_form_iff id nfcLaws_id false _ _ _ _ (by decide) (by decide)).mpr (.inr hraw),
    hraw⟩

-- The empty string is not absolute, is no fixed point and is not what `/` gives.
theorem canonicalize_slashes
    : canonicalize id ['/', '/'] = .ok [] ∧ canonicalize id [] = .ok ['/']
      ∧ canonicalize id ['/'] = .ok ['/']
      ∧ segments ['/', '/'] = segments ['/'] ∧ ¬ Normal id false [] := by
  refine ⟨by decide, by decide, by decide, by decide, ?_⟩
  intro h
  exact absurd h.head (by decide)

end Pathutil
