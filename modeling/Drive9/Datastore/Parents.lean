import Mathlib.Data.List.Infix
import Drive9.Datastore.PathLemmas
import Drive9.Datastore.Store

/-!
This module contains the parent and the base name of a path, as `pkg/datastore` and as
`pkg/pathutil` compute them: they agree on canonical paths.
-/

open List

namespace Str

theorem dirPart_append_slash (a b : Str) : dirPart (a ++ '/' :: b) = a ++ '/' :: dirPart b := by
  unfold dirPart
  induction b using List.reverseRecOn with
  | nil => rw [rdropWhile_concat_neg _ _ _ (by simp), rdropWhile_nil]
  | append_singleton b c ih =>
    rw [← cons_append, ← append_assoc, rdropWhile_concat, rdropWhile_concat]
    split
    . exact ih
    . rw [append_assoc, cons_append]

theorem basePart_append_slash (a b : Str) : basePart (a ++ '/' :: b) = basePart b := by
  unfold basePart
  induction b using List.reverseRecOn with
  | nil => rw [rtakeWhile_concat_neg _ _ _ (by simp), rtakeWhile_nil]
  | append_singleton b c ih =>
    rw [← cons_append, ← append_assoc, rtakeWhile_concat, rtakeWhile_concat]
    split
    . rw [ih]
    . rfl

theorem dirPart_of_not_mem (h : '/' ∉ s) : dirPart s = [] := by
  unfold dirPart
  rw [rdropWhile_eq_nil_iff]
  intro c hc
  rw [decide_eq_true_eq]
  exact fun heq => h (heq ▸ hc)

theorem basePart_of_not_mem (h : '/' ∉ s) : basePart s = s := by
  unfold basePart
  rw [rtakeWhile_eq_self_iff]
  intro c hc
  rw [decide_eq_true_eq]
  exact fun heq => h (heq ▸ hc)

theorem getLast?_dirPart (h : dirPart s ≠ []) : (dirPart s).getLast? = some '/' := by
  rw [getLast?_eq_some_getLast h]
  have hlast := rdropWhile_last_not _ s h
  rw [decide_eq_true_eq, not_not] at hlast
  exact congrArg some hlast

theorem trimSlash_append (h : b ≠ []) : trimSlash (a ++ b) = a ++ trimSlash b := by
  unfold trimSlash
  rw [getLast?_append_of_ne_nil a h]
  split
  . exact dropLast_append_of_ne_nil h
  . rfl

theorem trimSlash_of_not_mem (h : '/' ∉ s) : trimSlash s = s := by
  unfold trimSlash
  rw [if_neg]
  exact fun hlast => h (mem_of_getLast? hlast)

theorem prefix_trimSlash (s : Str) : trimSlash s <+: s := by
  unfold trimSlash
  split
  . exact dropLast_prefix s
  . exact prefix_rfl

end Str

namespace Datastore

open Str

theorem parentPath_append (e : Str) (h : rest ≠ [])
    : parentPath (e ++ '/' :: rest) = e ++ '/' :: dirPart (trimSlash rest) := by
  have hne : e ++ '/' :: rest ≠ ['/'] := by
    intro heq
    have hlen := congrArg List.length heq
    have := length_pos_of_ne_nil h
    simp only [length_append, length_cons, length_nil] at hlen
    omega
  unfold parentPath
  rw [if_neg hne, ← singleton_append, ← append_assoc, trimSlash_append h, append_assoc,
    singleton_append, dirPart_append_slash]
  dsimp only
  split
  . next hlen =>
    simp only [length_append, length_cons] at hlen
    rw [eq_nil_of_length_eq_zero (l := e) (by omega),
      eq_nil_of_length_eq_zero (l := dirPart (trimSlash rest)) (by omega)]
    rfl
  . rfl

theorem baseName_append (e : Str) (h : rest ≠ [])
    : baseName (e ++ '/' :: rest) = basePart (trimSlash rest) := by
  unfold baseName
  rw [← singleton_append, ← append_assoc, trimSlash_append h, append_assoc, singleton_append,
    basePart_append_slash]

def dirsAbove (p : Str) : List Str :=
  p.inits.filter fun d => d.getLast? = some '/' ∧ d ≠ ['/'] ∧ d ≠ p

theorem mem_dirsAbove : d ∈ dirsAbove p ↔ d <+: p ∧ d.getLast? = some '/' ∧ d ≠ ['/'] ∧ d ≠ p := by
  unfold dirsAbove
  rw [mem_filter, mem_inits, decide_eq_true_eq]

theorem length_lt_of_mem_dirsAbove (h : d ∈ dirsAbove p) : d.length < p.length := by
  obtain ⟨hin, _, _, hne⟩ := mem_dirsAbove.mp h
  apply Nat.lt_of_le_of_ne hin.length_le
  exact fun hlen => hne (hin.eq_of_length hlen)

theorem dirsAbove_trans (hc : c ∈ dirsAbove d) (hd : d ∈ dirsAbove p) : c ∈ dirsAbove p := by
  have hlen := length_lt_of_mem_dirsAbove hc
  have hlen' := length_lt_of_mem_dirsAbove hd
  obtain ⟨hcd, hlast, hroot, _⟩ := mem_dirsAbove.mp hc
  obtain ⟨hdp, _, _, _⟩ := mem_dirsAbove.mp hd
  refine mem_dirsAbove.mpr ⟨hcd.trans hdp, hlast, hroot, ?_⟩
  rintro rfl
  omega

theorem parentPath_mem_dirsAbove (p : Str) : parentPath p = ['/'] ∨ parentPath p ∈ dirsAbove p := by
  unfold parentPath
  split
  . exact .inl rfl
  . dsimp only
    split
    . exact .inl rfl
    . next hlen =>
      right
      have hne : dirPart (trimSlash p) ≠ [] := by
        intro heq
        rw [heq] at hlen
        exact hlen (Nat.zero_le 1)
      have hlast := getLast?_dirPart hne
      refine mem_dirsAbove.mpr ⟨(List.rdropWhile_prefix _ _).trans (prefix_trimSlash p), hlast, ?_,
        ?_⟩
      . intro heq
        rw [heq] at hlen
        exact hlen (Nat.le_refl 1)
      . -- a path that ends in a slash is longer than what is left of it without
        intro heq
        have hle := (List.rdropWhile_prefix (fun c => decide (c ≠ '/')) (trimSlash p)).length_le
        change (dirPart (trimSlash p)).length ≤ _ at hle
        rw [heq] at hlast hle
        unfold trimSlash at hle
        rw [if_pos hlast, length_dropLast] at hle
        have : p ≠ [] := by
          rintro rfl
          contradiction
        have := length_pos_of_ne_nil this
        omega

theorem ancestors_subset (h : d ∈ ancestors fuel p) : d ∈ dirsAbove p := by
  induction fuel generalizing p with
  | zero => contradiction
  | succ fuel ih =>
    unfold ancestors at h
    dsimp only at h
    split at h
    . contradiction
    . next hstop =>
      rw [not_or] at hstop
      have hparent := (parentPath_mem_dirsAbove p).resolve_left hstop.2
      cases mem_cons.mp h with
      | inl h => exact h ▸ hparent
      | inr h => exact dirsAbove_trans (ih h) hparent

theorem parentPath_mem_ancestors (hfuel : p.length ≤ fuel)
    : parentPath p = ['/'] ∨ parentPath p ∈ ancestors fuel p := by
  cases parentPath_mem_dirsAbove p with
  | inl h => exact .inl h
  | inr h =>
    right
    have hlen := length_lt_of_mem_dirsAbove h
    obtain ⟨_, _, hroot, hne⟩ := mem_dirsAbove.mp h
    cases fuel with
    | zero => omega
    | succ fuel =>
      unfold ancestors
      rw [if_neg (not_or.mpr ⟨hne, hroot⟩)]
      exact mem_cons_self

theorem ancestors_closed (hfuel : p.length ≤ fuel) (h : d ∈ ancestors fuel p)
    : parentPath d = ['/'] ∨ parentPath d ∈ ancestors fuel p := by
  induction fuel generalizing p with
  | zero => contradiction
  | succ fuel ih =>
    unfold ancestors at h ⊢
    dsimp only at h ⊢
    split at h
    . contradiction
    . next hstop =>
      rw [if_neg hstop]
      have hlen :=
        length_lt_of_mem_dirsAbove ((parentPath_mem_dirsAbove p).resolve_left (not_or.mp hstop).2)
      have hfuel' : (parentPath p).length ≤ fuel := by omega
      have hclosed : parentPath d = ['/'] ∨ parentPath d ∈ ancestors fuel (parentPath p) := by
        cases mem_cons.mp h with
        | inl h =>
          rw [h]
          exact parentPath_mem_ancestors hfuel'
        | inr h => exact ih hfuel' h
      cases hclosed with
      | inl h => exact .inl h
      | inr h => exact .inr (mem_cons_of_mem _ h)

end Datastore

namespace Pathutil

open Str PathPkg

variable {nfc : Str → Str} {segs : List Str} {s : Str}

theorem render_concat (segs) (s) : render (segs ++ [s]) = render segs ++ '/' :: s := by
  rw [render_append, render_cons, render_nil, append_nil]

theorem trimSlash_render_concat (hs : Segment s)
    : trimSlash (render (segs ++ [s])) = render (segs ++ [s]) := by
  rw [render_concat, ← singleton_append, ← append_assoc, trimSlash_append hs.1,
    trimSlash_of_not_mem hs.2]

theorem render_concat_ne (segs) (hs : Segment s)
    : render (segs ++ [s]) ≠ ['/'] ∧ render (segs ++ [s]) ++ ['/'] ≠ ['/'] := by
  have := length_pos_of_ne_nil hs.1
  constructor
  all_goals
    intro heq
    have hlen := congrArg List.length heq
    simp only [render_concat, length_append, length_cons, length_nil] at hlen
    omega

theorem clean_render_slash (h : ∀ s ∈ segs, GoodSegment nfc s)
    : clean (render segs ++ ['/']) = if segs = [] then ['/'] else render segs := by
  have hseg : ∀ s ∈ segs, Segment s := fun s hs => (h s hs).segment
  cases segs with
  | nil => rfl
  | cons t ts =>
    have hsegs : segments (t ++ render ts ++ ['/']) = t :: ts := by
      rw [segments_append_singleton]
      have := segments_render hseg
      rwa [render_cons, cons_append, segments_slash_cons] at this
    rw [render_cons, cons_append, cons_append, clean_rooted]
    . rw [hsegs, slash_intercalate (cons_ne_nil t ts), if_neg (cons_ne_nil t ts), render_cons,
        cons_append]
    . rw [hsegs]
      exact fun s hs => (h s hs).noDot

variable (h : ∀ t ∈ segs ++ [s], GoodSegment nfc t)

include h

theorem good_init : ∀ t ∈ segs, GoodSegment nfc t := fun t ht => h t (mem_append_left _ ht)

theorem segment_last : Segment s := (h s (by simp)).segment

theorem dir_render_concat
    : dir (render (segs ++ [s])) = if segs = [] then ['/'] else render segs := by
  unfold dir
  rw [render_concat, dirPart_append_slash, dirPart_of_not_mem (segment_last h).2]
  exact clean_render_slash (good_init h)

theorem parentPath_eq_of_trimSlash (hp : p ≠ ['/']) (htrim : trimSlash p = render (segs ++ [s]))
    : parentPath p = render segs ++ ['/'] := by
  have hseg : ∀ t ∈ segs, Segment t := fun t ht => (good_init h t ht).segment
  unfold parentPath
  rw [if_neg hp, htrim, dir_render_concat h]
  cases hsegs : segs with
  | nil => rfl
  | cons t ts =>
    rw [hsegs] at hseg
    have hdot : render (t :: ts) ≠ ['.'] := by simp
    rw [if_neg (cons_ne_nil t ts), if_neg hdot, if_neg (getLast?_render hseg)]

theorem parentPath_render : parentPath (render (segs ++ [s])) = render segs ++ ['/'] :=
  parentPath_eq_of_trimSlash h (render_concat_ne segs (segment_last h)).1 (trimSlash_render_concat (segment_last h))

theorem parentPath_render_slash
    : parentPath (render (segs ++ [s]) ++ ['/']) = render segs ++ ['/'] :=
  parentPath_eq_of_trimSlash h (render_concat_ne segs (segment_last h)).2 (trimSlash_concat _)

theorem baseName_eq_of_trimSlash (hp : p ≠ ['/']) (htrim : trimSlash p = render (segs ++ [s]))
    : baseName p = s := by
  have hs := segment_last h
  have hne : render (segs ++ [s]) ≠ [] := by simp [render_concat]
  have hself : (render (segs ++ [s])).rdropWhile (fun c => decide (c = '/'))
      = render (segs ++ [s]) := by
    rw [rdropWhile_eq_self_iff]
    intro hne hlast
    have hmem := getLast?_render fun t ht => (h t ht).segment
    rw [getLast?_eq_some_getLast hne] at hmem
    exact hmem (congrArg some (by simpa using hlast))
  unfold baseName base
  rw [if_neg hp, htrim, if_neg hne, hself, render_concat, basePart_append_slash,
    basePart_of_not_mem hs.2]
  rw [if_neg hs.1]

theorem baseName_render : baseName (render (segs ++ [s])) = s :=
  baseName_eq_of_trimSlash h (render_concat_ne segs (segment_last h)).1 (trimSlash_render_concat (segment_last h))

theorem baseName_render_slash : baseName (render (segs ++ [s]) ++ ['/']) = s :=
  baseName_eq_of_trimSlash h (render_concat_ne segs (segment_last h)).2 (trimSlash_concat _)

end Pathutil

namespace Datastore

open Str Pathutil

variable {nfc : Str → Str} {segs : List Str} {s : Str} (h : ∀ t ∈ segs ++ [s], GoodSegment nfc t)

include h

theorem parentPath_render : parentPath (render (segs ++ [s])) = render segs ++ ['/'] := by
  have hs := segment_last h
  rw [render_concat, parentPath_append _ hs.1, trimSlash_of_not_mem hs.2, dirPart_of_not_mem hs.2]

theorem parentPath_render_slash
    : parentPath (render (segs ++ [s]) ++ ['/']) = render segs ++ ['/'] := by
  have hs := segment_last h
  rw [render_concat, append_assoc, cons_append, parentPath_append _ (by simp), trimSlash_concat,
    dirPart_of_not_mem hs.2]

theorem baseName_render : baseName (render (segs ++ [s])) = s := by
  have hs := segment_last h
  rw [render_concat, baseName_append _ hs.1, trimSlash_of_not_mem hs.2, basePart_of_not_mem hs.2]

theorem baseName_render_slash : baseName (render (segs ++ [s]) ++ ['/']) = s := by
  have hs := segment_last h
  rw [render_concat, append_assoc, cons_append, baseName_append _ (by simp), trimSlash_concat,
    basePart_of_not_mem hs.2]

end Datastore

namespace Pathutil

open Str Datastore

-- The path of a file or of a directory.
def CanonicalPath (nfc : Str → Str) (p : Str) : Prop :=
  canonicalize nfc p = .ok p ∨ canonicalizeDir nfc p = .ok p

section Forms

variable {nfc : Str → Str} (laws : NfcLaws nfc)

include laws

theorem canonicalizeDir_render (h : ∀ t ∈ segs, GoodSegment nfc t)
    : canonicalizeDir nfc (render segs ++ ['/']) = .ok (render segs ++ ['/']) := by
  apply (canonicalizeDir_eq_ok_iff laws).mpr
  rw [segments_append_singleton, segments_render fun t ht => (h t ht).segment, render_map_nfc h]
  exact ⟨(goodRaw_render h).concat_slash, rfl⟩

theorem canonicalizeDir_idem (h : canonicalizeDir nfc raw = .ok d)
    : canonicalizeDir nfc d = .ok d := by
  obtain ⟨hgood, rfl⟩ := (canonicalizeDir_eq_ok_iff laws).mp h
  exact canonicalizeDir_render laws (hgood.segments_map laws)

section Segments

variable {segs : List Str} {s : Str} (h : ∀ t ∈ segs ++ [s], GoodSegment nfc t)

include h

theorem canonicalize_render_concat
    : canonicalize nfc (render (segs ++ [s])) = .ok (render (segs ++ [s])) :=
  canonicalize_render laws (by simp) h

theorem canonicalizeDir_render_concat
    : canonicalizeDir nfc (render (segs ++ [s])) = .ok (render (segs ++ [s]) ++ ['/']) := by
  rw [canonicalizeDir_of_canonicalize laws (canonicalize_render_concat laws h)]
  unfold dirForm
  rw [if_pos ⟨rfl, (render_concat_ne segs (segment_last h)).1⟩]

theorem canonicalize_render_slash
    : canonicalize nfc (render (segs ++ [s]) ++ ['/']) = .ok (render (segs ++ [s])) := by
  apply (canonicalize_eq_ok_iff laws).mpr
  refine ⟨(goodRaw_render h).concat_slash, ?_⟩
  rw [if_neg, segments_append_singleton, segments_render fun t ht => (h t ht).segment,
    render_map_nfc h]
  rintro (hnil | hroot)
  . simp at hnil
  . exact (render_concat_ne segs (segment_last h)).2 hroot

theorem canonicalizeDir_render_slash
    : canonicalizeDir nfc (render (segs ++ [s]) ++ ['/']) = .ok (render (segs ++ [s]) ++ ['/']) :=
  canonicalizeDir_render laws h

end Segments

theorem exists_of_canonicalize (hp : canonicalize nfc raw = .ok p) (hraw : segments raw ≠ [])
    : ∃ segs s, (∀ t ∈ segs ++ [s], GoodSegment nfc t) ∧ p = render (segs ++ [s]) := by
  obtain ⟨hgood, heq⟩ := (canonicalize_eq_ok_iff laws).mp hp
  have hroot : ¬ (raw = [] ∨ raw = ['/']) := by
    rintro (rfl | rfl)
    all_goals exact hraw rfl
  have hsegs := hgood.segments_map laws
  rw [if_neg hroot] at heq
  obtain hnil | ⟨segs, s, hsplit⟩ := eq_nil_or_concat ((segments raw).map nfc)
  . exact absurd (map_eq_nil_iff.mp hnil) hraw
  . rw [hsplit, concat_eq_append] at hsegs heq
    exact ⟨segs, s, hsegs, heq⟩

theorem exists_of_canonicalizeDir (hp : canonicalizeDir nfc raw = .ok p)
    : p = ['/'] ∨ ∃ segs s, (∀ t ∈ segs ++ [s], GoodSegment nfc t)
      ∧ p = render (segs ++ [s]) ++ ['/'] := by
  obtain ⟨hgood, heq⟩ := (canonicalizeDir_eq_ok_iff laws).mp hp
  have hsegs := hgood.segments_map laws
  obtain hnil | ⟨segs, s, hsplit⟩ := eq_nil_or_concat ((segments raw).map nfc)
  . rw [hnil] at heq
    exact .inl heq
  . rw [hsplit, concat_eq_append] at hsegs heq
    exact .inr ⟨segs, s, hsegs, heq⟩

section

variable (h : CanonicalPath nfc p)

include h

theorem CanonicalPath.cases : p = ['/'] ∨ ∃ segs s, (∀ t ∈ segs ++ [s], GoodSegment nfc t)
      ∧ (p = render (segs ++ [s]) ∨ p = render (segs ++ [s]) ++ ['/']) := by
  cases h with
  | inl h =>
    by_cases hsegs : segments p = []
    . obtain ⟨_, heq⟩ := (canonicalize_eq_ok_iff laws).mp h
      split at heq
      . exact .inl heq
      . next hroot =>
        rw [hsegs] at heq
        exact absurd (.inl heq) hroot
    . obtain ⟨segs, s, hgood, hp⟩ := exists_of_canonicalize laws h hsegs
      exact .inr ⟨segs, s, hgood, .inl hp⟩
  | inr h =>
    cases exists_of_canonicalizeDir laws h with
    | inl h => exact .inl h
    | inr h =>
      obtain ⟨segs, s, hgood, hp⟩ := h
      exact .inr ⟨segs, s, hgood, .inr hp⟩

theorem CanonicalPath.exists_canonicalize : ∃ q, canonicalize nfc p = .ok q := by
  obtain rfl | ⟨segs, s, hgood, rfl | rfl⟩ := h.cases laws
  . exact ⟨_, rfl⟩
  . exact ⟨_, canonicalize_render_concat laws hgood⟩
  . exact ⟨_, canonicalize_render_slash laws hgood⟩

theorem CanonicalPath.parentPath_eq : Pathutil.parentPath p = Datastore.parentPath p := by
  obtain rfl | ⟨segs, s, hgood, rfl | rfl⟩ := h.cases laws
  . rfl
  . rw [parentPath_render hgood, Datastore.parentPath_render hgood]
  . rw [parentPath_render_slash hgood, Datastore.parentPath_render_slash hgood]

theorem CanonicalPath.baseName_eq (hp : p ≠ ['/'])
    : Pathutil.baseName p = Datastore.baseName p := by
  obtain rfl | ⟨segs, s, hgood, rfl | rfl⟩ := h.cases laws
  . contradiction
  . rw [baseName_render hgood, Datastore.baseName_render hgood]
  . rw [baseName_render_slash hgood, Datastore.baseName_render_slash hgood]

end

end Forms

end Pathutil

namespace Datastore

open Str Pathutil

theorem canonicalizeDir_of_mem_ancestors (laws : NfcLaws nfc) (hp : CanonicalPath nfc p)
    (hd : d ∈ ancestors fuel p)
    : canonicalizeDir nfc d = .ok d := by
  induction fuel generalizing p with
  | zero => contradiction
  | succ fuel ih =>
    unfold ancestors at hd
    dsimp only at hd
    split at hd
    . contradiction
    . next hstop =>
      have hparent : canonicalizeDir nfc (parentPath p) = .ok (parentPath p) := by
        obtain rfl | ⟨segs, s, hgood, rfl | rfl⟩ := hp.cases laws
        . rfl
        . rw [parentPath_render hgood]
          exact canonicalizeDir_render laws (good_init hgood)
        . rw [parentPath_render_slash hgood]
          exact canonicalizeDir_render laws (good_init hgood)
      cases mem_cons.mp hd with
      | inl hd => rwa [hd]
      | inr hd => exact ih (.inr hparent) hd

end Datastore

namespace Datastore

open Str Pathutil

theorem mem_dirsAbove_concat (hq : q.getLast? ≠ some '/')
    : d ∈ dirsAbove (q ++ ['/']) ↔ d ∈ dirsAbove q := by
  rw [mem_dirsAbove, mem_dirsAbove]
  constructor
  . rintro ⟨hin, hlast, hroot, hne⟩
    have hin := (prefix_concat_iff.mp hin).resolve_left hne
    refine ⟨hin, hlast, hroot, ?_⟩
    rintro rfl
    exact hq hlast
  . rintro ⟨hin, hlast, hroot, hne⟩
    refine ⟨hin.trans (prefix_append q ['/']), hlast, hroot, ?_⟩
    rintro rfl
    have hlen := hin.length_le
    rw [length_append, length_singleton] at hlen
    omega

end Datastore

namespace Pathutil

open Str Datastore

variable {nfc : Str → Str} (laws : NfcLaws nfc) {path p : Str} (hpath : CanonicalPath nfc path)

include laws hpath

theorem CanonicalPath.file (hp : canonicalize nfc path = .ok p)
    : canonicalize nfc p = .ok p ∧ (p = ['/'] ∨ p.getLast? ≠ some '/')
      ∧ ∀ d, d ∈ dirsAbove p ↔ d ∈ dirsAbove path := by
  obtain rfl | ⟨segs, s, hgood, rfl | rfl⟩ := hpath.cases laws
  . cases hp
    exact ⟨rfl, .inl rfl, fun d => Iff.rfl⟩
  . have hlast := getLast?_render fun t ht => (hgood t ht).segment
    rw [canonicalize_render_concat laws hgood] at hp
    cases hp
    exact ⟨canonicalize_render_concat laws hgood, .inr hlast, fun d => Iff.rfl⟩
  . have hlast := getLast?_render fun t ht => (hgood t ht).segment
    rw [canonicalize_render_slash laws hgood] at hp
    cases hp
    exact ⟨canonicalize_render_concat laws hgood, .inr hlast,
      fun d => (mem_dirsAbove_concat hlast).symm⟩

theorem CanonicalPath.dir (hp : canonicalizeDir nfc path = .ok p)
    : canonicalizeDir nfc p = .ok p ∧ p <+: path ++ ['/']
      ∧ ∀ d, d ∈ dirsAbove p ↔ d ∈ dirsAbove path := by
  obtain rfl | ⟨segs, s, hgood, rfl | rfl⟩ := hpath.cases laws
  . cases hp
    exact ⟨rfl, prefix_append _ _, fun d => Iff.rfl⟩
  . have hlast := getLast?_render fun t ht => (hgood t ht).segment
    rw [canonicalizeDir_render_concat laws hgood] at hp
    cases hp
    exact ⟨canonicalizeDir_render_slash laws hgood, prefix_rfl, fun d => mem_dirsAbove_concat hlast⟩
  . rw [canonicalizeDir_render_slash laws hgood] at hp
    cases hp
    exact ⟨canonicalizeDir_render_slash laws hgood, prefix_append _ _, fun d => Iff.rfl⟩

end Pathutil
