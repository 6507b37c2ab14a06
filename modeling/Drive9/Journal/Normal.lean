import Drive9.Journal.Lemmas

/-!
This module contains the normal forms of labels, subjects and JSON texts: what was normalized is
normalized again to itself.
-/

namespace Journal

open List Option Json

structure Host.Lawful (host : Host) : Prop where
  nfc_nfc : ∀ s, host.nfc (host.nfc s) = host.nfc s
  trimSpace_nfc : ∀ s, trimSpace (host.nfc s) = host.nfc (trimSpace s)
  nfc_eq_nil : ∀ s, host.nfc s = [] → s = []
  toLower_word : ∀ s : Str, (∀ c ∈ s, wordChar c) → host.toLower s = s

section Trim

variable {s : Str}

def Trimmed (s : Str) : Prop :=
  (∀ c ∈ s.head?, isSpace c = false) ∧ ∀ c ∈ s.getLast?, isSpace c = false

theorem trimSpace_of_trimmed (h : Trimmed s) : trimSpace s = s := by
  unfold trimSpace
  have hleft : s.dropWhile isSpace = s := by
    cases s with
    | nil => rfl
    | cons c s =>
      rw [dropWhile_cons_of_neg]
      simp [h.1 c rfl]
  rw [hleft, rdropWhile_eq_self_iff]
  intro hne
  rw [h.2 _ (getLast?_eq_some_getLast hne)]
  simp

theorem trimmed_trimSpace (s) : Trimmed (trimSpace s) := by
  unfold trimSpace
  constructor
  . intro c hc
    have happend : (s.dropWhile isSpace).rdropWhile isSpace ++ (s.dropWhile isSpace).rtakeWhile isSpace
        = s.dropWhile isSpace :=
      rdropWhile_append_rtakeWhile
    have hhead : (s.dropWhile isSpace).head? = some c := by
      rw [← happend, head?_append, hc]
      rfl
    have hnot := head?_dropWhile_not isSpace s
    rw [hhead] at hnot
    exact hnot
  . intro c hc
    cases hs : (s.dropWhile isSpace).rdropWhile isSpace with
    | nil =>
      rw [hs] at hc
      contradiction
    | cons c' s' =>
      have hne : (s.dropWhile isSpace).rdropWhile isSpace ≠ [] := by simp [hs]
      rw [getLast?_eq_some_getLast hne] at hc
      cases hc
      simpa using rdropWhile_last_not isSpace _ hne

theorem isSpace_of_trimSpace_eq_nil (h : trimSpace s = []) : ∀ c ∈ s, isSpace c := by
  unfold trimSpace at h
  rw [rdropWhile_eq_nil_iff] at h
  rw [← dropWhile_eq_nil_iff]
  cases hs : s.dropWhile isSpace with
  | nil => rfl
  | cons c rest =>
    rw [hs] at h
    have hnot := head?_dropWhile_not isSpace s
    rw [hs] at hnot
    simp_all

theorem getLast?_append_colon (a : Str) (c : Char) (h : rest ≠ [])
    : (a ++ c :: rest).getLast? = rest.getLast? := by
  rw [getLast?_append_of_ne_nil _ (cons_ne_nil c rest)]
  cases rest with
  | nil => contradiction
  | cons d rest => rfl

theorem wordChar_lt (h : wordChar c) : c.toNat < 128 := by
  unfold wordChar lowerChar Char.isDigit at h
  simp only [Bool.or_eq_true, Bool.and_eq_true, decide_eq_true_eq] at h
  rcases h with (((h | h) | rfl) | rfl) | rfl
  . exact Nat.lt_of_le_of_lt (UInt32.le_iff_toNat_le.mp h.2) (by decide)
  . exact Nat.lt_of_le_of_lt (UInt32.le_iff_toNat_le.mp h.2) (by decide)
  . decide
  . decide
  . decide

theorem isSpace_of_wordChar (h : wordChar c) : isSpace c = false := by
  have hlt := wordChar_lt h
  unfold isSpace
  rw [Bool.or_eq_false_iff]
  constructor
  . rw [decide_eq_false_iff_not]
    intro hmem
    simp only [mem_cons, not_mem_nil, or_false] at hmem
    rcases hmem with rfl | rfl | rfl | rfl | rfl | rfl | rfl | rfl | rfl | rfl | rfl | rfl | rfl | rfl
    all_goals contradiction
  . rw [Bool.and_eq_false_iff, decide_eq_false_iff_not]
    exact .inl (by omega)

theorem trimmed_of_wordChar (h : ∀ c ∈ s, wordChar c) : Trimmed s := by
  constructor
  . intro c hc
    exact isSpace_of_wordChar (h c (mem_of_mem_head? hc))
  . intro c hc
    exact isSpace_of_wordChar (h c (mem_of_mem_getLast? hc))

end Trim

section Patterns

theorem of_check (h : check c err = .ok a) : c := by
  unfold check at h
  split at h
  . assumption
  . cases h

theorem check_of {c : Bool} (h : c) (err : InputError) : check c err = .ok () := if_pos h

theorem wordChar_of_lowerChar (h : lowerChar c) : wordChar c := by
  unfold wordChar
  rw [h]
  rfl

theorem wordChar_of_fits {max : Nat} (h : fits lowerChar wordChar max s) : ∀ c ∈ s, wordChar c := by
  cases s with
  | nil => simp
  | cons c s =>
    unfold fits at h
    rw [Bool.and_eq_true, Bool.and_eq_true, List.all_eq_true] at h
    rw [List.forall_mem_cons]
    exact ⟨wordChar_of_lowerChar h.1.1, h.1.2⟩

end Patterns

variable {host : Host}

theorem Host.Lawful.value (hl : host.Lawful) (s)
    : trimSpace (host.nfc (trimSpace s)) = host.nfc (trimSpace s)
      ∧ host.nfc (host.nfc (trimSpace s)) = host.nfc (trimSpace s) := by
  refine ⟨?_, hl.nfc_nfc _⟩
  rw [hl.trimSpace_nfc, trimSpace_of_trimmed (trimmed_trimSpace s)]

theorem Host.Lawful.word (hl : host.Lawful) {s : Str} {max : Nat}
    (h : fits lowerChar wordChar max s)
    : host.toLower (trimSpace s) = s := by
  rw [trimSpace_of_trimmed (trimmed_of_wordChar (wordChar_of_fits h)),
    hl.toLower_word s (wordChar_of_fits h)]

section Labels

theorem validateLabel_iff
    : validateLabel l = .ok () ↔ labelKeyPattern l.key ∧ utf8Len l.value ≤ maxLabelValueBytes := by
  constructor
  . intro h
    obtain ⟨_, hkey, hvalue⟩ := of_except_bind h
    exact ⟨of_check hkey, of_decide_eq_true (of_check hvalue)⟩
  . rintro ⟨hkey, hvalue⟩
    unfold validateLabel
    rw [check_of hkey]
    exact check_of (decide_eq_true hvalue) _

theorem forM_iff {f : α → Except InputError Unit} {l : List α}
    : l.forM f = .ok () ↔ ∀ a ∈ l, f a = .ok () := by
  induction l with
  | nil => simp [List.forM]; rfl
  | cons a l ih =>
    rw [forall_mem_cons]
    constructor
    . intro h
      obtain ⟨_, ha, hl⟩ := of_except_bind h
      exact ⟨ha, ih.mp hl⟩
    . rintro ⟨ha, hl⟩
      unfold List.forM
      rw [ha]
      exact ih.mpr hl

theorem validateLabels_iff {labels : List Label}
    : validateLabels labels = .ok ()
        ↔
      labels.length ≤ maxLabelsPerJournal ∧ ∀ l ∈ labels, validateLabel l = .ok () := by
  unfold validateLabels
  constructor
  . intro h
    obtain ⟨_, hlen, hall⟩ := of_except_bind h
    exact ⟨of_decide_eq_true (of_check hlen), forM_iff.mp hall⟩
  . rintro ⟨hlen, hall⟩
    rw [check_of (decide_eq_true hlen)]
    exact forM_iff.mpr hall

theorem dedupe_sublist : (dedupe key seen l).Sublist l := by
  induction l generalizing seen with
  | nil => apply List.Sublist.refl
  | cons a l ih =>
    unfold dedupe
    split
    . exact ih.cons a
    . exact ih.cons_cons a

theorem nodup_dedupe :
    ((dedupe key seen l).map key).Nodup ∧ ∀ a ∈ dedupe key seen l, key a ∉ seen := by
  induction l generalizing seen with
  | nil => simp [dedupe]
  | cons a l ih =>
    unfold dedupe
    split
    . exact ih
    . next hseen =>
      obtain ⟨hnd, hnot⟩ := @ih (key a :: seen)
      simp only [mem_cons, not_or] at hnot
      rw [map_cons, nodup_cons, forall_mem_cons]
      refine ⟨⟨?_, hnd⟩, hseen, fun b hb => (hnot b hb).2⟩
      intro hmem
      obtain ⟨b, hb, heq⟩ := mem_map.mp hmem
      exact (hnot b hb).1 heq

theorem mem_normalizeLabels (h : l ∈ normalizeLabels host labels)
    : ∃ l' ∈ labels, l = normalizeLabel host l' := by
  unfold normalizeLabels at h
  rw [mem_insertionSort] at h
  obtain ⟨l', hl', heq⟩ := mem_map.mp (dedupe_sublist.subset h)
  exact ⟨l', hl', heq.symm⟩

theorem Host.Lawful.label (hl : host.Lawful) {l : Label}
    (hvalid : validateLabel (normalizeLabel host l) = .ok ())
    : normalizeLabel host (normalizeLabel host l) = normalizeLabel host l := by
  have hkey := hl.word (validateLabel_iff.mp hvalid).1
  obtain ⟨htrim, hnfc⟩ := hl.value l.value
  unfold normalizeLabel at hkey ⊢
  rw [hkey, htrim, hnfc]

theorem length_normalizeLabels_le {labels again : List Label}
    (h : ∀ l ∈ again, normalizeLabel host l ∈ labels)
    : (normalizeLabels host again).length ≤ labels.length := by
  unfold normalizeLabels
  rw [length_insertionSort]
  apply (subperm_of_subset nodup_dedupe.1.of_map _).length_le
  intro l hmem
  obtain ⟨l', hl', rfl⟩ := mem_map.mp (dedupe_sublist.subset hmem)
  exact h l' hl'

theorem Host.Lawful.labels (hl : host.Lawful) {raw again : List Label}
    (hvalid : validateLabels (normalizeLabels host raw) = .ok ())
    (hagain : ∀ l ∈ again, l ∈ normalizeLabels host raw)
    : validateLabels (normalizeLabels host again) = .ok () := by
  rw [validateLabels_iff] at hvalid ⊢
  have hfixed : ∀ l ∈ again, normalizeLabel host l = l := by
    intro l hmem
    have hok := hvalid.2 l (hagain l hmem)
    obtain ⟨l', _, rfl⟩ := mem_normalizeLabels (hagain l hmem)
    exact hl.label hok
  constructor
  . apply Nat.le_trans _ hvalid.1
    apply length_normalizeLabels_le
    intro l hmem
    rw [hfixed l hmem]
    exact hagain l hmem
  . intro l hmem
    obtain ⟨l', hmem', rfl⟩ := mem_normalizeLabels hmem
    rw [hfixed l' hmem']
    exact hvalid.2 l' (hagain l' hmem')

end Labels

section Subjects

theorem parseSubject_ok (h : parseSubject host raw = .ok (subjectType, subjectID))
    : subjectTypePattern subjectType ∧ utf8Len subjectID ≤ maxSubjectValueBytes
      ∧ ∃ id, id ≠ [] ∧ Trimmed id ∧ subjectID = host.nfc id := by
  obtain ⟨_, hne, h1⟩ := of_except_bind h
  obtain ⟨_, htype, h2⟩ := of_except_bind h1
  obtain ⟨_, hlen, h3⟩ := of_except_bind h2
  cases h3
  refine ⟨of_check htype, of_decide_eq_true (of_check hlen), _, ?_, trimmed_trimSpace _, rfl⟩
  have hid := (of_decide_eq_true (of_check hne)).2
  intro hnil
  -- the text was trimmed, so what stands behind the colon does not end in a space
  have hlast := (trimmed_trimSpace raw).2
  have hsplit := takeWhile_append_dropWhile (p := (· ≠ ':')) (l := trimSpace raw)
  cases hdrop : (trimSpace raw).dropWhile (· ≠ ':') with
  | nil =>
    rw [hdrop] at hid
    contradiction
  | cons c rest =>
    rw [hdrop, drop_one, tail_cons] at hid hnil
    rw [hdrop] at hsplit
    rw [← hsplit, getLast?_append_colon _ c hid, getLast?_eq_some_getLast hid] at hlast
    have hspace := isSpace_of_trimSpace_eq_nil hnil _ (getLast_mem hid)
    rw [hlast _ rfl] at hspace
    contradiction

theorem takeWhile_colon (h : ∀ c ∈ subjectType, wordChar c)
    : (subjectType ++ ':' :: rest).takeWhile (· ≠ ':') = subjectType
      ∧ (subjectType ++ ':' :: rest).dropWhile (· ≠ ':') = ':' :: rest := by
  have hne : ∀ c ∈ subjectType, decide (c ≠ ':') = true := by
    intro c hc
    apply decide_eq_true
    rintro rfl
    have := h _ hc
    contradiction
  constructor
  . rw [takeWhile_append_of_pos hne]
    simp
  . rw [dropWhile_append_of_pos hne]
    simp

theorem Host.Lawful.subject (hl : host.Lawful) {raw subjectType subjectID : Str}
    (h : parseSubject host raw = .ok (subjectType, subjectID))
    : parseSubject host (subjectType ++ ':' :: subjectID) = .ok (subjectType, subjectID) := by
  obtain ⟨htype, hlen, id, hne, hid, rfl⟩ := parseSubject_ok h
  have hword := wordChar_of_fits htype
  have hnfc : host.nfc id ≠ [] := fun h => hne (hl.nfc_eq_nil id h)
  have htrim : trimSpace (host.nfc id) = host.nfc id := by
    rw [hl.trimSpace_nfc, trimSpace_of_trimmed hid]
  have hwhole : trimSpace (subjectType ++ ':' :: host.nfc id)
      = subjectType ++ ':' :: host.nfc id := by
    apply trimSpace_of_trimmed
    constructor
    . cases subjectType with
      | nil => contradiction
      | cons c rest =>
        intro c' hc'
        cases hc'
        exact isSpace_of_wordChar (hword c mem_cons_self)
    . rw [getLast?_append_colon _ _ hnfc, ← htrim]
      exact (trimmed_trimSpace _).2
  have htype' : subjectType ≠ [] := by
    rintro rfl
    contradiction
  unfold parseSubject
  dsimp only
  rw [hwhole, (takeWhile_colon hword).1, (takeWhile_colon hword).2, drop_one, tail_cons]
  rw [htrim, hl.nfc_nfc, hl.word htype, check_of (decide_eq_true ⟨htype', hnfc⟩)]
  rw [check_of htype]
  rw [check_of (decide_eq_true hlen)]
  rfl

theorem Host.Lawful.subjects (hl : host.Lawful) {rows : List SubjectRow}
    (h : ∀ r ∈ rows, ∃ raw, parseSubject host raw = .ok (r.type, r.id))
    : ∃ subjects, normalizeSubjects host (rows.filterMap fun r => (subjectOfRow host r).1) = .ok subjects := by
  have hmap : ∃ subjects, (rows.filterMap fun r => (subjectOfRow host r).1).mapM (normalizeSubject host)
      = .ok subjects := by
    induction rows with
    | nil => exact ⟨[], rfl⟩
    | cons r rows ih =>
      rw [forall_mem_cons] at h
      obtain ⟨raw, hraw⟩ := h.1
      obtain ⟨subjects, hsubjects⟩ := ih h.2
      have hparse := hl.subject hraw
      have hrow : (subjectOfRow host r).1 = some (r.type ++ ':' :: r.id) := by
        unfold subjectOfRow
        rw [hparse]
      have hnormal : normalizeSubject host (r.type ++ ':' :: r.id)
          = .ok (r.type ++ ':' :: r.id) := by
        unfold normalizeSubject
        rw [hparse]
        rfl
      rw [filterMap_cons, hrow]
      rw [mapM_cons, hnormal, hsubjects]
      exact ⟨_, rfl⟩
  obtain ⟨subjects, hsubjects⟩ := hmap
  unfold normalizeSubjects
  rw [hsubjects]
  exact ⟨_, rfl⟩

end Subjects

section Canonical

open Json (Number Value denote)

def meaning (raw : Str) : Option Value := (Json.parse raw).map denote

theorem scan_of_isSpace (h : ∀ c ∈ s, isSpace c) : Number.scan s = none := by
  cases s with
  | nil => rfl
  | cons c r =>
    have hc := h c mem_cons_self
    have hsign : Number.scanSign (c :: r) = (false, c :: r) := by
      unfold Number.scanSign
      split
      . next heq =>
        cases heq
        contradiction
      . rfl
    have hwhole : Number.scanWhole (c :: r) = ([], c :: r) := by
      unfold Number.scanWhole
      split
      . next heq =>
        cases heq
        contradiction
      . have hdigit : c.isDigit = false := by
          by_contra hd
          rw [isSpace_of_wordChar (by simp_all [wordChar])] at hc
          contradiction
        simp [hdigit]
    unfold Number.scan
    rw [hsign]
    dsimp only
    rw [hwhole]
    split
    . rfl
    . rfl

theorem parse_of_isSpace (h : ∀ c ∈ s, isSpace c) : Json.parse s = none := by
  have hskip : ∀ c ∈ Json.skip s, isSpace c := fun c hc => h c (dropWhile_subset _ hc)
  have hscan (fuel : Nat) : Json.scanValue fuel s = none := by
    cases fuel with
    | zero => rfl
    | succ fuel =>
      rw [Json.scanValue]
      split
      case h_7 => rw [scan_of_isSpace hskip, map_none]
      all_goals
        next heq =>
        rw [heq] at hskip
        have hc := hskip _ mem_cons_self
        contradiction
  unfold Json.parse
  rw [hscan]

theorem canonicalJSONRaw_of_parse (h : Json.parse raw = some v)
    : canonicalJSONRaw raw = .ok (Json.write (Json.canon v)) := by
  unfold canonicalJSONRaw
  rw [if_neg, h]
  intro hblank
  rw [parse_of_isSpace (isSpace_of_trimSpace_eq_nil hblank)] at h
  contradiction

theorem canonicalJSONRaw_normal_form (ha : meaning a = some x) (hb : meaning b = some y)
    : (canonicalJSONRaw a = canonicalJSONRaw b ↔ x = y)
      ∧ ∃ out, canonicalJSONRaw a = .ok out ∧ meaning out = some x
      ∧ canonicalJSONRaw out = .ok out := by
  obtain ⟨v, hv, rfl⟩ := map_eq_some_iff.mp ha
  obtain ⟨w, hw, rfl⟩ := map_eq_some_iff.mp hb
  rw [canonicalJSONRaw_of_parse hv, canonicalJSONRaw_of_parse hw]
  constructor
  . rw [Except.ok.injEq, write_injective.eq_iff]
    exact canon_eq_iff v w
  . refine ⟨_, rfl, ?_, ?_⟩
    . unfold meaning
      rw [parse_write, map_some, (canon_eq_iff _ _).mp (canon_canon v)]
    . rw [canonicalJSONRaw_of_parse (parse_write _), canon_canon]

theorem canonicalJSONRaw_normal_form_escaped
    : canonicalJSONRaw "[\"\\/\"]".toList = canonicalJSONRaw "[\"/\"]".toList := by
  have ha : meaning "[\"\\/\"]".toList = some (.arr [.str ['/']]) := rfl
  have hb : meaning "[\"/\"]".toList = some (.arr [.str ['/']]) := rfl
  exact (canonicalJSONRaw_normal_form ha hb).1.mpr rfl

end Canonical

end Journal
