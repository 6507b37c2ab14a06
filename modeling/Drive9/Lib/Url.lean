import Mathlib.Data.List.TakeWhile
import Mathlib.Tactic.Common

/-!
This module contains the parts of a URL that a server reads: the path and the query, as `net/url`
parses them.
-/

abbrev Octets := List UInt8

variable {b sep : UInt8} {a path : Octets}

open Option

open List hiding tail map_map

namespace Octets

def ofChars (cs : List Char) : Octets := cs.flatMap String.utf8EncodeChar

def text (s : String) : Octets := ofChars s.toList

def cut (sep : UInt8) (s : Octets) : Octets × Octets :=
  (s.takeWhile (· ≠ sep), (s.dropWhile (· ≠ sep)).drop 1)

def trimPrefix (s p : Octets) : Octets := if p <+: s then s.drop p.length else s

def isBlank (b : UInt8) : Bool := b = 0x20 || b = 0x09 || b = 0x0a || b = 0x0d

def trimBlanks (s : Octets) : Octets := ((s.dropWhile isBlank).reverse.dropWhile isBlank).reverse

section OfChars

variable {c : Char}

theorem mem_utf8EncodeChar_cases (hb : b ∈ String.utf8EncodeChar c)
    : (c.toNat < 128 ∧ b.toNat = c.toNat) ∨ 128 ≤ b.toNat := by
  have hbyte : ∀ n < 256, (UInt8.ofNat n).toNat = n := by
    intro n hn
    rw [UInt8.toNat_ofNat', Nat.mod_eq_of_lt hn]
  have hval : c.val.toNat = c.toNat := rfl
  unfold String.utf8EncodeChar at hb
  dsimp only at hb
  rw [hval] at hb
  split at hb
  . rw [mem_singleton.mp hb]
    left
    exact ⟨by omega, hbyte _ (by omega)⟩
  . right
    split at hb
    . simp only [mem_cons, not_mem_nil, or_false] at hb
      obtain rfl | rfl := hb
      all_goals rw [hbyte]
      all_goals omega
    . split at hb
      . simp only [mem_cons, not_mem_nil, or_false] at hb
        obtain rfl | rfl | rfl := hb
        all_goals rw [hbyte]
        all_goals omega
      . simp only [mem_cons, not_mem_nil, or_false] at hb
        obtain rfl | rfl | rfl | rfl := hb
        all_goals rw [hbyte]
        all_goals omega

theorem utf8EncodeChar_of_lt (h : c.toNat < 128)
    : String.utf8EncodeChar c = [UInt8.ofNat c.toNat] := by
  unfold String.utf8EncodeChar
  have hle : c.val.toNat ≤ 127 := Nat.le_of_lt_succ h
  rw [if_pos hle]
  rfl

variable {s : List Char}

theorem ofChars_of_lt (h : ∀ c ∈ s, c.toNat < 128)
    : ofChars s = s.map fun c => UInt8.ofNat c.toNat := by
  unfold ofChars
  induction s with
  | nil => rfl
  | cons c s ih =>
    rw [flatMap_cons, utf8EncodeChar_of_lt (h c mem_cons_self),
      ih fun d hd => h d (mem_cons_of_mem _ hd)]
    rfl

theorem exists_of_mem_ofChars (hb : b ∈ ofChars s) (hlt : b.toNat < 128)
    : ∃ c ∈ s, c.toNat = b.toNat := by
  obtain ⟨c, hc, hb⟩ := mem_flatMap.mp hb
  refine ⟨c, hc, ?_⟩
  cases mem_utf8EncodeChar_cases hb with
  | inl h => exact h.2.symm
  | inr h => omega

theorem mem_ofChars {a : Char} (ha : a.toNat < 128) : UInt8.ofNat a.toNat ∈ ofChars s ↔ a ∈ s := by
  have hbyte : (UInt8.ofNat a.toNat).toNat = a.toNat := by
    rw [UInt8.toNat_ofNat', Nat.mod_eq_of_lt (by omega)]
  constructor
  . intro hmem
    obtain ⟨c, hc, heq⟩ := exists_of_mem_ofChars hmem (by rwa [hbyte])
    rw [hbyte] at heq
    rwa [← Char.toNat_inj.mp heq]
  . intro hmem
    apply mem_flatMap.mpr
    refine ⟨a, hmem, ?_⟩
    rw [utf8EncodeChar_of_lt ha]
    exact mem_singleton_self _

theorem exists_getLast?_utf8EncodeChar (c)
    : ∃ b, (String.utf8EncodeChar c).getLast? = some b ∧ b ∈ String.utf8EncodeChar c := by
  cases hb : (String.utf8EncodeChar c).getLast? with
  | none =>
    rw [getLast?_eq_none_iff] at hb
    exact absurd hb String.utf8EncodeChar_ne_nil
  | some b => exact ⟨b, rfl, mem_of_getLast? hb⟩

theorem getLast?_ofChars (hb : (ofChars s).getLast? = some b) (hlt : b.toNat < 128)
    : ∃ c, s.getLast? = some c ∧ c.toNat = b.toNat := by
  obtain rfl | ⟨s, c, rfl⟩ := eq_nil_or_concat s
  . contradiction
  . obtain ⟨b', hb', hmem⟩ := exists_getLast?_utf8EncodeChar c
    have heq : ofChars (s ++ [c]) = ofChars s ++ String.utf8EncodeChar c := by
      simp [ofChars]
    rw [concat_eq_append, heq, getLast?_append, hb', some_or, some_inj] at hb
    rw [concat_eq_append, getLast?_concat]
    refine ⟨c, rfl, ?_⟩
    rw [← hb]
    cases mem_utf8EncodeChar_cases hmem with
    | inl h => exact h.2.symm
    | inr h =>
      rw [hb] at h
      omega

theorem getLast?_ofChars_concat (hc : c.toNat < 128)
    : (ofChars (s ++ [c])).getLast? = some (UInt8.ofNat c.toNat) := by
  have heq : ofChars (s ++ [c]) = ofChars s ++ String.utf8EncodeChar c := by
    simp [ofChars]
  rw [heq, utf8EncodeChar_of_lt hc, getLast?_concat]

end OfChars

theorem cut_of_not_mem (h : sep ∉ a) : cut sep a = (a, []) := by
  have hne : ∀ x ∈ a, decide (x ≠ sep) = true := by
    intro x hx
    rw [decide_eq_true_eq]
    rintro rfl
    contradiction
  unfold cut
  rw [takeWhile_eq_self_iff.mpr hne, dropWhile_eq_nil_iff.mpr hne]
  rfl

theorem cut_append_cons {b : Octets} (h : sep ∉ a) : cut sep (a ++ sep :: b) = (a, b) := by
  have hne : ∀ x ∈ a, decide (x ≠ sep) = true := by
    intro x hx
    rw [decide_eq_true_eq]
    rintro rfl
    contradiction
  unfold cut
  rw [takeWhile_append_of_pos hne, dropWhile_append_of_pos hne]
  simp

theorem trimPrefix_append (p s : Octets) : trimPrefix (p ++ s) p = s := by
  unfold trimPrefix
  rw [if_pos (prefix_append p s), drop_left]

theorem trimBlanks_eq_self_iff (hhead : ∀ b, s.head? = some b → isBlank b = false)
    : trimBlanks s = s ↔ ∀ b, s.getLast? = some b → isBlank b = false := by
  have hdrop : s.dropWhile isBlank = s := by
    cases s with
    | nil => rfl
    | cons b s => rw [dropWhile_cons, if_neg (by simp [hhead b rfl])]
  unfold trimBlanks
  rw [hdrop, reverse_eq_iff, ← head?_reverse]
  cases s.reverse with
  | nil => simp
  | cons b t =>
    rw [dropWhile_cons, head?_cons]
    split
    . next hb =>
      constructor
      . intro heq
        have hlen := (dropWhile_sublist isBlank (l := t)).length_le
        rw [heq, length_cons] at hlen
        omega
      . intro hc
        have := hc b rfl
        rw [hb] at this
        contradiction
    . next hb => simpa using hb

end Octets

namespace Url

open Octets

def unhex (b : UInt8) : Option UInt8 :=
  if 0x30 ≤ b ∧ b ≤ 0x39 then
    some (b - 0x30)
  else if 0x61 ≤ b ∧ b ≤ 0x66 then
    some (b - 0x61 + 10)
  else if 0x41 ≤ b ∧ b ≤ 0x46 then
    some (b - 0x41 + 10)
  else
    none

def unescape (plus : Bool) (s : Octets) : Option Octets :=
  match s with
  | [] => some []
  | b :: s =>
    if b = 0x25 then
      match s with
      | h :: l :: s =>
        match unhex h, unhex l with
        | some h, some l => (unescape plus s).map ((h * 16 + l) :: ·)
        | _, _ => none
      | _ => none
    else
      (unescape plus s).map ((if plus && b = 0x2b then 0x20 else b) :: ·)

variable {plus : Bool}

theorem unescape_cons (h : b ≠ 0x25) (s : Octets)
    : unescape plus (b :: s) = (unescape plus s).map ((if plus && b = 0x2b then 0x20 else b) :: ·) := by
  rw [unescape.eq_def]
  exact if_neg h

theorem unescape_append (h : 0x25 ∉ a) (hplus : plus = true → 0x2b ∉ a) (b : Octets)
    : unescape plus (a ++ b) = (unescape plus b).map (a ++ ·) := by
  induction a with
  | nil => simp
  | cons x a ih =>
    rw [mem_cons, not_or] at h
    have hx : ¬ (plus && x = 0x2b) = true := by
      rw [Bool.and_eq_true, decide_eq_true_eq]
      rintro ⟨hp, rfl⟩
      exact hplus hp mem_cons_self
    rw [cons_append, unescape_cons (Ne.symm h.1), if_neg hx]
    rw [ih h.2 fun hp hmem => hplus hp (mem_cons_of_mem _ hmem), map_map]
    rfl

theorem unescape_eq_self (h : 0x25 ∉ a) (hplus : plus = true → 0x2b ∉ a)
    : unescape plus a = some a := by
  have := unescape_append h hplus []
  simpa [unescape] using this

theorem length_unescape (h : unescape plus s = some t)
    : t.length ≤ s.length ∧ (0x25 ∈ s → t.length < s.length) := by
  induction hn : s.length using Nat.strong_induction_on generalizing s t with
  | _ n ih =>
    cases s with
    | nil =>
      rw [unescape, some_inj] at h
      simp [← h]
    | cons b s =>
      rw [length_cons] at hn
      unfold unescape at h
      split at h
      . split at h
        . next x y s =>
          split at h
          . obtain ⟨t', ht', rfl⟩ := map_eq_some_iff.mp h
            rw [length_cons, length_cons] at hn
            have := (ih s.length (by omega) ht' rfl).1
            rw [length_cons]
            exact ⟨by omega, fun _ => by omega⟩
          . contradiction
        . contradiction
      . next hb =>
        obtain ⟨t', ht', rfl⟩ := map_eq_some_iff.mp h
        obtain ⟨hle, hlt⟩ := ih s.length (by omega) ht' rfl
        rw [length_cons]
        refine ⟨by omega, ?_⟩
        intro hmem
        have := hlt ((mem_cons.mp hmem).resolve_left (Ne.symm hb))
        omega

structure Parsed where
  path : Octets
  rawQuery : Octets

def isCTL (b : UInt8) : Bool := b < 0x20 || b = 0x7f

def parse (s : Octets) : Option Parsed :=
  let (u, fragment) := cut 0x23 s
  if u.any isCTL then
    none
  else
    let (rest, rawQuery) := cut 0x3f u
    match unescape false rest, unescape false fragment with
    | some path, some _ => some { path, rawQuery }
    | _, _ => none

def pair? (s : Octets) : Option (Octets × Octets) :=
  if s = [] ∨ 0x3b ∈ s then
    none
  else
    let (key, value) := cut 0x3d s
    match unescape true key, unescape true value with
    | some key, some value => some (key, value)
    | _, _ => none

def parseQuery (s : Octets) : List (Octets × Octets) := (s.splitOn 0x26).filterMap pair?

theorem parseQuery_append (a b : Octets)
    : parseQuery (a ++ 0x26 :: b) = parseQuery a ++ parseQuery b := by
  unfold parseQuery
  rw [← filterMap_append]
  congr 1
  exact splitOnP_append_cons a b rfl

def has (query : List (Octets × Octets)) (key : Octets) : Bool := query.any (·.1 = key)

theorem has_of_keys {query : List (Octets × Octets)} {keys : List Octets} {key : Octets} {b : Bool}
    (hkeys : query.map Prod.fst = keys) (h : keys.any (· = key) = b) : has query key = b := by
  rw [← h, ← hkeys, List.any_map]
  rfl

def get (query : List (Octets × Octets)) (key : Octets) : Octets :=
  ((query.find? (·.1 = key)).map Prod.snd).getD []

def isReserved (b : UInt8) : Bool := b = 0x23 || b = 0x3f || b = 0x25 || isCTL b

theorem not_mem_of_not_reserved {s : Octets} (h : ∀ b ∈ s, isReserved b = false)
    (hb : isReserved b = true)
    : b ∉ s := by
  intro hmem
  have := h b hmem
  rw [hb] at this
  contradiction

theorem any_isCTL_of_not_reserved {s : Octets} (h : ∀ b ∈ s, isReserved b = false)
    : s.any isCTL = false := by
  rw [List.any_eq_false]
  intro b hb hctl
  have := h b hb
  unfold isReserved at this
  rw [hctl, Bool.or_true] at this
  contradiction

theorem parse_of_not_reserved (hpath : ∀ b ∈ path, isReserved b = false)
    : parse path = some ⟨path, []⟩ := by
  unfold parse
  rw [cut_of_not_mem (not_mem_of_not_reserved hpath rfl)]
  dsimp only
  rw [any_isCTL_of_not_reserved hpath, cut_of_not_mem (not_mem_of_not_reserved hpath rfl)]
  rw [unescape_eq_self (not_mem_of_not_reserved hpath rfl) (by simp)]
  rfl

theorem parse_append_query {query : Octets} (hpath : ∀ b ∈ path, isReserved b = false)
    (hquery : ∀ b ∈ query, isReserved b = false)
    : parse (path ++ 0x3f :: query) = some ⟨path, query⟩ := by
  have hhash : 0x23 ∉ path ++ 0x3f :: query := by
    rw [mem_append, mem_cons, not_or, not_or]
    exact ⟨not_mem_of_not_reserved hpath rfl, by decide, not_mem_of_not_reserved hquery rfl⟩
  have hctl : (path ++ 0x3f :: query).any isCTL = false := by
    rw [any_append, any_cons, any_isCTL_of_not_reserved hpath, any_isCTL_of_not_reserved hquery]
    rfl
  unfold parse
  rw [cut_of_not_mem hhash]
  dsimp only
  rw [hctl, cut_append_cons (not_mem_of_not_reserved hpath rfl)]
  rw [unescape_eq_self (not_mem_of_not_reserved hpath rfl) (by simp)]
  rfl

theorem cut_cut_append (htail : ∀ b, tail.head? = some b → b = 0x3f)
    : (cut 0x3f (cut 0x23 (path ++ tail)).1).1 = path.takeWhile fun b => b ≠ 0x23 ∧ b ≠ 0x3f := by
  unfold cut
  dsimp only
  rw [takeWhile_takeWhile]
  induction path with
  | nil =>
    cases tail with
    | nil => rfl
    | cons b tail =>
      rw [htail b rfl]
      rfl
  | cons b path ih =>
    rw [cons_append, takeWhile_cons, takeWhile_cons, ih]
    simp [and_comm]

theorem cut_append (h : sep ∉ a) (b : Octets) : (cut sep (a ++ b)).1 = a ++ (cut sep b).1 := by
  apply takeWhile_append_of_pos
  intro x hx
  rw [decide_eq_true_eq]
  rintro rfl
  contradiction

theorem parse_eq_some (h : parse s = some u)
    : (cut 0x23 s).1.any isCTL = false
      ∧ unescape false (cut 0x3f (cut 0x23 s).1).1 = some u.path := by
  unfold parse at h
  dsimp only at h
  split at h
  . contradiction
  . next hctl =>
    refine ⟨by simpa using hctl, ?_⟩
    split at h
    . next hpath _ =>
      rw [some_inj] at h
      rw [hpath, ← h]
    . contradiction

theorem parse_of_reserved {u : Parsed} (h : parse (front ++ (path ++ tail)) = some u)
    (hfront : ∀ b ∈ front, isReserved b = false) (hpath : ∃ b ∈ path, isReserved b = true)
    (htail : ∀ b, tail.head? = some b → b = 0x3f)
    : ∃ r, u.path = front ++ r ∧ r.length < path.length := by
  obtain ⟨hctl, hpathOf⟩ := parse_eq_some h
  rw [cut_append (not_mem_of_not_reserved hfront rfl)] at hctl hpathOf
  rw [cut_append (not_mem_of_not_reserved hfront rfl), cut_cut_append htail,
    unescape_append (not_mem_of_not_reserved hfront rfl) (by simp)] at hpathOf
  obtain ⟨r, hr, heq⟩ := map_eq_some_iff.mp hpathOf
  refine ⟨r, heq.symm, ?_⟩
  obtain ⟨hle, hlt⟩ := length_unescape hr
  have hsub : (path.takeWhile fun b => b ≠ 0x23 ∧ b ≠ 0x3f).Sublist path := takeWhile_sublist _
  by_cases hself : (path.takeWhile fun b => b ≠ 0x23 ∧ b ≠ 0x3f) = path
  . rw [hself] at hle hlt
    apply hlt
    obtain ⟨b, hb, hres⟩ := hpath
    have hsep : ∀ x ∈ path, x ≠ 0x23 ∧ x ≠ 0x3f := by
      simpa using takeWhile_eq_self_iff.mp hself
    have hplain : isCTL b = false := by
      rw [cut_append fun hmem => (hsep _ hmem).1 rfl, any_append, any_append] at hctl
      rw [Bool.or_eq_false_iff, Bool.or_eq_false_iff] at hctl
      have := any_eq_false.mp hctl.2.1 b hb
      simpa using this
    unfold isReserved at hres
    simp only [hplain, (hsep b hb).1, (hsep b hb).2, decide_false, Bool.false_or, Bool.or_false,
      decide_eq_true_eq] at hres
    rwa [← hres]
  . have hne : (path.takeWhile fun b => b ≠ 0x23 ∧ b ≠ 0x3f).length ≠ path.length := by
      intro heq
      exact hself (hsub.eq_of_length heq)
    have := hsub.length_le
    omega

end Url
