import Drive9.Lib.Json.Basic

/-!
This module contains the round trips of `Json`: the parser reads back what is written, and a
canonical value stays as it is.
-/

open List Option

namespace Json

section Take

variable {p : Char → Bool} {d r : List Char}

section

variable (hd : ∀ c ∈ d, p c) (hr : ∀ c ∈ r.head?, p c = false)

include hd hr

theorem takeWhile_append_stop : (d ++ r).takeWhile p = d := by
  rw [takeWhile_append_of_pos hd]
  cases r with
  | nil => simp
  | cons c r => simp [hr c rfl]

theorem dropWhile_append_stop : (d ++ r).dropWhile p = r := by
  rw [dropWhile_append_of_pos hd]
  cases r with
  | nil => rfl
  | cons c r => simp [hr c rfl]

end

end Take

-- What may follow a number.
def Stops (r : List Char) : Prop := ∀ c ∈ r.head?, c.isDigit = false ∧ c ≠ '.' ∧ c ≠ 'e' ∧ c ≠ 'E'

theorem stops_nil : Stops [] := by
  intro c hc
  contradiction

theorem stops_cons (h : c.isDigit = false ∧ c ≠ '.' ∧ c ≠ 'e' ∧ c ≠ 'E') (r) : Stops (c :: r) := by
  intro c' hc'
  cases hc'
  exact h

namespace Number

theorem mk?_eq (n : Number) : mk? n.negative n.whole n.fraction n.exponent = some n := by
  have hw := n.wholeOk
  rw [← List.all_eq_true] at hw
  unfold mk?
  rw [dif_pos hw, dif_pos (List.all_eq_true.mpr n.fractionOk), dif_pos]
  intro e he
  obtain ⟨hmark, hne, hdigits⟩ := n.exponentOk e he
  exact ⟨List.contains_iff_mem.mpr hmark, hne, List.all_eq_true.mpr hdigits⟩

theorem scanSign_append (n : Number) (r)
    : scanSign ((if n.negative then ['-'] else []) ++ (n.whole ++ r))
      = (n.negative, n.whole ++ r) := by
  cases hneg : n.negative with
  | true => rfl
  | false =>
    have hne : ∀ s, n.whole ++ r ≠ '-' :: s := by
      intro s hs
      cases n.wholeOk with
      | inl h =>
        rw [h] at hs
        simp at hs
      | inr h =>
        cases hw : n.whole with
        | nil => exact h.1 hw
        | cons c cs =>
          rw [hw] at hs h
          rw [cons_append, List.cons.injEq] at hs
          have := h.2.2 c (by simp)
          rw [hs.1] at this
          contradiction
    simp only [Bool.false_eq_true, if_false, nil_append]
    unfold scanSign
    split
    . next s heq => exact absurd heq (hne s)
    . rfl

theorem scanWhole_append (n : Number) (hr : ∀ c ∈ r.head?, c.isDigit = false)
    : scanWhole (n.whole ++ r) = (n.whole, r) := by
  cases n.wholeOk with
  | inl h =>
    rw [h]
    rfl
  | inr h =>
    have hne : ∀ s, n.whole ++ r ≠ '0' :: s := by
      intro s hs
      cases hw : n.whole with
      | nil => exact h.1 hw
      | cons c cs =>
        rw [hw] at hs h
        rw [cons_append, List.cons.injEq] at hs
        rw [hs.1] at h
        exact h.2.1 rfl
    unfold scanWhole
    split
    . next s heq => exact absurd heq (hne s)
    . rw [takeWhile_append_stop h.2.2 hr, dropWhile_append_stop h.2.2 hr]

theorem scanFraction_append (n : Number) (hr : ∀ c ∈ r.head?, c.isDigit = false ∧ c ≠ '.')
    : scanFraction (n.fractionText ++ r) = some (n.fraction, r) := by
  unfold fractionText
  split
  . next h =>
    rw [nil_append, h]
    unfold scanFraction
    split
    . exact absurd rfl (hr '.' rfl).2
    . rfl
  . next h =>
    have hstop : ∀ c ∈ r.head?, c.isDigit = false := fun c hc => (hr c hc).1
    change (if (n.fraction ++ r).takeWhile Char.isDigit = [] then none
      else some ((n.fraction ++ r).takeWhile Char.isDigit, (n.fraction ++ r).dropWhile Char.isDigit)) = _
    rw [takeWhile_append_stop n.fractionOk hstop, dropWhile_append_stop n.fractionOk hstop,
      if_neg h]

theorem scanExponentSign_digits (hne : d ≠ []) (hd : ∀ c ∈ d, c.isDigit)
    : scanExponentSign (d ++ r) = ([], d ++ r) := by
  cases d with
  | nil => contradiction
  | cons c d =>
    have hc := hd c (by simp)
    unfold scanExponentSign
    split
    . next heq =>
      cases heq
      contradiction
    . next heq =>
      cases heq
      contradiction
    . rfl

section

variable (n : Number)

theorem scanExponent_append (hr : Stops r)
    : scanExponent (n.exponentText ++ r) = (n.exponent, r) := by
  have hok := n.exponentOk
  unfold exponentText
  cases he : n.exponent with
  | none =>
    rw [nil_append]
    unfold scanExponent
    split
    . exact absurd rfl (hr 'e' rfl).2.2.1
    . exact absurd rfl (hr 'E' rfl).2.2.2
    . rfl
  | some e =>
    obtain ⟨mark, digits⟩ := e
    rw [he] at hok
    obtain ⟨hmark, hne, hdigits⟩ := hok _ rfl
    have hstop : ∀ c ∈ r.head?, c.isDigit = false := fun c hc => (hr c hc).1
    have htake := takeWhile_append_stop hdigits hstop
    have hdrop := dropWhile_append_stop hdigits hstop
    have hsign : scanExponentSign (digits ++ r) = ([], digits ++ r) :=
      scanExponentSign_digits hne hdigits
    simp only [mem_cons, not_mem_nil, or_false] at hmark
    rcases hmark with rfl | rfl | rfl | rfl | rfl | rfl
    . simp only [cons_append, nil_append, scanExponent, hsign, htake, hdrop]
    . simp only [cons_append, nil_append, scanExponent, scanExponentSign, htake, hdrop]
    . simp only [cons_append, nil_append, scanExponent, scanExponentSign, htake, hdrop]
    . simp only [cons_append, nil_append, scanExponent, hsign, htake, hdrop]
    all_goals simp only [cons_append, nil_append, scanExponent, scanExponentSign, htake, hdrop]

theorem head?_exponentText_append (hr : Stops r) (hc : c ∈ (n.exponentText ++ r).head?)
    : c.isDigit = false ∧ c ≠ '.' := by
  have hok := n.exponentOk
  unfold exponentText at hc
  cases he : n.exponent with
  | none =>
    rw [he] at hc
    exact ⟨(hr c hc).1, (hr c hc).2.1⟩
  | some e =>
    rw [he] at hc hok
    have hmark := (hok _ rfl).1
    simp only [mem_cons, not_mem_nil, or_false] at hmark
    obtain ⟨mark, digits⟩ := e
    rcases hmark with rfl | rfl | rfl | rfl | rfl | rfl
    all_goals
      cases hc
      decide

theorem head?_fractionText_append (hr : Stops r)
    (hc : c ∈ (n.fractionText ++ (n.exponentText ++ r)).head?)
    : c.isDigit = false := by
  unfold fractionText at hc
  split at hc
  . exact (head?_exponentText_append n hr hc).1
  . cases hc
    decide

theorem scan_text (hr : Stops r) : scan (n.text ++ r) = some (n, r) := by
  unfold scan text
  simp only [append_assoc]
  rw [scanSign_append]
  rw [scanWhole_append n fun c hc => head?_fractionText_append n hr hc]
  rw [scanFraction_append n fun c hc => head?_exponentText_append n hr hc]
  dsimp only
  rw [scanExponent_append n hr]
  rw [mk?_eq]
  rfl

theorem head_text : ∃ c s, n.text = c :: s ∧ (c = '-' ∨ c.isDigit) := by
  unfold text
  cases n.negative with
  | true => exact ⟨'-', _, rfl, .inl rfl⟩
  | false =>
    cases n.wholeOk with
    | inl h =>
      rw [h]
      exact ⟨'0', _, rfl, .inr rfl⟩
    | inr h =>
      cases hw : n.whole with
      | nil => exact absurd hw h.1
      | cons c cs =>
        rw [hw] at h
        exact ⟨c, _, rfl, .inr (h.2.2 c (by simp))⟩

end

end Number

section String

theorem hexDigit?_digitChar (h : d < 16) : hexDigit? (Nat.digitChar d) = some d := by
  revert d
  decide

theorem hex4?_hex4 (h : n < 65536)
    : hex4? (Nat.digitChar (n / 4096 % 16)) (Nat.digitChar (n / 256 % 16)) (Nat.digitChar (n / 16 % 16))
      (Nat.digitChar (n % 16)) = some n := by
  unfold hex4?
  rw [hexDigit?_digitChar (by omega), hexDigit?_digitChar (by omega),
    hexDigit?_digitChar (by omega), hexDigit?_digitChar (by omega)]
  dsimp only
  congr 1
  omega

def coded (c : Char) : Bool :=
  (c.toNat < 0x20 ∨ c ∈ ['<', '>', '&', '\u2028', '\u2029']) ∧ c ∉ ['\x08', '\x0c', '\n', '\r', '\t']

def pieceOf (c : Char) : Piece := if coded c then .code c.toNat else .char c

theorem coded_lt (h : coded c) : c.toNat < 65536 := by
  unfold coded at h
  simp only [mem_cons, not_mem_nil, or_false, decide_eq_true_eq] at h
  rcases h.1 with h | rfl | rfl | rfl | rfl | rfl
  . omega
  all_goals decide

theorem pieces_code (h : n < 65536) (r)
    : pieces ('\\' :: 'u' :: hex4 n ++ r) = consPiece (some (.code n)) (pieces r) := by
  change consPiece ((hex4? _ _ _ _).map .code) (pieces r) = _
  rw [hex4?_hex4 h]
  rfl

theorem pieces_literal (h : literal? c = some (.char c)) (hq : c ≠ '"') (r)
    : pieces (c :: r) = consPiece (some (.char c)) (pieces r) := by
  rw [pieces.eq_def]
  split
  case h_1 heq => contradiction
  case h_2 heq =>
    cases heq
    contradiction
  case h_3 heq =>
    cases heq
    contradiction
  case h_4 heq =>
    cases heq
    contradiction
  case h_5 heq =>
    cases heq
    rw [h]

theorem pieces_escapeChar (c) (r)
    : pieces (escapeChar c ++ r) = consPiece (some (pieceOf c)) (pieces r) := by
  unfold escapeChar
  split
  case h_8 h1 h2 h3 h4 h5 h6 h7 =>
    have hnot : c ∉ ['\x08', '\x0c', '\n', '\r', '\t'] := by
      simp only [mem_cons, not_mem_nil, or_false]
      tauto
    split
    . next hc =>
      have hcoded : coded c = true := by
        exact decide_eq_true ⟨hc, hnot⟩
      unfold pieceOf
      rw [if_pos hcoded]
      exact pieces_code (coded_lt hcoded) r
    . next hc =>
      have hcoded : ¬ coded c = true := by
        unfold coded
        simp only [decide_eq_true_eq]
        tauto
      unfold pieceOf
      rw [if_neg hcoded]
      apply pieces_literal
      . unfold literal?
        rw [if_neg]
        tauto
      . exact h1
  all_goals rfl

theorem pieces_flatMap (s r : List Char) : pieces (s.flatMap escapeChar ++ '"' :: r) = some (s.map pieceOf, r) := by
  induction s with
  | nil => rfl
  | cons c s ih =>
    rw [flatMap_cons, append_assoc, pieces_escapeChar, ih]
    rfl

theorem not_surrogate (c : Char) : ¬ (isHigh c.toNat ∨ isLow c.toNat) := by
  have := c.valid
  unfold isHigh isLow
  simp only [Bool.and_eq_true, decide_eq_true_eq]
  unfold Char.toNat UInt32.isValidChar Nat.isValidChar at *
  omega

theorem join_code (c : Char) (ps) : join (.code c.toNat :: ps) = c :: join ps := by
  have h := not_surrogate c
  rw [join.eq_def]
  split
  case h_1 heq => contradiction
  case h_2 heq =>
    cases heq
  case h_3 heq =>
    cases heq
    rw [if_neg fun hc => h (.inl hc.1), if_neg h, Char.ofNat_toNat]
  case h_4 heq =>
    cases heq
    rw [if_neg h, Char.ofNat_toNat]

theorem join_map_pieceOf (s : List Char) : join (s.map pieceOf) = s := by
  induction s with
  | nil => rfl
  | cons c s ih =>
    rw [map_cons, pieceOf]
    split
    . rw [join_code, ih]
    . rw [join, ih]

theorem scanString_quote (s r : List Char) : scanString (s.flatMap escapeChar ++ '"' :: r) = some (s, r) := by
  unfold scanString
  rw [pieces_flatMap]
  dsimp only
  rw [join_map_pieceOf]

end String

-- The first character of a value is neither blank nor the end of an array.
def Starts (s : List Char) : Prop :=
  ∃ c t, s = c :: t ∧ c ≠ ']' ∧ ¬ (c = ' ' ∨ c = '\t' ∨ c = '\r' ∨ c = '\n')

theorem Starts.append (h : Starts s) (r) : Starts (s ++ r) := by
  obtain ⟨c, t, rfl, h⟩ := h
  exact ⟨c, t ++ r, rfl, h⟩

theorem Starts.skip (h : Starts s) : skip s = s := by
  obtain ⟨c, t, rfl, _, hc⟩ := h
  unfold Json.skip
  rw [dropWhile_cons, if_neg]
  simpa using hc

variable {j : Json} {xs : List Json} {ms : List (List Char × Json)}

theorem starts_write (j) : Starts (write j) := by
  cases j with
  | null => exact ⟨_, _, rfl, by decide⟩
  | bool b =>
    cases b with
    | true | false => exact ⟨_, _, rfl, by decide⟩
  | num n =>
    obtain ⟨c, s, hs, hc⟩ := n.head_text
    refine ⟨c, s, by rw [write, hs], ?_, ?_⟩
    . rintro rfl
      simp at hc
    . rintro (rfl | rfl | rfl | rfl)
      all_goals simp at hc
  | str s => exact ⟨'"', _, rfl, by decide⟩
  | arr items =>
    cases items with
    | nil => exact ⟨_, _, rfl, by decide⟩
    | cons x xs => exact ⟨'[', _, rfl, by decide⟩
  | obj members =>
    cases members with
    | nil => exact ⟨_, _, rfl, by decide⟩
    | cons m ms => exact ⟨'\x7b', _, rfl, by decide⟩

theorem length_write_pos (j) : 0 < (write j).length := by
  obtain ⟨c, s, hs, _⟩ := starts_write j
  rw [hs]
  exact Nat.succ_pos _

theorem quote_append (s r : List Char)
    : quote s ++ r = '"' :: (s.flatMap escapeChar ++ '"' :: r) := by
  simp [quote]

theorem scanKey_quote (k r) : scanKey (quote k ++ ':' :: r) = some (k, r) := by
  rw [quote_append]
  change (scanString (k.flatMap escapeChar ++ '"' :: ':' :: r)).bind (fun p => scanColon p.1 p.2) = _
  rw [scanString_quote]
  rfl

theorem scanValue_number (n : Number) (fuel) (hr : Stops r)
    : scanValue (fuel + 1) (n.text ++ r) = some (num n, r) := by
  have hskip : skip (n.text ++ r) = n.text ++ r := ((starts_write (num n)).append r).skip
  obtain ⟨c, s, hs, hc⟩ := n.head_text
  rw [scanValue, hskip]
  split
  case h_7 => rw [Number.scan_text n hr, map_some]
  all_goals
    next heq =>
    rw [hs, cons_append, List.cons.injEq] at heq
    rw [heq.1] at hc
    simp at hc

theorem stops_writeItems (xs) (r) : Stops (writeItems xs ++ r) := by
  cases xs with
  | nil | cons x xs => exact stops_cons (by decide) _

theorem stops_writeMembers (ms) (r) : Stops (writeMembers ms ++ r) := by
  cases ms with
  | nil | cons m ms => exact stops_cons (by decide) _

theorem Starts.scanOpen (hs : Starts s) (empty) (more : List Char → Option (Json × List Char))
    : scanOpen ']' empty more s = more s := by
  unfold Json.scanOpen
  rw [hs.skip]
  obtain ⟨c, t, rfl, hc, _⟩ := hs
  dsimp only
  rw [if_neg hc]

theorem scanValue_bracket (fuel) (s)
    : scanValue (fuel + 1) ('[' :: s)
      = scanOpen ']' (arr []) (fun r =>
        (scanValue fuel r).bind fun (x, r) =>
        (scanItems fuel r).map fun (xs, r) => (arr (x :: xs), r)) s := by
  rfl

mutual

theorem scanValue_write (j) (hf : (write j).length ≤ fuel) (hr : Stops r)
    : scanValue fuel (write j ++ r) = some (j, r) := by
  cases fuel with
  | zero =>
    have := length_write_pos j
    omega
  | succ fuel =>
    match j with
    | null => rfl
    | bool true => rfl
    | bool false => rfl
    | num n => exact scanValue_number n fuel hr
    | str s =>
      rw [write, quote_append]
      change (scanString (s.flatMap escapeChar ++ '"' :: r)).map _ = _
      rw [scanString_quote]
      rfl
    | arr [] => rfl
    | arr (x :: xs) =>
      simp only [write, cons_append, length_cons, length_append, append_assoc] at *
      rw [scanValue_bracket, ((starts_write x).append _).scanOpen,
        scanValue_write x (by omega) (stops_writeItems xs r), bind_some]
      dsimp only
      rw [scanItems_write xs (by omega) r]
      rfl
    | obj [] => rfl
    | obj ((k, v) :: ms) =>
      simp only [write, cons_append, length_cons, length_append, append_assoc] at *
      change (scanKey (quote k ++ ':' :: (write v ++ (writeMembers ms ++ r)))).bind _ = _
      rw [scanKey_quote, bind_some]
      dsimp only
      rw [scanValue_write v (by omega) (stops_writeMembers ms r), bind_some]
      rw [scanMembers_write ms (by omega) r]
      rfl

theorem scanItems_write (xs) (hf : (writeItems xs).length ≤ fuel) (r)
    : scanItems fuel (writeItems xs ++ r) = some (xs, r) := by
  cases fuel with
  | zero =>
    cases xs with
    | nil | cons x xs => contradiction
  | succ fuel =>
    match xs with
    | [] => rfl
    | x :: xs =>
      simp only [writeItems, cons_append, length_cons, length_append, append_assoc] at *
      change (scanValue fuel (write x ++ (writeItems xs ++ r))).bind _ = _
      rw [scanValue_write x (by omega) (stops_writeItems xs r), bind_some]
      dsimp only
      rw [scanItems_write xs (by omega) r]
      rfl

theorem scanMembers_write (ms) (hf : (writeMembers ms).length ≤ fuel) (r)
    : scanMembers fuel (writeMembers ms ++ r) = some (ms, r) := by
  cases fuel with
  | zero =>
    cases ms with
    | nil | cons m ms => contradiction
  | succ fuel =>
    match ms with
    | [] => rfl
    | (k, v) :: ms =>
      simp only [writeMembers, cons_append, length_cons, length_append, append_assoc] at *
      change (scanKey (quote k ++ ':' :: (write v ++ (writeMembers ms ++ r)))).bind _ = _
      rw [scanKey_quote, bind_some]
      dsimp only
      rw [scanValue_write v (by omega) (stops_writeMembers ms r), bind_some]
      rw [scanMembers_write ms (by omega) r]
      rfl

end

theorem parse_write (j) : parse (write j) = some j := by
  have h := scanValue_write j (Nat.le_refl _) stops_nil
  rw [append_nil] at h
  unfold parse
  rw [h]
  rfl

theorem write_injective : Function.Injective write := by
  intro a b h
  have ha := parse_write a
  rw [h, parse_write b] at ha
  exact (Option.some.inj ha).symm

end Json
