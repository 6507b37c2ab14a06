import Drive9.Client.Requests.Impl
import Drive9.Datastore.Parents

/-!
This module proves which requests act on the paths that the caller gave.
-/

namespace Client

open Octets Server Pathutil Str List Option

section Paths

variable {nfc : Str → Str} {p : Str}

theorem noControl_of_canonicalPath (h : CanonicalPath nfc p) : ∀ c ∈ p, ¬ c.toNat ≤ 0x1f := by
  cases h with
  | inl h | inr h => exact (goodRaw_of_canonicalizeAs nfc h).noControl

theorem head?_of_canonicalPath (laws : NfcLaws nfc) (h : CanonicalPath nfc p)
    : p.head? = some '/' := by
  have hrender : ∀ (segs : List Str) (s rest : Str),
      (render (segs ++ [s]) ++ rest).head? = some '/' := by
    intro segs s rest
    cases segs with
    | nil | cons => rfl
  obtain rfl | ⟨segs, s, _, rfl | rfl⟩ := h.cases laws
  . rfl
  . rw [← append_nil (render _)]
    apply hrender
  . apply hrender

-- The characters that a canonical path may have and `net/url` reads as something else.
def HasNoURLChar (p : Str) : Prop := ∀ c ∈ p, c ≠ '#' ∧ c ≠ '?' ∧ c ≠ '%' ∧ c ≠ '\x7f'

theorem isReserved_ofChars_iff (hctl : ∀ c ∈ p, ¬ c.toNat ≤ 0x1f)
    : (∀ b ∈ ofChars p, Url.isReserved b = false) ↔ HasNoURLChar p := by
  constructor
  . intro h c hc
    have hne : ∀ a : Char, a.toNat < 128 → Url.isReserved (UInt8.ofNat a.toNat) = true → c ≠ a := by
      rintro a ha hres rfl
      rw [h _ ((mem_ofChars ha).mpr hc)] at hres
      contradiction
    exact ⟨hne _ (by decide) rfl, hne _ (by decide) rfl, hne _ (by decide) rfl,
      hne _ (by decide) rfl⟩
  . intro h b hb
    rw [Bool.eq_false_iff]
    intro hres
    simp only [Url.isReserved, Url.isCTL, Bool.or_eq_true, decide_eq_true_eq] at hres
    have hlt : b.toNat < 128 := by
      obtain ((rfl | rfl) | rfl) | hres | rfl := hres
      . decide
      . decide
      . decide
      . have := UInt8.lt_iff_toNat_lt.mp hres
        exact Nat.lt_trans this (by decide)
      . decide
    obtain ⟨c, hc, heq⟩ := exists_of_mem_ofChars hb hlt
    obtain ⟨h1, h2, h3, h4⟩ := h c hc
    obtain ((rfl | rfl) | rfl) | hres | rfl := hres
    . exact h1 (Char.toNat_inj.mp heq)
    . exact h2 (Char.toNat_inj.mp heq)
    . exact h3 (Char.toNat_inj.mp heq)
    . have := UInt8.lt_iff_toNat_lt.mp hres
      apply hctl c hc
      rw [heq]
      exact Nat.le_of_lt_succ this
    . exact h4 (Char.toNat_inj.mp heq)

end Paths

section Header

-- What a header keeps of a path.
def KeptByHeader (p : Str) : Prop := p.getLast? ≠ some ' ' ∧ '\x7f' ∉ p

variable {p : Str} (hctl : ∀ c ∈ p, ¬ c.toNat ≤ 0x1f) (hhead : p.head? = some '/')

include hctl

theorem headerValue_ofChars
    : headerValue (ofChars p) = if '\x7f' ∈ p then none else some (trimBlanks (ofChars p)) := by
  have hany : (ofChars p).any (fun b => Url.isCTL b && b ≠ 0x09) = true ↔ '\x7f' ∈ p := by
    constructor
    . intro h
      obtain ⟨b, hb, hbad⟩ := any_eq_true.mp h
      simp only [Url.isCTL, Bool.and_eq_true, Bool.or_eq_true, decide_eq_true_eq] at hbad
      obtain hlow | rfl := hbad.1
      . have hlow := UInt8.lt_iff_toNat_lt.mp hlow
        obtain ⟨c, hc, heq⟩ := exists_of_mem_ofChars hb (Nat.lt_trans hlow (by decide))
        rw [← heq] at hlow
        exact absurd (Nat.le_of_lt_succ hlow) (hctl c hc)
      . exact (mem_ofChars (by decide)).mp hb
    . intro h
      exact any_eq_true.mpr ⟨_, (mem_ofChars (by decide)).mpr h, rfl⟩
  unfold headerValue
  split
  . next h => rw [if_pos (hany.mp h)]
  . next h => rw [if_neg fun hmem => h (hany.mpr hmem)]

include hhead

theorem trimBlanks_ofChars_iff : trimBlanks (ofChars p) = ofChars p ↔ p.getLast? ≠ some ' ' := by
  have hfirst : ∀ b, (ofChars p).head? = some b → isBlank b = false := by
    cases p with
    | nil => cases hhead
    | cons c p =>
      rw [head?_cons, some_inj] at hhead
      rw [hhead]
      rintro b ⟨⟩
      rfl
  rw [trimBlanks_eq_self_iff hfirst]
  constructor
  . intro h hlast
    obtain ⟨q, rfl⟩ := getLast?_eq_some_iff.mp hlast
    have := h _ (getLast?_ofChars_concat (by decide))
    contradiction
  . intro h b hb
    rw [Bool.eq_false_iff]
    intro hblank
    simp only [isBlank, Bool.or_eq_true, decide_eq_true_eq] at hblank
    have hlt : b.toNat < 128 := by
      obtain ((rfl | rfl) | rfl) | rfl := hblank
      all_goals decide
    obtain ⟨c, hlast, heq⟩ := getLast?_ofChars hb hlt
    have hc := hctl c (mem_of_getLast? hlast)
    obtain ((rfl | rfl) | rfl) | rfl := hblank
    . have hspace : c = ' ' := Char.toNat_inj.mp heq
      rw [hspace] at hlast
      contradiction
    all_goals
      rw [heq] at hc
      exact hc (by decide)

theorem headerValue_eq_self_iff : headerValue (ofChars p) = some (ofChars p) ↔ KeptByHeader p := by
  rw [headerValue_ofChars hctl]
  unfold KeptByHeader
  rw [← trimBlanks_ofChars_iff hctl hhead]
  split
  . next h => simp [h]
  . next h => simp [h]

end Header

section Sent

def Call.query? : Call → Option Octets
  | .delete _ | .write _ | .read _ => none
  | .deleteFile _ => some (text "kind=file")
  | .deleteDir _ => some (text "kind=dir")
  | .removeAll _ => some (text "recursive=1")
  | .copy _ _ => some (text "copy")
  | .rename _ _ => some (text "rename")
  | .mkdir _ mode =>
    some (if mode ≠ 0o755 then text "mkdir" ++ 0x26 :: (text "mode=" ++ ofChars (Nat.toDigits 10 mode.toNat))
      else text "mkdir")

def afterPath : Option Octets → Octets
  | none => []
  | some query => 0x3f :: query

theorem head?_afterPath (query? : Option Octets)
    : ∀ b, (afterPath query?).head? = some b → b = 0x3f := by
  cases query? with
  | none | some query => simp [afterPath]

theorem Call.url_request {call : Call} (h : call.urlPath.head? = some '/')
    : call.request.url = text "/v1/fs" ++ (ofChars call.urlPath ++ afterPath call.query?) := by
  have hurl : text "/v1/fs" ++ ofChars call.urlPath = url call.urlPath := by
    unfold url
    rw [if_pos h]
  rw [← append_assoc, hurl]
  cases call with
  | delete | write | read => exact (append_nil _).symm
  | mkdir path mode =>
    unfold Call.request mkdirCtx Call.query?
    dsimp only
    split
    . rfl
    . rfl
  | _ => rfl

theorem toNat_of_mem_toDigits (h : c ∈ Nat.toDigits 10 n) : 0x30 ≤ c.toNat ∧ c.toNat ≤ 0x39 := by
  have := Nat.isDigit_of_mem_toDigits (by decide) (by decide) h
  rwa [Char.isDigit_iff_toNat] at this

theorem ofChars_toDigits (n : Nat)
    : ofChars (Nat.toDigits 10 n) = (Nat.toDigits 10 n).map fun c => UInt8.ofNat c.toNat := by
  apply ofChars_of_lt
  intro c hc
  have := toNat_of_mem_toDigits hc
  omega

theorem toNat_of_mem_ofChars_toDigits (h : b ∈ ofChars (Nat.toDigits 10 n))
    : 0x30 ≤ b.toNat ∧ b.toNat ≤ 0x39 := by
  rw [ofChars_toDigits] at h
  obtain ⟨c, hc, rfl⟩ := mem_map.mp h
  have := toNat_of_mem_toDigits hc
  rw [UInt8.toNat_ofNat', Nat.mod_eq_of_lt (by omega)]
  exact this

theorem parseUint32_toDigits (h : n < 4294967296)
    : parseUint32 (ofChars (Nat.toDigits 10 n)) = some n := by
  have hdigits : (ofChars (Nat.toDigits 10 n)).all (fun b => 0x30 ≤ b && b ≤ 0x39) = true := by
    rw [List.all_eq_true]
    intro b hb
    have := toNat_of_mem_ofChars_toDigits hb
    rw [Bool.and_eq_true, decide_eq_true_eq, decide_eq_true_eq, UInt8.le_iff_toNat_le,
      UInt8.le_iff_toNat_le]
    exact this
  have hne : ofChars (Nat.toDigits 10 n) ≠ [] := by
    rw [ofChars_toDigits]
    simp [Nat.toDigits_ne_nil]
  have hvalue : (ofChars (Nat.toDigits 10 n)).foldl (fun n b => 10 * n + (b.toNat - 0x30)) 0
      = n := by
    rw [ofChars_toDigits, List.foldl_map]
    refine Eq.trans ?_ (Nat.ofDigitChars_toDigits (b := 10) (n := n) (by decide) (by decide))
    apply List.foldl_ext
    intro m c hc
    have := toNat_of_mem_toDigits hc
    rw [UInt8.toNat_ofNat', Nat.mod_eq_of_lt (by omega)]
    rfl
  unfold parseUint32
  rw [if_neg (by simp [hne, hdigits])]
  rw [hvalue, if_pos h]

theorem ne_of_mem_toDigits (h : b ∈ ofChars (Nat.toDigits 10 n))
    (ha : ¬ (0x30 ≤ a.toNat ∧ a.toNat ≤ 0x39))
    : b ≠ a := by
  rintro rfl
  exact ha (toNat_of_mem_ofChars_toDigits h)

theorem isReserved_of_mem_toDigits (h : b ∈ ofChars (Nat.toDigits 10 n))
    : Url.isReserved b = false := by
  have hlow : ¬ b < 0x20 := by
    rw [UInt8.lt_iff_toNat_lt]
    exact Nat.not_lt.mpr (Nat.le_trans (by decide) (toNat_of_mem_ofChars_toDigits h).1)
  simp [Url.isReserved, Url.isCTL, hlow, ne_of_mem_toDigits (a := 0x23) h (by decide),
    ne_of_mem_toDigits (a := 0x3f) h (by decide), ne_of_mem_toDigits (a := 0x25) h (by decide),
    ne_of_mem_toDigits (a := 0x7f) h (by decide)]

theorem Call.query?_plain {call : Call} {query : Octets} (h : call.query? = some query)
    : ∀ b ∈ query, Url.isReserved b = false ∧ b ≠ 0x20 := by
  cases call with
  | delete | write | read => contradiction
  | mkdir path mode =>
    rw [Call.query?, some_inj] at h
    subst h
    have hconst : ∀ b ∈ text "mkdir" ++ 0x26 :: text "mode=", Url.isReserved b = false
        ∧ b ≠ 0x20 := by
      decide +kernel
    split
    . intro b hb
      rw [← cons_append, ← append_assoc, mem_append] at hb
      cases hb with
      | inl hb => exact hconst b hb
      | inr hb => exact ⟨isReserved_of_mem_toDigits hb, ne_of_mem_toDigits hb (by decide)⟩
    . decide +kernel
  | _ =>
    cases h
    decide +kernel

theorem parseQuery_mode (h : digits = ofChars (Nat.toDigits 10 n))
    : Url.parseQuery (text "mode=" ++ digits) = [(text "mode", digits)] := by
  have hne : ∀ a : UInt8, ¬ (0x30 ≤ a.toNat ∧ a.toNat ≤ 0x39) → a ∉ digits := by
    rintro a ha hmem
    rw [h] at hmem
    exact ne_of_mem_toDigits hmem ha rfl
  have hsplit : (text "mode=" ++ digits).splitOn 0x26 = [text "mode=" ++ digits] := by
    apply splitOnP_eq_singleton
    intro b hb
    rw [beq_eq_false_iff_ne]
    rintro rfl
    cases mem_append.mp hb with
    | inl hb => exact absurd hb (by decide)
    | inr hb => exact hne _ (by decide) hb
  have hsemi : 0x3b ∉ text "mode=" ++ digits := by
    rw [mem_append, not_or]
    exact ⟨by decide, hne _ (by decide)⟩
  have hcut : cut 0x3d (text "mode=" ++ digits) = (text "mode", digits) := by
    exact cut_append_cons (a := text "mode") (by decide)
  unfold Url.parseQuery
  rw [hsplit, filterMap_cons, filterMap_nil]
  unfold Url.pair?
  rw [if_neg (not_or.mpr ⟨by exact cons_ne_nil _ _, hsemi⟩), hcut]
  dsimp only
  rw [Url.unescape_eq_self (hne _ (by decide)) fun _ => hne _ (by decide)]
  rfl

theorem Call.parse_request {call : Call} (hhead : call.urlPath.head? = some '/')
    (hplain : ∀ b ∈ ofChars call.urlPath, Url.isReserved b = false)
    : Url.parse call.request.url
      = some ⟨text "/v1/fs" ++ ofChars call.urlPath, call.query?.getD []⟩ := by
  have hpath : ∀ b ∈ text "/v1/fs" ++ ofChars call.urlPath, Url.isReserved b = false := by
    intro b hb
    cases mem_append.mp hb with
    | inl hb => exact (by decide +kernel : ∀ b ∈ text "/v1/fs", Url.isReserved b = false) b hb
    | inr hb => exact hplain b hb
  rw [url_request hhead, ← append_assoc]
  cases hquery : call.query? with
  | none =>
    unfold afterPath
    rw [append_nil]
    exact Url.parse_of_not_reserved hpath
  | some query =>
    apply Url.parse_append_query hpath
    exact fun b hb => (query?_plain hquery b hb).1

def Call.received (call : Call) (source : Octets) : FSRequest where
  method := call.request.method
  path := text "/v1/fs" ++ ofChars call.urlPath
  rawQuery := call.query?.getD []
  copySource := match call with | .copy _ _ => source | _ => []
  renameSource := match call with | .rename _ _ => source | _ => []

def Call.params : Call → List (Octets × Octets)
  | .delete _ | .write _ | .read _ => []
  | .deleteFile _ => [(text "kind", text "file")]
  | .deleteDir _ => [(text "kind", text "dir")]
  | .removeAll _ => [(text "recursive", text "1")]
  | .copy _ _ => [(text "copy", [])]
  | .rename _ _ => [(text "rename", [])]
  | .mkdir _ mode =>
    (text "mkdir", []) :: (if mode ≠ 0o755 then [(text "mode", ofChars (Nat.toDigits 10 mode.toNat))] else [])

theorem Call.parseQuery_query? (call : Call)
    : Url.parseQuery (call.query?.getD []) = call.params := by
  cases call with
  | mkdir path mode =>
    have hmkdir : Url.parseQuery (text "mkdir") = [(text "mkdir", [])] := by
      decide +kernel
    dsimp only [query?, params, Option.getD]
    split
    . rw [Url.parseQuery_append, parseQuery_mode rfl, hmkdir, singleton_append]
    . exact hmkdir
  | _ =>
    dsimp only [query?, params, Option.getD]
    decide +kernel

theorem handleMkdir_params (path : Str) (p : Octets)
    : FSRequest.handleMkdir (Call.mkdir path mode).params p = some (.mkdir p mode.toNat) := by
  have hkey : text "mkdir" ≠ text "mode" := by
    decide +kernel
  unfold FSRequest.handleMkdir Url.get
  dsimp only [Call.params]
  rw [find?_cons_of_neg (by simp [hkey])]
  split
  . simp [parseUint32_toDigits mode.toNat_lt]
  . next h =>
    rw [not_not] at h
    simp [h, parseUint32]

def Call.dispatched (call : Call) (source : Octets) : Option FSAction :=
  match call with
  | .copy _ dstPath => if source = [] then none else some (.copy source (ofChars dstPath))
  | .rename _ newPath => if source = [] then none else some (.rename source (ofChars newPath))
  | call => some call.action

theorem ofChars_ne_nil (h : p.head? = some '/') : ofChars p ≠ [] := by
  cases p with
  | nil => contradiction
  | cons c p =>
    rw [head?_cons, some_inj] at h
    rw [h]
    exact cons_ne_nil _ _

theorem Call.handleFS_received {call : Call} (hhead : call.urlPath.head? = some '/')
    (source : Octets)
    : FSRequest.handleFS (call.received source) = call.dispatched source := by
  have hkey : text "kind" ≠ text "recursive" := by
    decide +kernel
  have hkind : text "file" ≠ [] ∧ text "dir" ≠ [] ∧ text "dir" ≠ text "file" := by
    decide +kernel
  unfold FSRequest.handleFS received
  rw [FSRequest.fsPath_append (ofChars_ne_nil hhead), Call.parseQuery_query?]
  cases call with
  | delete path | deleteFile path | deleteDir path | removeAll path =>
    dsimp only [Call.request, deleteCtx, Call.params, FSRequest.handleDelete]
    simp [Call.dispatched, Call.action, Call.urlPath, Url.has, Url.get, hkey, hkind]
  | copy srcPath dstPath =>
    have hhas :=
      fun key b => @Url.has_of_keys (Call.copy srcPath dstPath).params [text "copy"] key b rfl
    dsimp only [Call.request, copyCtx]
    rw [hhas (text "append") false (by decide +kernel), hhas (text "copy") true (by decide +kernel)]
    rfl
  | rename oldPath newPath =>
    have hhas :=
      fun key b => @Url.has_of_keys (Call.rename oldPath newPath).params [text "rename"] key b rfl
    dsimp only [Call.request, renameCtx]
    rw [hhas (text "append") false (by decide +kernel),
      hhas (text "copy") false (by decide +kernel), hhas (text "rename") true (by decide +kernel)]
    rfl
  | mkdir path mode =>
    have hhas : ∀ key b, [text "mkdir", text "mode"].any (· = key) = b
        → [text "mkdir"].any (· = key) = b
        → Url.has (Call.mkdir path mode).params key = b := by
      intro key b h1 h2
      by_cases hmode : mode = 0o755
      . exact Url.has_of_keys (by simp [Call.params, hmode]) h2
      . exact Url.has_of_keys (by simp [Call.params, hmode]) h1
    dsimp only [Call.request, mkdirCtx]
    rw [hhas (text "append") false (by decide +kernel) (by decide +kernel),
      hhas (text "copy") false (by decide +kernel) (by decide +kernel),
      hhas (text "rename") false (by decide +kernel) (by decide +kernel),
      hhas (text "mkdir") true (by decide +kernel) (by decide +kernel)]
    exact handleMkdir_params path _
  | write | read => rfl

end Sent

def Call.Plain (call : Call) : Prop :=
  HasNoURLChar call.urlPath ∧ ∀ src ∈ call.source?, KeptByHeader src

-- The source of a copy or a rename as it arrives.
theorem Call.transmit_request {call : Call} (hhead : call.urlPath.head? = some '/')
    (hplain : ∀ b ∈ ofChars call.urlPath, Url.isReserved b = false)
    : transmit call.request = (headerValue (ofChars (call.source?.getD []))).map call.received := by
  have hblank : 0x20 ∉ call.query?.getD [] := by
    cases hquery : call.query? with
    | none => exact List.not_mem_nil
    | some query => exact fun hmem => (query?_plain hquery _ hmem).2 rfl
  have hnil : headerValue [] = some [] := rfl
  unfold transmit
  rw [parse_request hhead hplain]
  cases call with
  | copy srcPath dstPath =>
    dsimp only [Call.request, copyCtx, Call.source?, Option.getD]
    rw [hnil]
    cases headerValue (ofChars srcPath) with
    | none => rfl
    | some v => exact if_neg hblank
  | rename oldPath newPath =>
    dsimp only [Call.request, renameCtx, Call.source?, Option.getD]
    rw [hnil]
    cases headerValue (ofChars oldPath) with
    | none => rfl
    | some v => exact if_neg hblank
  | _ => exact if_neg hblank

theorem Call.dispatched_eq_iff {call : Call} (hsource : ∀ src ∈ call.source?, src.head? = some '/')
    {source : Octets}
    : call.dispatched source = some call.action ↔ ∀ src ∈ call.source?, source = ofChars src := by
  cases call with
  | copy srcPath dstPath | rename srcPath dstPath =>
    have hne := ofChars_ne_nil (hsource srcPath rfl)
    simp only [dispatched, action, source?, mem_def, Option.some.injEq, forall_eq']
    split
    . simp_all
    . simp
  | _ => simp [dispatched, source?]

theorem Call.path_of_served {call : Call} (h : call.served = some call.action)
    (hhead : call.urlPath.head? = some '/')
    : ∀ b ∈ ofChars call.urlPath, Url.isReserved b = false := by
  by_contra hc
  push Not at hc
  simp only [ne_eq, Bool.not_eq_false] at hc
  obtain ⟨r, hr, hserved⟩ := bind_eq_some_iff.mp h
  unfold transmit at hr
  rw [url_request hhead] at hr
  split at hr
  . next u _ _ hparse _ _ =>
    split at hr
    . contradiction
    . rw [some_inj] at hr
      subst hr
      obtain ⟨rest, hrest, hlt⟩ :=
        Url.parse_of_reserved hparse (by decide +kernel) hc (head?_afterPath _)
      have hpath := FSRequest.path_of_handleFS hserved
      rw [hrest] at hpath
      have haction : call.action.path = ofChars call.urlPath := by
        cases call with
        | _ => rfl
      rw [haction] at hpath
      cases rest with
      | nil =>
        have hslash : ofChars call.urlPath = text "/" := hpath
        rw [hslash] at hc
        exact absurd hc (by decide +kernel)
      | cons b rest =>
        rw [FSRequest.fsPath_append (cons_ne_nil _ _)] at hpath
        rw [hpath] at hlt
        exact Nat.lt_irrefl _ hlt
  . contradiction

theorem request_is_served_iff_plain (nfc : Str → Str) (laws : NfcLaws nfc) (call : Call)
    (hpath : CanonicalPath nfc call.urlPath) (hsource : ∀ src ∈ call.source?, CanonicalPath nfc src)
    : call.served = some call.action ↔ call.Plain := by
  have hhead := head?_of_canonicalPath laws hpath
  have hheads : ∀ src ∈ call.source?, src.head? = some '/' :=
    fun src h => head?_of_canonicalPath laws (hsource src h)
  have hplain := isReserved_ofChars_iff (noControl_of_canonicalPath hpath)
  have hheader : ∀ src ∈ call.source?, headerValue (ofChars src) = some (ofChars src)
      ↔ KeptByHeader src :=
    fun src h => headerValue_eq_self_iff (noControl_of_canonicalPath (hsource src h)) (hheads src h)
  have hserved : (∀ b ∈ ofChars call.urlPath, Url.isReserved b = false)
      → (call.served = some call.action
        ↔ ∀ src ∈ call.source?, headerValue (ofChars src) = some (ofChars src)) := by
    intro hurl
    unfold Call.served
    rw [Call.transmit_request hhead hurl]
    cases hsrc : call.source? with
    | none =>
      have hdispatched := (@Call.dispatched_eq_iff call hheads []).mpr (by simp [hsrc])
      have hnil : headerValue (ofChars []) = some [] := rfl
      simp [hnil, Call.handleFS_received hhead, hdispatched]
    | some src =>
      rw [getD_some]
      cases hvalue : headerValue (ofChars src) with
      | none => simp [hvalue]
      | some v => simp [hvalue, Call.handleFS_received hhead, Call.dispatched_eq_iff hheads, hsrc]
  unfold Call.Plain
  rw [← hplain]
  constructor
  . intro h
    have hurl := Call.path_of_served h hhead
    exact ⟨hurl, fun src hsrc => (hheader src hsrc).mp ((hserved hurl).mp h src hsrc)⟩
  . rintro ⟨hurl, hkept⟩
    exact (hserved hurl).mpr fun src hsrc => (hheader src hsrc).mpr (hkept src hsrc)

theorem request_is_served_iff_plain_copied
    : (Call.copy "/a b".toList "/c/".toList).served
      = some (Call.copy "/a b".toList "/c/".toList).action := by
  have hpath : ∀ p ∈ ["/a b".toList, "/c/".toList], CanonicalPath id p := by
    unfold CanonicalPath
    decide +kernel
  refine (request_is_served_iff_plain id nfcLaws_id (.copy "/a b".toList "/c/".toList)
    (hpath _ (by simp [Call.urlPath]))
    (by simp [Call.source?, hpath])).mpr ?_
  simp [Call.Plain, HasNoURLChar, KeptByHeader, Call.urlPath, Call.source?]

theorem delete_removes_another_path
    : (CanonicalPath id "/a?recursive=1".toList ∧ CanonicalPath id "/a#b".toList ∧ CanonicalPath id "/a ".toList)
      ∧ (Call.delete "/a?recursive=1".toList).served = some (.removeAll (text "/a"))
      ∧ (Call.delete "/a#b".toList).served = some (.remove (text "/a"))
      ∧ (Call.delete "/a%2fb".toList).served = some (.remove (text "/a/b"))
      ∧ (Call.rename "/a ".toList "/b".toList).served = some (.rename (text "/a") (text "/b")) := by
  refine ⟨?_, ?_⟩
  . unfold CanonicalPath
    decide +kernel
  . decide +kernel

end Client
