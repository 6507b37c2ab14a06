import Drive9.Lib.Int64
import Drive9.Vault.Tokens.Impl
import Mathlib.Data.FinEnum
import Mathlib.Logic.Equiv.List
import Mathlib.Tactic.DeriveCountable

/-!
This module contains the proof that a token is accepted only if it was signed as what it is accepted
as.
-/

open Octets List

namespace Vault

variable {back token : Octets}

section CutLast

variable {sep : UInt8}

theorem cutLast_of_not_mem (h : sep ∉ s) : cutLast sep s = none := by
  induction s with
  | nil => rfl
  | cons b s ih =>
    simp only [mem_cons, not_or] at h
    simp [cutLast, ih h.2, Ne.symm h.1]

theorem cutLast_append (front) (h : sep ∉ back)
    : cutLast sep (front ++ sep :: back) = some (front, back) := by
  induction front with
  | nil => simp [cutLast, cutLast_of_not_mem h]
  | cons b front ih => simp [cutLast, ih]

theorem append_of_cutLast (h : cutLast sep s = some (front, back)) : s = front ++ sep :: back := by
  induction s generalizing front with
  | nil => contradiction
  | cons b s ih =>
    unfold cutLast at h
    split at h
    . next front' back' hcut =>
      cases h
      rw [ih hcut, cons_append]
    . split at h
      . next heq =>
        cases h
        rw [heq, nil_append]
      . contradiction

theorem last_sep_unique (hback : sep ∉ back) (hback' : sep ∉ back')
    (h : front ++ sep :: back = front' ++ sep :: back') : front = front' ∧ back = back' := by
  have hcut := cutLast_append front hback
  rw [h, cutLast_append front' hback'] at hcut
  cases hcut
  exact ⟨rfl, rfl⟩

end CutLast

variable {c : VaultGrantClaims}

section Expiry

theorem toInt_add_skew (exp : Int64) (h : exp.toInt + 60 ≤ maxInt64)
    : (exp + grantClockSkew).toInt = exp.toInt + 60 := by
  have hle := exp.le_toInt
  unfold maxInt64 at h
  rw [Int64.toInt_add]
  apply Int.bmod_eq_of_le
  all_goals
    have hskew : grantClockSkew.toInt = 60 := rfl
    omega

theorem add_skew_lt (exp : Int64) (h : ¬ exp.toInt + 60 ≤ maxInt64)
    : exp + grantClockSkew < exp := by
  have hskew : grantClockSkew.toInt = 60 := rfl
  unfold maxInt64 at h
  rw [Int64.lt_iff_toInt_lt, Int64.toInt_add, hskew, Int.bmod_def]
  split
  all_goals omega

theorem le_of_le_add_skew (h : ¬ now > exp + grantClockSkew) : now.toInt ≤ exp.toInt + 60 := by
  rw [gt_iff_lt, Int64.lt_iff_toInt_lt, Int.not_lt] at h
  by_cases hexp : exp.toInt + 60 ≤ maxInt64
  . rw [toInt_add_skew exp hexp] at h
    exact h
  . have hlt := Int64.lt_iff_toInt_lt.mp (add_skew_lt exp hexp)
    omega

theorem not_expired_of_validate (h : validateClaimsForVerify c now = .ok ())
    : ¬ now > c.expiresAt + grantClockSkew := by
  unfold validateClaimsForVerify at h
  iterate 4
    split at h
    . contradiction
  cases hscope : validateScope c.scope with
  | error e => simp [hscope, bind, Except.bind] at h
  | ok u =>
    simp only [hscope, bind, Except.bind] at h
    split at h
    . contradiction
    . split at h
      . contradiction
      . assumption

/--
Of the checks of a verifier a signer has made all but the one of the time.
-/
theorem validateClaimsForVerify_of_sign (h : validateClaimsForSign c = .ok ()) (now : Int64)
    : validateClaimsForVerify c now
      = if now > c.expiresAt + grantClockSkew then .error .expired else .ok () := by
  unfold validateClaimsForSign at h
  iterate 8
    split at h
    . contradiction
  next hiss hid htenant hprincipal hagent hperm hexp hscope =>
    unfold validateClaimsForVerify
    rw [if_neg hprincipal, if_neg hperm, if_neg (by simp [hiss, hid, htenant, hagent]),
      if_neg hscope, h]
    simp only [bind, Except.bind, if_neg hexp]
    rfl

end Expiry

variable {j : Json}

section Accepted

variable {mac : Mac} {tenant raw : Octets} {now : Int64}

theorem Mac.accepts_iff
    : mac.accepts tenant message sig = true
        ↔
      (∃ call ∈ mac.calls, call.signed? mac.json = some (tenant, message)) ∧ sig = mac.tag tenant message := by
  simp [Mac.accepts]

theorem signed?_grant (h : validateClaimsForSign c = .ok ())
    : (SignCall.grant tenant c).signed? j = some (tenant, signingInput j c) := by
  simp [SignCall.signed?, h]

theorem signed?_cases {call : SignCall} (h : call.signed? j = some (tenant, message))
    : (∃ c, call = .grant tenant c ∧ message = signingInput j c)
        ∨
      (∃ c, call = .cap tenant c ∧ message = capPayload j c) := by
  cases call with
  | grant tenant' c =>
    unfold SignCall.signed? at h
    dsimp only at h
    split at h
    . cases h
      exact .inl ⟨c, rfl, rfl⟩
    . contradiction
  | cap tenant' c =>
    cases h
    exact .inr ⟨c, rfl, rfl⟩

theorem dot_mem_signingInput (j) (c) : 0x2e ∈ signingInput j c := by
  simp [signingInput]

theorem dot_not_mem_grantHeader : 0x2e ∉ grantHeader := Base64.dot_not_mem_encode _

theorem dot_not_mem_grantPayload (j) (c) : 0x2e ∉ grantPayload j c :=
  Base64.dot_not_mem_encode _

theorem of_verifyGrant (h : verifyGrant mac tenant raw now = .ok c)
    : ∃ header payload sigB64 sig json,
        raw = grantTokenPrefix ++ (header ++ 0x2e :: (payload ++ 0x2e :: sigB64))
          ∧ mac.accepts tenant (header ++ 0x2e :: payload) sig = true
          ∧ Base64.decode payload = some json
          ∧ mac.json.unmarshalGrant json = some c ∧ validateClaimsForVerify c now = .ok () := by
  unfold verifyGrant at h
  split at h
  . next hprefix =>
    obtain ⟨body, rfl⟩ := hprefix
    rw [drop_left] at h
    split at h
    . next header payload sigB64 hsplit =>
      have hbody : [0x2e].intercalate (body.splitOn 0x2e) = body := intercalate_splitOn 0x2e
      rw [hsplit] at hbody
      split at h
      . contradiction
      . next sig hsig =>
        split at h
        . next haccepts =>
          split at h
          . contradiction
          . next json hjson =>
            split at h
            . contradiction
            . next claims hclaims =>
              cases hvalid : validateClaimsForVerify claims now with
              | error e => simp [hvalid, bind, Except.bind] at h
              | ok u =>
                simp only [hvalid, bind, Except.bind, pure, Except.pure, Except.ok.injEq] at h
                rw [← h]
                refine ⟨header, payload, sigB64, sig, json, ?_, haccepts, hjson, hclaims, hvalid⟩
                rw [← hbody]
                simp [List.intercalate]
        . contradiction
    . contradiction
  . contradiction

theorem of_verifyCapToken {c : CapTokenClaims} (h : verifyCapToken mac tenant raw now = .ok c)
    : ∃ front payload sigB64 sig json,
        raw = front ++ (payload ++ 0x2e :: sigB64) ∧ Base64.decode sigB64 = some sig
          ∧ mac.accepts tenant payload sig = true ∧ Base64.decode payload = some json
          ∧ mac.json.unmarshalCap json = some c ∧ now ≤ c.expiresAt := by
  unfold verifyCapToken at h
  split at h
  . contradiction
  . split at h
    . contradiction
    . next payload sigB64 hcut =>
      split at h
      . contradiction
      . next sig hsig =>
        split at h
        . next haccepts =>
          split at h
          . contradiction
          . next json hjson =>
            split at h
            . contradiction
            . next claims hclaims =>
              split at h
              . contradiction
              . next hexp =>
                cases h
                refine ⟨raw.take capTokenPrefix.length, payload, sigB64, sig, json, ?_, hsig,
                  haccepts, hjson, hclaims, ?_⟩
                . rw [← append_of_cutLast hcut, take_append_drop]
                . rw [Int64.le_iff_toInt_le]
                  rw [gt_iff_lt, Int64.lt_iff_toInt_lt] at hexp
                  omega
        . contradiction

theorem call_of_verifyGrant (hj : mac.json.Exact) (h : verifyGrant mac tenant raw now = .ok c)
    : .grant tenant c ∈ mac.calls ∧ now.toInt ≤ c.expiresAt.toInt + 60 := by
  obtain ⟨header, payload, _, sig, json, _, haccepts, hjson, hclaims, hvalid⟩ := of_verifyGrant h
  refine ⟨?_, le_of_le_add_skew (not_expired_of_validate hvalid)⟩
  obtain ⟨⟨call, hcall, hsigned⟩, _⟩ := Mac.accepts_iff.mp haccepts
  cases signed?_cases hsigned with
  | inl hgrant =>
    obtain ⟨c', rfl, heq⟩ := hgrant
    -- the payload is what stands after the last dot of the signed text
    obtain ⟨_, rfl⟩ :=
      last_sep_unique (Base64.dot_not_mem_of_decode hjson) (Base64.dot_not_mem_encode _) heq
    rw [Base64.decode_encode] at hjson
    cases hjson
    rw [hj.grant] at hclaims
    cases hclaims
    exact hcall
  | inr hcap =>
    obtain ⟨c', _, heq⟩ := hcap
    have hdot : 0x2e ∈ header ++ 0x2e :: payload := by simp
    rw [heq] at hdot
    exact absurd hdot (Base64.dot_not_mem_encode _)

theorem cap_of_accepts (haccepts : mac.accepts tenant payload sig = true)
    (hjson : Base64.decode payload = some json)
    : ∃ c, .cap tenant c ∈ mac.calls ∧ payload = capPayload mac.json c := by
  obtain ⟨⟨call, hcall, hsigned⟩, _⟩ := Mac.accepts_iff.mp haccepts
  cases signed?_cases hsigned with
  | inl hgrant =>
    obtain ⟨c', _, heq⟩ := hgrant
    exact absurd (heq ▸ dot_mem_signingInput mac.json c') (Base64.dot_not_mem_of_decode hjson)
  | inr hcap =>
    obtain ⟨c, rfl, heq⟩ := hcap
    exact ⟨c, hcall, heq⟩

theorem call_of_verifyCapToken (hj : mac.json.Exact) {c : CapTokenClaims}
    (h : verifyCapToken mac tenant raw now = .ok c)
    : .cap tenant c ∈ mac.calls ∧ now ≤ c.expiresAt := by
  obtain ⟨_, payload, _, sig, json, _, _, haccepts, hjson, hclaims, hexp⟩ := of_verifyCapToken h
  obtain ⟨c', hcall, rfl⟩ := cap_of_accepts haccepts hjson
  refine ⟨?_, hexp⟩
  unfold capPayload at hjson
  rw [Base64.decode_encode] at hjson
  cases hjson
  rw [hj.cap] at hclaims
  cases hclaims
  exact hcall

end Accepted

section Fresh

variable {mac : Mac} {tenant : Octets} {now : Int64}

theorem verifyCapToken_signCapToken (hj : mac.json.Exact) {c : CapTokenClaims}
    (hcall : .cap tenant c ∈ mac.calls) (hnow : now ≤ c.expiresAt)
    : verifyCapToken mac tenant (signCapToken mac.json mac.tag tenant c) now = .ok c := by
  have haccepts : mac.accepts tenant (capPayload mac.json c) (mac.tag tenant (capPayload mac.json c)) = true :=
    Mac.accepts_iff.mpr ⟨⟨_, hcall, rfl⟩, rfl⟩
  have hexp : ¬ now > c.expiresAt := by
    rw [Int64.le_iff_toInt_le] at hnow
    rw [gt_iff_lt, Int64.lt_iff_toInt_lt]
    omega
  unfold verifyCapToken signCapToken
  rw [if_neg (by simp), drop_left, cutLast_append _ (Base64.dot_not_mem_encode _)]
  dsimp only
  rw [Base64.decode_encode]
  dsimp only
  rw [if_pos haccepts]
  unfold capPayload
  rw [Base64.decode_encode]
  dsimp only
  rw [hj.cap]
  dsimp only
  rw [if_neg hexp]
  rfl

theorem splitOn_three {a b c : Octets} (ha : 0x2e ∉ a) (hb : 0x2e ∉ b) (hc : 0x2e ∉ c)
    : (a ++ 0x2e :: (b ++ 0x2e :: c)).splitOn 0x2e = [a, b, c] := by
  have hone : ∀ {s : Octets}, 0x2e ∉ s → s.splitOnP (· == 0x2e) = [s] := by
    intro s hs
    apply splitOnP_eq_singleton
    intro x hx
    rw [beq_eq_false_iff_ne]
    rintro rfl
    exact hs hx
  unfold List.splitOn
  rw [splitOnP_append_cons _ _ rfl, splitOnP_append_cons _ _ rfl, hone ha, hone hb, hone hc]
  rfl

theorem signGrant_eq_ok (h : signGrant j tag tenant c = .ok token)
    : validateClaimsForSign c = .ok ()
        ∧ token = grantTokenPrefix ++ (grantHeader ++ 0x2e ::
            (grantPayload j c ++ 0x2e :: Base64.encode (tag tenant (signingInput j c)))) := by
  unfold signGrant at h
  cases hvalid : validateClaimsForSign c with
  | error e => simp [hvalid, bind, Except.bind] at h
  | ok u =>
    simp only [hvalid, bind, Except.bind, pure, Except.pure, Except.ok.injEq] at h
    refine ⟨rfl, ?_⟩
    rw [← h]
    simp [signingInput]

theorem verifyGrant_signGrant (hj : mac.json.Exact) (hcall : .grant tenant c ∈ mac.calls)
    (htoken : signGrant mac.json mac.tag tenant c = .ok token)
    : verifyGrant mac tenant token now
        =
      if now > c.expiresAt + grantClockSkew then .error .expired else .ok c := by
  obtain ⟨hvalid, rfl⟩ := signGrant_eq_ok htoken
  have haccepts : mac.accepts tenant (grantHeader ++ 0x2e :: grantPayload mac.json c)
      (mac.tag tenant (signingInput mac.json c)) = true :=
    Mac.accepts_iff.mpr ⟨⟨_, hcall, signed?_grant hvalid⟩, rfl⟩
  unfold verifyGrant
  rw [if_pos (prefix_append _ _), drop_left,
    splitOn_three dot_not_mem_grantHeader (dot_not_mem_grantPayload _ _) (Base64.dot_not_mem_encode _)]
  dsimp only
  rw [Base64.decode_encode]
  dsimp only
  rw [if_pos haccepts]
  unfold grantPayload
  rw [Base64.decode_encode]
  dsimp only
  rw [hj.grant]
  dsimp only
  rw [validateClaimsForVerify_of_sign hvalid]
  split <;> rfl

/--
A signed grant is accepted for the whole of its time iff the end of that time is an `int64`.
-/
theorem fresh_grant_iff (hj : mac.json.Exact) (hcall : .grant tenant c ∈ mac.calls)
    (htenant : c.tenantID = tenant) (htoken : signGrant mac.json mac.tag tenant c = .ok token)
    : (∀ revokedAt expectedIssuer now, revokedAt tenant c.grantID = some none →
        (expectedIssuer = [] ∨ expectedIssuer = c.issuer) → now.toInt ≤ c.expiresAt.toInt + 60 →
        verifyAndResolveGrant mac revokedAt tenant expectedIssuer token now = .ok c)
        ↔
      c.expiresAt.toInt + 60 ≤ maxInt64 := by
  constructor
  . intro h
    apply Classical.byContradiction
    intro hexp
    have hok := h (fun _ _ => some none) [] c.expiresAt rfl (.inl rfl) (by omega)
    unfold verifyAndResolveGrant at hok
    rw [verifyGrant_signGrant hj hcall htoken, if_pos (add_skew_lt _ hexp)] at hok
    contradiction
  . intro hexp revokedAt expectedIssuer now hrow hissuer hnow
    have hlate : ¬ now > c.expiresAt + grantClockSkew := by
      rw [gt_iff_lt, Int64.lt_iff_toInt_lt, toInt_add_skew _ hexp]
      omega
    have hmatch : ¬ (expectedIssuer ≠ [] ∧ c.issuer ≠ expectedIssuer) := by
      rintro ⟨hne, hne'⟩
      cases hissuer with
      | inl heq => exact hne heq
      | inr heq => exact hne' heq.symm
    unfold verifyAndResolveGrant
    rw [verifyGrant_signGrant hj hcall htoken, if_neg hlate]
    simp only [bind, Except.bind, htenant, ne_eq, not_true_eq_false, if_false]
    rw [if_neg hmatch, hrow]
    rfl

end Fresh

section Kinds

variable {mac : Mac} {tenant signer part : Octets} {now : Int64}

theorem head_not_in_header : ¬ text "eyJ0" <:+: grantTokenPrefix ++ grantHeader := by
  decide +kernel

theorem capPayload_head (hj : j.Exact) (c) : text "eyJ0" <+: capPayload j c := by
  obtain ⟨rest, hrest⟩ := hj.head c
  have htext : text "\x7b\"token_id\":" = 0x7b :: 0x22 :: 0x74 :: text "oken_id\":" := by decide +kernel
  have hfirst : [0, 1, 2, 3].map (fun i => Base64.digit ([30, 50, 9, 52].getD i 0))
      = text "eyJ0" := by decide +kernel
  unfold capPayload
  rw [← hrest, htext, ← hfirst]
  exact ⟨_, rfl⟩

theorem grant_not_cap (h : mac.Ideal) (hcall : .grant signer c ∈ mac.calls)
    (htoken : signGrant mac.json mac.tag signer c = .ok token) (hpart : part <:+: token) (claims)
    : verifyCapToken mac tenant part now ≠ .ok claims := by
  intro hok
  obtain ⟨hvalid, htext⟩ := signGrant_eq_ok htoken
  obtain ⟨front, payload, sigB64, sig, json, rfl, hsig, haccepts, hjson, _, _⟩ :=
    of_verifyCapToken hok
  obtain ⟨u, v, huv⟩ := hpart
  obtain ⟨c', hcap, rfl⟩ := cap_of_accepts haccepts hjson
  have hnodot : (0x2e : UInt8) ∉ grantTokenPrefix ++ grantHeader := by decide +kernel
  have hcut : (grantTokenPrefix ++ grantHeader) ++ 0x2e ::
      (grantPayload mac.json c ++ 0x2e :: Base64.encode (mac.tag signer (signingInput mac.json c)))
        = (u ++ front ++ capPayload mac.json c') ++ 0x2e :: (sigB64 ++ v) := by
    simp only [append_assoc, cons_append] at htext huv ⊢
    rw [← htext, ← huv]
  have hfirst : u ++ front ++ capPayload mac.json c' ≠ grantTokenPrefix ++ grantHeader := by
    intro heq
    apply head_not_in_header
    rw [← heq]
    exact (capPayload_head h.json c').isInfix.trans (suffix_append _ _).isInfix
  -- the dot before the signature is the first or the second one of the grant
  cases append_eq_append_iff.mp hcut with
  | inr hshort =>
    obtain ⟨as, has, htail⟩ := hshort
    cases as with
    | nil => exact hfirst (has.trans (append_nil _)).symm
    | cons b as =>
      obtain ⟨rfl, _⟩ := List.cons.inj htail
      simp [has] at hnodot
  | inl hlong =>
    obtain ⟨as, has, htail⟩ := hlong
    cases as with
    | nil => exact hfirst (has.trans (append_nil _))
    | cons b as =>
      simp only [cons_append, List.cons.injEq] at htail
      have hv : (0x2e : UInt8) ∉ sigB64 ++ v := by
        have hcount := congrArg (List.count 0x2e) htail.2
        simp only [count_append, count_cons_self,
          count_eq_zero_of_not_mem (Base64.dot_not_mem_encode _), grantPayload] at hcount
        rw [← count_eq_zero, count_append]
        omega
      obtain ⟨_, hsig'⟩ := last_sep_unique (Base64.dot_not_mem_encode _) hv htail.2
      obtain ⟨⟨call, hmem, hsigned⟩, rfl⟩ := Mac.accepts_iff.mp haccepts
      have hwhole := Base64.eq_of_prefix_encode (hsig' ▸ prefix_append sigB64 v) hsig
        (by rw [h.length_tag, h.length_tag])
      rw [hwhole, Base64.decode_encode] at hsig
      have hpair :=
        h.tag_inj _ hcall _ hmem _ _ (signed?_grant hvalid) hsigned (Option.some.inj hsig)
      have hmessage : signingInput mac.json c = capPayload mac.json c' := congrArg Prod.snd hpair
      have hdot := dot_mem_signingInput mac.json c
      rw [hmessage] at hdot
      exact Base64.dot_not_mem_encode _ hdot

theorem cap_not_grant {c : CapTokenClaims}
    (hpart : part <:+: signCapToken mac.json mac.tag signer c) (claims)
    : verifyGrant mac tenant part now ≠ .ok claims := by
  intro hok
  obtain ⟨header, payload, sigB64, _, _, rfl, _⟩ := of_verifyGrant hok
  have hcount := hpart.count_le 0x2e
  have hprefix : List.count 0x2e capTokenPrefix = 0 := by decide +kernel
  unfold signCapToken capPayload at hcount
  simp only [count_append, count_cons_self, hprefix,
    count_eq_zero_of_not_mem (Base64.dot_not_mem_encode _)] at hcount
  omega

end Kinds

theorem of_verifyAndResolveGrant
    (h : verifyAndResolveGrant mac revokedAt tenant expectedIssuer raw now = .ok c)
    : verifyGrant mac tenant raw now = .ok c ∧ c.tenantID = tenant
      ∧ revokedAt tenant c.grantID = some none := by
  unfold verifyAndResolveGrant at h
  cases hverify : verifyGrant mac tenant raw now with
  | error e => simp [hverify, bind, Except.bind] at h
  | ok claims =>
    simp only [hverify, bind, Except.bind] at h
    split at h
    . contradiction
    . next htenant =>
      split at h
      . contradiction
      . split at h
        . contradiction
        . contradiction
        . next hrow =>
          cases h
          exact ⟨rfl, Classical.not_not.mp htenant, hrow⟩

section Instances

deriving instance Countable for PrincipalType
deriving instance Countable for GrantPerm
deriving instance Countable for VaultGrantClaims
deriving instance Countable for CapTokenClaims

def grantUntil (exp : Int64) : VaultGrantClaims where
  issuer := [0x69]
  grantID := [0x67]
  tenantID := [0x74]
  principalType := .owner
  agent := [0x61]
  scope := [[0x73]]
  perm := .read
  expiresAt := exp
  labelHint := []

def grantText (exp : String) : Octets :=
  text "\x7b\"iss\":\"i\",\"grant_id\":\"g\",\"tenant_id\":\"t\",\"principal_type\":\"owner\",\"agent\":\"a\","
    ++ text "\"scope\":[\"s\"],\"perm\":\"read\",\"exp\":" ++ text exp ++ text "\x7d"

-- The encoding of all other claims does not matter.
theorem exists_exact (c₀ : VaultGrantClaims) (exp)
    : ∃ j : Json, j.Exact ∧ j.marshalGrant c₀ = grantText exp := by
  classical
  obtain ⟨f, hf⟩ := exists_injective_nat VaultGrantClaims
  obtain ⟨g, hg⟩ := exists_injective_nat CapTokenClaims
  have hzero : ∀ n, List.replicate n 0 ≠ grantText exp := by
    intro n heq
    have hmem : 0x7d ∈ grantText exp := mem_append_right _ mem_cons_self
    rw [← heq] at hmem
    exact absurd (eq_of_mem_replicate hmem) (by decide)
  refine ⟨{
    marshalGrant := fun c => if c = c₀ then grantText exp else List.replicate (f c) 0
    unmarshalGrant := fun s => if s = grantText exp then some c₀ else Function.partialInv f s.length
    marshalCap := fun c => text "\x7b\"token_id\":" ++ List.replicate (g c) 0
    unmarshalCap := fun s => Function.partialInv g (s.length - (text "\x7b\"token_id\":").length) },
    ⟨?_, ?_, ?_⟩, if_pos rfl⟩
  . intro c
    by_cases hc : c = c₀
    . simp [hc]
    . simp [hc, hzero, Function.partialInv_left hf]
  . intro c
    simp [Function.partialInv_left hg]
  . intro c
    exact prefix_append _ _

theorem exists_ideal (tenant) (c) (exp)
    : ∃ mac : Mac, mac.Ideal ∧ .grant tenant c ∈ mac.calls
      ∧ mac.json.marshalGrant c = grantText exp := by
  obtain ⟨j, hj, htext⟩ := exists_exact c exp
  refine ⟨⟨j, fun _ _ => List.replicate 32 0, [.grant tenant c]⟩,
    ⟨hj, fun _ _ => length_replicate, ?_⟩,
    mem_singleton_self _, htext⟩
  intro call₁ h₁ call₂ h₂ p p' hp hp' _
  rw [mem_singleton.mp h₁] at hp
  rw [mem_singleton.mp h₂, hp] at hp'
  exact Option.some.inj hp'

end Instances

/--
Under an ideal MAC the two kinds of tokens are unforgeable and apart; the time of a grant is kept
iff its end, a minute after `exp`, is an `int64`.
-/
theorem tokens_unforgeable (mac : Mac) (h : mac.Ideal) (tenant : Octets)
    : (∀ revokedAt expectedIssuer raw now c,
        verifyAndResolveGrant mac revokedAt tenant expectedIssuer raw now = .ok c →
        .grant tenant c ∈ mac.calls ∧ c.tenantID = tenant ∧ revokedAt tenant c.grantID = some none
          ∧ now.toInt ≤ c.expiresAt.toInt + 60)
      ∧ (∀ raw now c, verifyCapToken mac tenant raw now = .ok c → .cap tenant c ∈ mac.calls ∧ now ≤ c.expiresAt)
      ∧ (∀ c now, .cap tenant c ∈ mac.calls → now ≤ c.expiresAt →
        verifyCapToken mac tenant (signCapToken mac.json mac.tag tenant c) now = .ok c)
      ∧ (∀ c token, .grant tenant c ∈ mac.calls → c.tenantID = tenant →
        signGrant mac.json mac.tag tenant c = .ok token →
        ((∀ revokedAt expectedIssuer now, revokedAt tenant c.grantID = some none →
            (expectedIssuer = [] ∨ expectedIssuer = c.issuer) → now.toInt ≤ c.expiresAt.toInt + 60 →
            verifyAndResolveGrant mac revokedAt tenant expectedIssuer token now = .ok c)
          ↔ c.expiresAt.toInt + 60 ≤ maxInt64))
      ∧ (∀ signer c token part now claims, .grant signer c ∈ mac.calls →
        signGrant mac.json mac.tag signer c = .ok token → part <:+: token →
        verifyCapToken mac tenant part now ≠ .ok claims)
      ∧ (∀ signer c part now claims, .cap signer c ∈ mac.calls → part <:+: signCapToken mac.json mac.tag signer c →
        verifyGrant mac tenant part now ≠ .ok claims) := by
  refine ⟨?_, ?_, ?_, ?_, ?_, ?_⟩
  . intro revokedAt expectedIssuer raw now c hok
    obtain ⟨hverify, htenant, hrow⟩ := of_verifyAndResolveGrant hok
    obtain ⟨hcall, hnow⟩ := call_of_verifyGrant h.json hverify
    exact ⟨hcall, htenant, hrow, hnow⟩
  . intro raw now c hok
    exact call_of_verifyCapToken h.json hok
  . intro c now hcall hnow
    exact verifyCapToken_signCapToken h.json hcall hnow
  . intro c token hcall htenant htoken
    exact fresh_grant_iff h.json hcall htenant htoken
  . intro signer c token part now claims hcall htoken hpart
    exact grant_not_cap h hcall htoken hpart claims
  . intro signer c part now claims _ hpart
    exact cap_not_grant hpart claims

theorem tokens_unforgeable_thousand
    : ∃ mac : Mac, mac.Ideal ∧ .grant [0x74] (grantUntil 1000) ∈ mac.calls
        ∧ mac.json.marshalGrant (grantUntil 1000) = grantText "1000" ∧
        ∀ token, signGrant mac.json mac.tag [0x74] (grantUntil 1000) = .ok token →
          verifyAndResolveGrant mac (fun _ _ => some none) [0x74] [] token 1060 = .ok (grantUntil 1000) := by
  obtain ⟨mac, hmac, hcall, htext⟩ := exists_ideal [0x74] (grantUntil 1000) "1000"
  refine ⟨mac, hmac, hcall, htext, ?_⟩
  intro token htoken
  have hfresh := (tokens_unforgeable mac hmac [0x74]).2.2.2.1 _ token hcall rfl htoken
  exact hfresh.mpr (by decide) _ _ _ rfl (.inl rfl) (by decide)

/--
`exp + 60` of a grant without a practical end is negative, and the grant is never accepted.
-/
theorem endless_grant_expired
    : ∃ mac : Mac, mac.Ideal ∧ .grant [0x74] (grantUntil 9223372036854775807) ∈ mac.calls
        ∧ mac.json.marshalGrant (grantUntil 9223372036854775807) = grantText "9223372036854775807" ∧
        ∃ token, signGrant mac.json mac.tag [0x74] (grantUntil 9223372036854775807) = .ok token ∧
          verifyAndResolveGrant mac (fun _ _ => some none) [0x74] [] token 0 = .error .expired := by
  obtain ⟨mac, hmac, hcall, htext⟩ :=
    exists_ideal [0x74] (grantUntil 9223372036854775807) "9223372036854775807"
  refine ⟨mac, hmac, hcall, htext, _, rfl, ?_⟩
  unfold verifyAndResolveGrant
  rw [verifyGrant_signGrant hmac.json hcall rfl, if_pos (by decide)]
  rfl

end Vault
