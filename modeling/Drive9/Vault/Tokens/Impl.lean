import Drive9.Lib.Base64

/-!
This module contains the signed tokens of the vault.
-/

open Octets

namespace Vault

inductive PrincipalType where
  | owner
  | delegated
  | other (text : Octets)
  deriving DecidableEq

inductive GrantPerm where
  | read
  | write
  | other (text : Octets)
  deriving DecidableEq

structure VaultGrantClaims where
  issuer : Octets
  grantID : Octets
  tenantID : Octets
  principalType : PrincipalType
  agent : Octets
  scope : List Octets
  perm : GrantPerm
  expiresAt : Int64
  labelHint : Octets

structure CapTokenClaims where
  tokenID : Octets
  tenantID : Octets
  agentID : Octets
  taskID : Octets
  scope : List Octets
  issuedAt : Int64
  expiresAt : Int64
  nonce : Octets

inductive TokenError where
  | required (claim : String)
  | badPrincipalType
  | badPerm
  | missingRequiredClaim
  | emptyScope
  | emptyScopeEntry
  | wildcard (entry : Octets)
  | emptySecretName (entry : Octets)
  | emptyFieldName (entry : Octets)
  | missingExp
  | expired
  | format
  | decodeSignature
  | signature
  | decodePayload
  | unmarshalClaims
  | tenantMismatch
  | issuer
  | grantNotFound
  | grantRevoked
  deriving DecidableEq

def validateScopeEntry (entry : Octets) : Except TokenError Unit :=
  if entry = [] then throw .emptyScopeEntry
  else if 0x2a ∈ entry then throw (.wildcard entry)
  else if (cut 0x2f entry).1 = [] then throw (.emptySecretName entry)
  else if 0x2f ∈ entry ∧ (cut 0x2f entry).2 = [] then throw (.emptyFieldName entry)
  else pure ()

def validateScope : List Octets → Except TokenError Unit
  | [] => pure ()
  | entry :: scope => do
    validateScopeEntry entry
    validateScope scope

def validateClaimsForSign (c : VaultGrantClaims) : Except TokenError Unit :=
  if c.issuer = [] then throw (.required "iss")
  else if c.grantID = [] then throw (.required "grant_id")
  else if c.tenantID = [] then throw (.required "tenant_id")
  else if c.principalType ≠ .owner ∧ c.principalType ≠ .delegated then throw .badPrincipalType
  else if c.agent = [] then throw (.required "agent")
  else if c.perm ≠ .read ∧ c.perm ≠ .write then throw .badPerm
  else if c.expiresAt ≤ 0 then throw (.required "exp")
  else if c.scope = [] then throw .emptyScope
  else validateScope c.scope

def grantClockSkew : Int64 := 60

def validateClaimsForVerify (c : VaultGrantClaims) (now : Int64) : Except TokenError Unit :=
  if c.principalType ≠ .owner ∧ c.principalType ≠ .delegated then throw .badPrincipalType
  else if c.perm ≠ .read ∧ c.perm ≠ .write then throw .badPerm
  else if c.grantID = [] ∨ c.issuer = [] ∨ c.agent = [] ∨ c.tenantID = [] then throw .missingRequiredClaim
  else if c.scope = [] then throw .emptyScope
  else do
    validateScope c.scope
    if c.expiresAt ≤ 0 then throw .missingExp
    -- the sum of two `int64`
    else if now > c.expiresAt + grantClockSkew then throw .expired
    else pure ()

structure Json where
  marshalGrant : VaultGrantClaims → Octets
  unmarshalGrant : Octets → Option VaultGrantClaims
  marshalCap : CapTokenClaims → Octets
  unmarshalCap : Octets → Option CapTokenClaims

structure Json.Exact (j : Json) : Prop where
  grant : ∀ c, j.unmarshalGrant (j.marshalGrant c) = some c
  cap : ∀ c, j.unmarshalCap (j.marshalCap c) = some c
  head : ∀ c, text "\x7b\"token_id\":" <+: j.marshalCap c

def grantTokenPrefix : Octets := text "vt_"

def capTokenPrefix : Octets := text "vault_"

def grantHeader : Octets := Base64.encode (text "\x7b\"alg\":\"HS256\",\"typ\":\"JWT\"\x7d")

def grantPayload (j : Json) (c : VaultGrantClaims) : Octets := Base64.encode (j.marshalGrant c)

def capPayload (j : Json) (c : CapTokenClaims) : Octets := Base64.encode (j.marshalCap c)

def signingInput (j : Json) (c : VaultGrantClaims) : Octets :=
  grantHeader ++ 0x2e :: grantPayload j c

def signGrant (j : Json) (tag : Octets → Octets → Octets) (tenant : Octets) (c : VaultGrantClaims)
    : Except TokenError Octets := do
  validateClaimsForSign c
  pure (grantTokenPrefix ++ (signingInput j c ++ 0x2e :: Base64.encode (tag tenant (signingInput j c))))

def signCapToken (j : Json) (tag : Octets → Octets → Octets) (tenant : Octets) (c : CapTokenClaims)
    : Octets :=
  capTokenPrefix ++ (capPayload j c ++ 0x2e :: Base64.encode (tag tenant (capPayload j c)))

inductive SignCall where
  | grant (tenant : Octets) (claims : VaultGrantClaims)
  | cap (tenant : Octets) (claims : CapTokenClaims)

def SignCall.signed? (j : Json) : SignCall → Option (Octets × Octets)
  | .grant tenant c =>
    match validateClaimsForSign c with
    | .ok _ => some (tenant, signingInput j c)
    | .error _ => none
  | .cap tenant c => some (tenant, capPayload j c)

/--
A MAC after some calls: `accepts` is `hmac.Equal` of a signature and the tag of a text, and an ideal
MAC has no tag for a text that was not signed.
-/
structure Mac where
  json : Json
  tag : Octets → Octets → Octets
  calls : List SignCall

def Mac.accepts (mac : Mac) (tenant message sig : Octets) : Bool :=
  mac.calls.any (·.signed? mac.json = some (tenant, message)) && sig = mac.tag tenant message

structure Mac.Ideal (mac : Mac) : Prop where
  json : mac.json.Exact
  length_tag : ∀ tenant message, (mac.tag tenant message).length = 32
  tag_inj : ∀ call ∈ mac.calls, ∀ call' ∈ mac.calls, ∀ p p', call.signed? mac.json = some p →
    call'.signed? mac.json = some p' → mac.tag p.1 p.2 = mac.tag p'.1 p'.2 → p = p'

def verifyGrant (mac : Mac) (tenant raw : Octets) (now : Int64)
    : Except TokenError VaultGrantClaims :=
  if grantTokenPrefix <+: raw then
    match (raw.drop grantTokenPrefix.length).splitOn 0x2e with
    | [headerB64, payloadB64, sigB64] =>
      match Base64.decode sigB64 with
      | none => throw .decodeSignature
      | some sig =>
        if mac.accepts tenant (headerB64 ++ 0x2e :: payloadB64) sig then
          match Base64.decode payloadB64 with
          | none => throw .decodePayload
          | some payloadJSON =>
            match mac.json.unmarshalGrant payloadJSON with
            | none => throw .unmarshalClaims
            | some claims => do
              validateClaimsForVerify claims now
              pure claims
        else throw .signature
    | _ => throw .format
  else throw .format

def cutLast (sep : UInt8) : Octets → Option (Octets × Octets)
  | [] => none
  | b :: s =>
    match cutLast sep s with
    | some (front, back) => some (b :: front, back)
    | none => if b = sep then some ([], s) else none

def verifyCapToken (mac : Mac) (tenant raw : Octets) (now : Int64)
    : Except TokenError CapTokenClaims :=
  if raw.length < capTokenPrefix.length then throw .format
  else
    -- the six bytes are passed over, whatever they are
    match cutLast 0x2e (raw.drop capTokenPrefix.length) with
    | none => throw .format
    | some (payloadB64, sigB64) =>
      match Base64.decode sigB64 with
      | none => throw .decodeSignature
      | some sig =>
        if mac.accepts tenant payloadB64 sig then
          match Base64.decode payloadB64 with
          | none => throw .decodePayload
          | some payloadJSON =>
            match mac.json.unmarshalCap payloadJSON with
            | none => throw .unmarshalClaims
            | some claims => if now > claims.expiresAt then throw .expired else pure claims
        else throw .signature

def verifyAndResolveGrant (mac : Mac) (revokedAt : Octets → Octets → Option (Option Int64))
    (tenant expectedIssuer raw : Octets) (now : Int64) : Except TokenError VaultGrantClaims := do
  let claims ← verifyGrant mac tenant raw now
  if claims.tenantID ≠ tenant then throw .tenantMismatch
  else if expectedIssuer ≠ [] ∧ claims.issuer ≠ expectedIssuer then throw .issuer
  else
    match revokedAt tenant claims.grantID with
    | none => throw .grantNotFound
    | some (some _) => throw .grantRevoked
    | some none => pure claims

end Vault
