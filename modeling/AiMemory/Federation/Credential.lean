import AiMemory.Library.SortedMap
import AiMemory.Lineage.Record
import Mathlib.Data.String.Basic

/-
This file embeds the federation credentials and the bundle of trusted issuers.
-/

namespace AiMemory.Federation
open AiMemory.Library AiMemory.Lineage AiMemory.Machine

def credVersion : Nat := 1

inductive CredentialError where
  | malformed
  | badSignature
  | notYetValid
  | expired
  | unsupportedVersion (version : Nat)
  | badSubjectKey
  | unknownIssuer
  | wrongTrustDomain
  deriving DecidableEq

structure FederationCredential where
  subjectAgentId : String
  subjectPubkey : Digest
  issuerId : String
  trustDomain : String
  notBefore : Int
  notAfter : Int
  credVersion : Nat
  deriving DecidableEq

section Claims

variable (env : Environment)

/-- The keys stand in their lexicographic order. -/
def FederationCredential.canonicalClaimsBytes (credential : FederationCredential) :
    Except CredentialError Bytes :=
  (env.intoWriter (.map
    [(.text "cred_version", .integer credential.credVersion), (.text "issuer_id", .text credential.issuerId),
      (.text "not_after", .integer credential.notAfter), (.text "not_before", .integer credential.notBefore),
      (.text "subject_agent_id", .text credential.subjectAgentId),
      (.text "subject_pubkey", .bytes credential.subjectPubkey.1),
      (.text "trust_domain", .text credential.trustDomain)])).elim (.error .malformed) .ok

def textEntry : CborValue × CborValue → Except CredentialError (String × CborValue)
  | (.text key, value) => .ok (key, value)
  | _ => .error .malformed

/-- A later entry of a key replaces an earlier one. -/
def entryOf (entries : List (String × CborValue)) (key : String) : Option CborValue :=
  (entries.reverse.find? fun entry => entry.1 = key).map Prod.snd

def takeText (entries : List (String × CborValue)) (key : String) : Except CredentialError String :=
  match entryOf entries key with
  | some (.text value) => .ok value
  | _ => .error .malformed

def takeBytes (entries : List (String × CborValue)) (key : String) : Except CredentialError Bytes :=
  match entryOf entries key with
  | some (.bytes value) => .ok value
  | _ => .error .malformed

/-- The integers of the codec are wider than the claims. -/
def takeInt (entries : List (String × CborValue)) (key : String) : Except CredentialError Int :=
  match entryOf entries key with
  | some (.integer value) => if -2 ^ 63 ≤ value ∧ value < 2 ^ 63 then .ok value else .error .malformed
  | _ => .error .malformed

def fromClaimsBytes (bytes : Bytes) : Except CredentialError FederationCredential :=
  match env.fromReader bytes with
  | some (.map pairs) => do
      let entries ← pairs.mapM textEntry
      let key ← takeBytes entries "subject_pubkey"
      if exact : key.length = 32 then
        let version ← takeInt entries "cred_version"
        if 0 ≤ version ∧ version < 2 ^ 16 then
          return {
            subjectAgentId := ← takeText entries "subject_agent_id"
            subjectPubkey := ⟨key, exact⟩
            issuerId := ← takeText entries "issuer_id"
            trustDomain := ← takeText entries "trust_domain"
            notBefore := ← takeInt entries "not_before"
            notAfter := ← takeInt entries "not_after"
            credVersion := version.toNat }
        else .error .malformed
      else .error .malformed
  | _ => .error .malformed

def FederationCredential.subjectVerifyingKey (credential : FederationCredential) :
    Except CredentialError VerifyingKey :=
  (env.verifyingKeyFromBytes credential.subjectPubkey).elim (.error .badSubjectKey) .ok

/-- The claims are read from the signed bytes, or the bytes are written from the claims. -/
structure SignedCredential where
  credential : FederationCredential
  claimsBytes : Bytes
  signature : SignatureBytes
  carried : fromClaimsBytes env claimsBytes = .ok credential ∨
    credential.canonicalClaimsBytes env = .ok claimsBytes

end Claims

variable {env : Environment}

namespace SignedCredential

def checkValidity (signed : SignedCredential env) (nowUnix : Int) : Except CredentialError Unit :=
  if nowUnix < signed.credential.notBefore then .error .notYetValid
  else if nowUnix > signed.credential.notAfter then .error .expired
  else .ok ()

def verifyAgainst (signed : SignedCredential env) (issuerPub : VerifyingKey) (nowUnix : Int) :
    Except CredentialError Unit :=
  if signed.credential.credVersion > Federation.credVersion then
    .error (.unsupportedVersion signed.credential.credVersion)
  else if issuerPub.verifyStrict signed.claimsBytes signed.signature then signed.checkValidity nowUnix
  else .error .badSignature

def SignedBy (signed : SignedCredential env) (key : VerifyingKey) : Prop :=
  key.verifyStrict signed.claimsBytes signed.signature = true

def InWindow (signed : SignedCredential env) (nowUnix : Int) : Prop :=
  signed.credential.notBefore ≤ nowUnix ∧ nowUnix ≤ signed.credential.notAfter

/-- An accepted credential is signed by the key and in its window. -/
theorem verifyAgainst_ok {signed : SignedCredential env} {issuerPub : VerifyingKey} {nowUnix : Int}
    (accepted : signed.verifyAgainst issuerPub nowUnix = .ok ()) :
    signed.SignedBy issuerPub ∧ signed.InWindow nowUnix := by
  unfold verifyAgainst at accepted
  split at accepted
  · cases accepted
  split at accepted
  · rename_i verified
    unfold checkValidity at accepted
    split at accepted
    · cases accepted
    split at accepted
    · cases accepted
    · exact ⟨verified, by omega, by omega⟩
  · cases accepted

end SignedCredential

structure TrustBundle where
  issuers : SortedMap String VerifyingKey
  trustDomain : Option String

/-- A bundle without a domain trusts every domain. -/
def TrustBundle.verify (bundle : TrustBundle) (signed : SignedCredential env) (nowUnix : Int) :
    Except CredentialError FederationCredential :=
  if bundle.trustDomain.any fun domain => signed.credential.trustDomain ≠ domain then
    .error .wrongTrustDomain
  else
    match bundle.issuers.lookup signed.credential.issuerId with
    | none => .error .unknownIssuer
    | some issuerKey => do
        signed.verifyAgainst issuerKey nowUnix
        return signed.credential

/-- An accepted credential is signed by the issuer that it names, and its own claims are returned. -/
theorem TrustBundle.verify_ok {bundle : TrustBundle} {signed : SignedCredential env} {nowUnix : Int}
    {credential : FederationCredential} (accepted : bundle.verify signed nowUnix = .ok credential) :
    credential = signed.credential ∧
      (∃ issuerKey, bundle.issuers.lookup signed.credential.issuerId = some issuerKey ∧
        signed.SignedBy issuerKey) ∧ signed.InWindow nowUnix := by
  unfold verify at accepted
  split at accepted
  · cases accepted
  cases enrolled : bundle.issuers.lookup signed.credential.issuerId with
  | none =>
      rw [enrolled] at accepted
      cases accepted
  | some issuerKey =>
      simp only [enrolled] at accepted
      cases checked : signed.verifyAgainst issuerKey nowUnix with
      | error failure =>
          rw [checked] at accepted
          cases accepted
      | ok _ =>
          rw [checked] at accepted
          obtain ⟨signature, window⟩ := SignedCredential.verifyAgainst_ok checked
          exact ⟨(Except.ok.inj accepted).symm, ⟨issuerKey, rfl, signature⟩, window⟩

end AiMemory.Federation
