import AiMemory.Crdt.Memory
import AiMemory.Lineage.Verify

/-
This file embeds the attestation of one memory write by the key of its author.
-/

namespace AiMemory.Attestation
open AiMemory.Crdt AiMemory.Lineage AiMemory.Machine

/-- A write signature commits to these six fields. -/
structure SignableWrite where
  agentId : String
  «namespace» : String
  title : String
  kind : String
  createdAt : String
  contentSha256 : Digest
  deriving DecidableEq

inductive VerifyError where
  | malformedSignature
  | tampered
  deriving DecidableEq

inductive AttestError where
  | forged
  | attestationRequired
  | badBoundKey
  | malformedSignature
  deriving DecidableEq

section Write

variable (env : Lineage.Environment)

def contentSha256 (content : String) : Digest := env.sha256 (utf8 content)

/-- The envelope of a row under the agent that the caller resolved. -/
def signableWrite (row : Memory) (agentId : String) : SignableWrite where
  agentId := agentId
  «namespace» := row.namespace
  title := row.title
  kind := row.memoryKind.asStr
  createdAt := row.createdAt
  contentSha256 := contentSha256 env row.content

def writeEntries (write : SignableWrite) : List (String × CborValue) :=
  [("_dst", .text "ai-memory/write/v1"), ("agent_id", .text write.agentId),
    ("namespace", .text write.namespace), ("title", .text write.title), ("kind", .text write.kind),
    ("created_at", .text write.createdAt), ("content_sha256", .bytes write.contentSha256.1)]

def canonicalCborWrite (write : SignableWrite) : Option Bytes :=
  env.intoWriter (canonicalCborMap env (writeEntries write))

def verifyWrite (key : VerifyingKey) (write : SignableWrite) (signature : Bytes) :
    Except VerifyError Unit :=
  match tryFromSlice signature with
  | none => .error .malformedSignature
  | some signature =>
      match canonicalCborWrite env write with
      | none => .error .tampered
      | some payload => if key.verifyStrict payload signature then .ok () else .error .tampered

/-- A presented signature that fails is never downgraded to a claim. -/
def attestWrite (write : SignableWrite) (boundPubkeyB64 : Option String) (signature : Option Bytes)
    (require : Bool) : Except AttestError AttestLevel :=
  match signature, boundPubkeyB64 with
  | some signature, some pubkeyB64 =>
      match decodePublicBase64 env pubkeyB64 with
      | none => .error .badBoundKey
      | some key =>
          match verifyWrite env key write signature with
          | .error .malformedSignature => .error .malformedSignature
          | .error .tampered => .error .forged
          | .ok () => .ok .agentAttested
  | _, _ => if require then .error .attestationRequired else .ok .claimed

/-- The stamp lands only in a metadata object. -/
def stampAttestation (row : Memory) (agentId : String) (boundPubkeyB64 : Option String)
    (signature : Option Bytes) (require : Bool) : Except AttestError Memory :=
  (attestWrite env (signableWrite env row agentId) boundPubkeyB64 signature require).map fun level =>
    { row with metadata := row.metadata.insert "attest_level" (.string level.asStr) }

end Write
end AiMemory.Attestation
