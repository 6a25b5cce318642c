import AiMemory.Machine.Bytes
import AiMemory.Machine.Chrono
import Mathlib.Data.List.Sort

/-
This file embeds the lineage records and the bytes that their signatures and witnesses commit to.
-/

namespace AiMemory.Lineage
open AiMemory.Machine

inductive LineageReason where
  | genesis | rotation | recovery | revocation
  deriving DecidableEq, Repr

def LineageReason.asStr : LineageReason → String
  | genesis => "genesis"
  | rotation => "rotation"
  | recovery => "recovery"
  | revocation => "revocation"

def custodyClassSoftwareFile : String := "software-file"

inductive CustodyClass where
  | softwareFile | tpm2 | pkcs11Hsm | secureEnclave | kms
  deriving DecidableEq, Repr

def CustodyClass.asStr : CustodyClass → String
  | softwareFile => custodyClassSoftwareFile
  | tpm2 => "tpm2"
  | pkcs11Hsm => "pkcs11-hsm"
  | secureEnclave => "secure-enclave"
  | kms => "kms"

structure LineageRecord where
  agentId : String
  epoch : UInt64
  reason : LineageReason
  predecessorPubkeyB64 : String
  successorPubkeyB64 : String
  recoveryPubkeyB64 : Option String
  notBefore : String
  prevRecordHash : Bytes
  custodyClass : CustodyClass
  suspectedCompromiseFromSeq : Option UInt64
  guardianSetId : Option Bytes
  recoveryThreshold : Option UInt64
  deriving DecidableEq, Repr

/-- The encoder sees the slugs of the record. -/
structure SignableSuccession where
  agentId : String
  epoch : UInt64
  reason : String
  predecessorPubkey : String
  successorPubkey : String
  recoveryPubkey : Option String
  notBefore : String
  prevRecordHash : Bytes
  custodyClass : String
  suspectedCompromiseFromSeq : Option UInt64
  guardianSetId : Option Bytes
  recoveryThreshold : Option UInt64

def LineageRecord.toSignable (record : LineageRecord) : SignableSuccession where
  agentId := record.agentId
  epoch := record.epoch
  reason := record.reason.asStr
  predecessorPubkey := record.predecessorPubkeyB64
  successorPubkey := record.successorPubkeyB64
  recoveryPubkey := record.recoveryPubkeyB64
  notBefore := record.notBefore
  prevRecordHash := record.prevRecordHash
  custodyClass := record.custodyClass.asStr
  suspectedCompromiseFromSeq := record.suspectedCompromiseFromSeq
  guardianSetId := record.guardianSetId
  recoveryThreshold := record.recoveryThreshold

/-- These are the values of the CBOR library that the code builds and matches. -/
inductive CborValue where
  | null
  | integer (value : Int)
  | text (value : String)
  | bytes (value : Bytes)
  | array (items : List CborValue)
  | map (entries : List (CborValue × CborValue))

/-- An unsigned word is written as an integer. -/
def CborValue.unsigned (word : UInt64) : CborValue := .integer word.toNat

/-- The process supplies its digest, its codecs, its key decoder and its calendar. -/
structure Environment where
  sha256 : Bytes → Digest
  intoWriter : CborValue → Option Bytes
  fromReader : Bytes → Option CborValue
  urlSafeNoPadDecode : String → Option Bytes
  standardDecode : String → Option Bytes
  verifyingKeyFromBytes : Digest → Option VerifyingKey
  chrono : Chrono

def textOrNull : Option String → CborValue
  | some text => .text text
  | none => .null

/-- The entries beyond the first eight appear only when they differ from their defaults. -/
def successionEntries (signable : SignableSuccession) : List (String × CborValue) :=
  [("agent_id", .text signable.agentId),
    ("epoch", .unsigned signable.epoch),
    ("reason", .text signable.reason),
    ("predecessor_pubkey", .text signable.predecessorPubkey),
    ("successor_pubkey", .text signable.successorPubkey),
    ("recovery_pubkey", textOrNull signable.recoveryPubkey),
    ("not_before", .text signable.notBefore),
    ("prev_record_hash", .bytes signable.prevRecordHash)] ++
  (if signable.custodyClass ≠ custodyClassSoftwareFile then
    [("custody_class", .text signable.custodyClass)] else []) ++
  (signable.suspectedCompromiseFromSeq.map fun seq =>
    ("suspected_compromise_from_seq", CborValue.unsigned seq)).toList ++
  (signable.guardianSetId.map fun gid => ("guardian_set_id", CborValue.bytes gid)).toList ++
  (signable.recoveryThreshold.map fun threshold =>
    ("recovery_threshold", CborValue.unsigned threshold)).toList

def lineageDomain : Bytes := "agent-lineage-succession-v1\x00".toUTF8.data.toList

def lineageSigningInput (canonicalBody : Bytes) : Bytes := lineageDomain ++ canonicalBody

section Encoding

variable (env : Environment)

/-- The map sorts its entries by the encoded bytes of their keys. -/
def canonicalCborMap (pairs : List (String × CborValue)) : CborValue :=
  -- The library never fails on a text key.
  let encodedKey := fun pair : String × CborValue => (env.intoWriter (.text pair.1)).getD []
  .map ((pairs.insertionSort fun first second => encodedKey first ≤ encodedKey second).map
    fun pair => (.text pair.1, pair.2))

def canonicalCborSuccession (signable : SignableSuccession) : Option Bytes :=
  env.intoWriter (canonicalCborMap env (successionEntries signable))

namespace LineageRecord

def canonicalBytes (record : LineageRecord) : Option Bytes :=
  canonicalCborSuccession env record.toSignable

def signingInput (record : LineageRecord) : Option Bytes :=
  (record.canonicalBytes env).map lineageSigningInput

def recordHash (record : LineageRecord) : Option Digest :=
  (record.canonicalBytes env).map env.sha256

def witnessPayloadHash (record : LineageRecord) : Option Bytes :=
  (record.signingInput env).map fun input => (env.sha256 input).1

end LineageRecord

/-- The canonical map reads only the writer of its environment. -/
theorem canonicalCborMap_congr {env other : Environment} (same : env.intoWriter = other.intoWriter)
    (pairs : List (String × CborValue)) : canonicalCborMap env pairs = canonicalCborMap other pairs := by
  rw [canonicalCborMap, canonicalCborMap, same]

/-- The written bytes depend on the writer only. -/
theorem LineageRecord.canonicalBytes_congr {env other : Environment}
    (same : env.intoWriter = other.intoWriter) (record : LineageRecord) :
    record.canonicalBytes env = record.canonicalBytes other := by
  simp only [canonicalBytes, canonicalCborSuccession, same, canonicalCborMap_congr same]

end Encoding

section Injectivity

theorem LineageReason.asStr_injective : Function.Injective asStr := by
  intro first second same
  cases first <;> cases second <;> first | rfl | simp [asStr] at same

theorem CustodyClass.asStr_injective : Function.Injective asStr := by
  intro first second same
  cases first <;> cases second <;> first | rfl | simp [asStr, custodyClassSoftwareFile] at same

/-- Different records are signed as different values. -/
theorem LineageRecord.toSignable_injective : Function.Injective toSignable := by
  intro first second same
  obtain ⟨agentId, epoch, reason, predecessor, successor, recovery, notBefore, prevHash, custody, seq,
    gid, threshold⟩ := first
  cases second
  simp only [toSignable, SignableSuccession.mk.injEq] at same
  obtain ⟨rfl, rfl, reasons, rfl, rfl, rfl, rfl, rfl, custodies, rfl, rfl, rfl⟩ := same
  rw [LineageReason.asStr_injective reasons, CustodyClass.asStr_injective custodies]

theorem textOrNull_injective : Function.Injective textOrNull := by
  intro first second same
  cases first <;> cases second <;> simp_all [textOrNull]

theorem CborValue.unsigned_inj {first second : UInt64} :
    unsigned first = unsigned second ↔ first = second := by
  simp only [unsigned, CborValue.integer.injEq, Int.ofNat_inj, UInt64.toNat_inj]

/-- The default class is the one that leaves no entry. -/
theorem custodyClass_eq {first second : String}
    (same : ∀ slug, (first ≠ custodyClassSoftwareFile ∧ slug = first) ↔
      (second ≠ custodyClassSoftwareFile ∧ slug = second)) : first = second := by
  by_cases usual : first = custodyClassSoftwareFile
  · by_contra different
    have stored := (same second).mpr ⟨fun other => different (usual.trans other.symm), rfl⟩
    exact stored.1 usual
  · exact ((same first).mp ⟨usual, rfl⟩).2

/-- The entries determine the signable fields, whatever their order. -/
theorem successionEntries_inj {first second : SignableSuccession}
    (same : ∀ entry, entry ∈ successionEntries first ↔ entry ∈ successionEntries second) :
    first = second := by
  have agent : first.agentId = second.agentId := by
    simpa [successionEntries] using same ("agent_id", .text first.agentId)
  have epoch : first.epoch = second.epoch := by
    simpa [successionEntries, CborValue.unsigned_inj] using same ("epoch", .unsigned first.epoch)
  have reason : first.reason = second.reason := by
    simpa [successionEntries] using same ("reason", .text first.reason)
  have predecessor : first.predecessorPubkey = second.predecessorPubkey := by
    simpa [successionEntries] using same ("predecessor_pubkey", .text first.predecessorPubkey)
  have successor : first.successorPubkey = second.successorPubkey := by
    simpa [successionEntries] using same ("successor_pubkey", .text first.successorPubkey)
  have recovery : first.recoveryPubkey = second.recoveryPubkey := by
    simpa [successionEntries, textOrNull_injective.eq_iff] using
      same ("recovery_pubkey", textOrNull first.recoveryPubkey)
  have notBefore : first.notBefore = second.notBefore := by
    simpa [successionEntries] using same ("not_before", .text first.notBefore)
  have prevHash : first.prevRecordHash = second.prevRecordHash := by
    simpa [successionEntries] using same ("prev_record_hash", .bytes first.prevRecordHash)
  have custody : first.custodyClass = second.custodyClass :=
    custodyClass_eq fun slug => by simpa [successionEntries] using same ("custody_class", .text slug)
  have seq : first.suspectedCompromiseFromSeq = second.suspectedCompromiseFromSeq :=
    Option.ext fun value => by
      simpa [successionEntries, CborValue.unsigned_inj] using
        same ("suspected_compromise_from_seq", .unsigned value)
  have gid : first.guardianSetId = second.guardianSetId :=
    Option.ext fun value => by simpa [successionEntries] using same ("guardian_set_id", .bytes value)
  have threshold : first.recoveryThreshold = second.recoveryThreshold :=
    Option.ext fun value => by
      simpa [successionEntries, CborValue.unsigned_inj] using same ("recovery_threshold", .unsigned value)
  cases first
  cases second
  simp_all only

/-- The sorted map determines the signable fields. -/
theorem canonicalCborMap_inj (env : Environment) {first second : SignableSuccession}
    (same : canonicalCborMap env (successionEntries first) =
      canonicalCborMap env (successionEntries second)) : first = second := by
  have keyed : Function.Injective fun pair : String × CborValue => (CborValue.text pair.1, pair.2) := by
    rintro ⟨_, _⟩ ⟨_, _⟩ pairs
    simpa using pairs
  have sorted := List.map_injective_iff.mpr keyed (CborValue.map.inj same)
  apply successionEntries_inj
  intro entry
  have members := congrArg (entry ∈ ·) sorted
  simpa only [List.mem_insertionSort, eq_iff_iff] using members

/-- The decoder reads the canonical value of the record back from its bytes. -/
def LineageRecord.Readable (env : Environment) (record : LineageRecord) : Prop :=
  ∀ written, record.canonicalBytes env = some written →
    env.fromReader written = some (canonicalCborMap env (successionEntries record.toSignable))

/-- The canonical bytes determine a readable record. -/
theorem LineageRecord.canonicalBytes_inj {env : Environment} {first second : LineageRecord} {bytes : Bytes}
    (firstReadable : first.Readable env) (secondReadable : second.Readable env)
    (firstBytes : first.canonicalBytes env = some bytes)
    (secondBytes : second.canonicalBytes env = some bytes) : first = second := by
  have maps := Option.some.inj
    ((firstReadable bytes firstBytes).symm.trans (secondReadable bytes secondBytes))
  exact toSignable_injective (canonicalCborMap_inj env maps)

/-- The witness hash determines a readable record. -/
theorem LineageRecord.witnessPayloadHash_inj {env : Environment} {first second : LineageRecord}
    {hash : Bytes} (firstReadable : first.Readable env) (secondReadable : second.Readable env)
    (firstHash : first.witnessPayloadHash env = some hash)
    (secondHash : second.witnessPayloadHash env = some hash) {inputs : List Bytes}
    (collisionFree : CollisionFree env.sha256 inputs)
    (hashed : ∀ record ∈ [first, second], ∀ input ∈ record.signingInput env, input ∈ inputs) :
    first = second := by
  obtain ⟨firstInput, firstSigned, rfl⟩ := Option.map_eq_some_iff.mp firstHash
  obtain ⟨secondInput, secondSigned, digests⟩ := Option.map_eq_some_iff.mp secondHash
  have same : secondInput = firstInput :=
    collisionFree _ (hashed second (by simp) _ secondSigned) _ (hashed first (by simp) _ firstSigned)
      (Subtype.ext digests)
  obtain ⟨firstBody, firstBytes, rfl⟩ := Option.map_eq_some_iff.mp firstSigned
  obtain ⟨secondBody, secondBytes, bodies⟩ := Option.map_eq_some_iff.mp secondSigned
  have body : secondBody = firstBody := List.append_cancel_left (bodies.trans same)
  rw [body] at secondBytes
  exact canonicalBytes_inj firstReadable secondReadable firstBytes secondBytes

end Injectivity
end AiMemory.Lineage
