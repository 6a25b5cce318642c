import AiMemory.Lineage.Record
import Mathlib.Data.Multiset.AddSub

/-
This file embeds the walk over a lineage from its genesis to its head.
-/

namespace AiMemory.Lineage
open AiMemory.Machine

inductive LineageError where
  | noGenesis
  | epochGap (epoch : UInt64)
  | predecessorMismatch (epoch : UInt64)
  | brokenLink (epoch : UInt64)
  | signatureInvalid (epoch : UInt64)
  | nonMonotonicTime (epoch : UInt64)
  | headKeyMismatch
  | witnessMismatch (epoch : UInt64)
  | truncated (records witnesses : Nat)
  | recoveryNotEnrolled (epoch : UInt64)
  | recoveryQuorumInvalid (epoch : UInt64)
  | recoveryQuorumNotMet (epoch : UInt64) (distinct threshold : Nat)
  deriving DecidableEq, Repr

structure VerifiedLineage where
  headKey : VerifyingKey
  epoch : UInt64
  recordsChecked : Nat
  headCustodyClass : CustodyClass
  revokedFromSeq : Option UInt64
  recoveredAtEpoch : Option UInt64
  recoveryGuardianSetDrift : Bool

structure RecoveryAttestation where
  guardianPubkeyB64 : String
  signature : Bytes

structure RecoveryVerification where
  distinctSigners : Nat
  guardianSetDrift : Bool

/-- The threshold is consulted only when a recovery is minted. -/
structure RecoveryPolicy where
  guardians : List VerifyingKey
  threshold : Option Nat

def zeroPrevHash : Bytes := List.replicate 32 0

section Keys

/-- These are the characters with the Unicode property White_Space. -/
def isWhitespace (letter : Char) : Bool :=
  letter.toNat ∈ [0x85, 0x20, 0xA0, 0x1680, 0x2028, 0x2029, 0x202F, 0x205F, 0x3000] ||
    (9 ≤ letter.toNat && letter.toNat ≤ 13) || (0x2000 ≤ letter.toNat && letter.toNat ≤ 0x200A)

def trim (text : String) : String :=
  String.ofList ((text.toList.dropWhile isWhitespace).reverse.dropWhile isWhitespace).reverse

variable (env : Environment)

/-- Either flavor of base64 decodes to the 32 bytes of a key. -/
def decodePublicBase64 (text : String) : Option VerifyingKey :=
  let trimmed := trim text
  match (env.urlSafeNoPadDecode trimmed).or (env.standardDecode trimmed) with
  | none => none
  | some bytes => if exact : bytes.length = 32 then env.verifyingKeyFromBytes ⟨bytes, exact⟩ else none

/-- The digest covers the sorted keys of the guardians. -/
def guardianSetIdDigest (guardians : List VerifyingKey) : Bytes :=
  let keys := (guardians.map fun guardian => guardian.toBytes.1).insertionSort (· ≤ ·)
  (env.sha256 keys.flatten).1

end Keys

section Quorum

variable (env : Environment)

def recoveryQuorumFormatV1 : Int := 1

def decodeAttestation : CborValue → Option RecoveryAttestation
  | .array [.text pubkeyB64, .bytes signature] => some ⟨pubkeyB64, signature⟩
  | _ => none

/-- An unknown format version fails like a malformed blob. -/
def decodeRecoveryQuorum (blob : Bytes) : Option (List RecoveryAttestation) :=
  match env.fromReader blob with
  | some (.array [.integer version, .array pairs]) =>
      if version ≠ recoveryQuorumFormatV1 then none else pairs.mapM decodeAttestation
  | _ => none

/-- An attestation counts when an enrolled guardian signed the input. -/
def countedSigner (guardians : List VerifyingKey) (signingInput : Bytes)
    (attestation : RecoveryAttestation) : Option Digest :=
  match decodePublicBase64 env attestation.guardianPubkeyB64 with
  | none => none
  | some key =>
      if key.toBytes ∉ guardians.map VerifyingKey.toBytes then none
      else
        match tryFromSlice attestation.signature with
        | none => none
        | some signature => if key.verifyStrict signingInput signature then some key.toBytes else none

/-- The threshold and the guardian set come from the signed body of the record. -/
def verifyRecoveryRecord (record : LineageRecord) (quorumBlob : Bytes) (policy : RecoveryPolicy) :
    Except LineageError RecoveryVerification :=
  let invalid := .error (.recoveryQuorumInvalid record.epoch)
  match record.recoveryThreshold with
  | none => invalid
  | some threshold =>
      let committedThreshold := threshold.toNat
      if committedThreshold < 1 then invalid
      else
        match record.guardianSetId, decodeRecoveryQuorum env quorumBlob, record.signingInput env with
        | some committedGid, some quorum, some signingInput =>
            let guardianSetDrift := committedGid != guardianSetIdDigest env policy.guardians
            let distinct := (quorum.filterMap (countedSigner env policy.guardians signingInput)).dedup
            if distinct.length < committedThreshold then
              .error (.recoveryQuorumNotMet record.epoch distinct.length committedThreshold)
            else .ok ⟨distinct.length, guardianSetDrift⟩
        | _, _, _ => invalid

end Quorum

section Walk

variable (env : Environment)

def verifySuccession (record : LineageRecord) (signature : Bytes) (predecessor : VerifyingKey) :
    Except LineageError Unit :=
  match tryFromSlice signature, record.signingInput env with
  | some signature, some input =>
      if predecessor.verifyStrict input signature then .ok ()
      else .error (.signatureInvalid record.epoch)
  | _, _ => .error (.signatureInvalid record.epoch)

/-- Each later record hands off from the head before it, and a genesis stands only at the front. -/
def checkPredecessor (policy : Option RecoveryPolicy) (prior record : LineageRecord) :
    Except LineageError Unit :=
  let handsOffFromHead := record.predecessorPubkeyB64 = prior.successorPubkeyB64
  match record.reason with
  | .rotation | .revocation =>
      if handsOffFromHead then .ok () else .error (.predecessorMismatch record.epoch)
  | .recovery =>
      if handsOffFromHead then
        if policy.isNone then .error (.recoveryNotEnrolled record.epoch) else .ok ()
      else .error (.predecessorMismatch record.epoch)
  | .genesis => .error (.predecessorMismatch record.epoch)

/-- The instants of the two records parse and do not decrease. -/
def checkTime (prior record : LineageRecord) : Except LineageError Unit :=
  match env.chrono.parseFromRfc3339 prior.notBefore, env.chrono.parseFromRfc3339 record.notBefore with
  | some earlier, some later =>
      if env.chrono.later earlier later then .error (.nonMonotonicTime record.epoch) else .ok ()
  | _, _ => .error (.nonMonotonicTime record.epoch)

def checkLink (prior record : LineageRecord) : Except LineageError Unit :=
  match prior.recordHash env with
  | none => .error (.brokenLink record.epoch)
  | some expected =>
      if record.prevRecordHash ≠ expected.1 then .error (.brokenLink record.epoch) else .ok ()

def checkSuccession (policy : Option RecoveryPolicy) (prior record : LineageRecord) :
    Except LineageError Unit := do
  if record.epoch ≠ prior.epoch + 1 then throw (.epochGap record.epoch)
  checkLink env prior record
  checkTime env prior record
  checkPredecessor policy prior record

/-- Each verified record uses up one witness. -/
def consumeWitness (witnesses : Multiset Bytes) (record : LineageRecord) :
    Except LineageError (Multiset Bytes) :=
  match record.witnessPayloadHash env with
  | none => .error (.witnessMismatch record.epoch)
  | some hash =>
      if hash ∈ witnesses then .ok (witnesses.erase hash) else .error (.witnessMismatch record.epoch)

/-- A recovery needs its quorum, and every other record needs its predecessor's signature. -/
def authorize (policy : Option RecoveryPolicy) (record : LineageRecord) (signature : Bytes) :
    Except LineageError (Option RecoveryVerification) :=
  match record.reason with
  | .recovery =>
      match policy with
      | none => .error (.recoveryNotEnrolled record.epoch)
      | some policy => (verifyRecoveryRecord env record signature policy).map some
  | _ =>
      match decodePublicBase64 env record.predecessorPubkeyB64 with
      | none => .error (.signatureInvalid record.epoch)
      | some predecessor => (verifySuccession env record signature predecessor).map fun _ => none

structure Walk where
  witnesses : Multiset Bytes
  prev : Option LineageRecord
  revokedFromSeq : Option UInt64
  recoveredAtEpoch : Option UInt64
  recoveryGuardianSetDrift : Bool

/-- The newest revocation or recovery with a sequence wins the report. -/
def Walk.suspectFrom (walk : Walk) (record : LineageRecord) : Option UInt64 :=
  if record.reason = .revocation ∨ record.reason = .recovery then
    record.suspectedCompromiseFromSeq.or walk.revokedFromSeq
  else walk.revokedFromSeq

def Walk.checkPrev (policy : Option RecoveryPolicy) (walk : Walk) (record : LineageRecord) :
    Except LineageError Unit :=
  match walk.prev with
  | some prior => checkSuccession env policy prior record
  | none => .ok ()

def walkRecord (policy : Option RecoveryPolicy) (walk : Walk) (entry : LineageRecord × Bytes) :
    Except LineageError Walk := do
  let (record, signature) := entry
  walk.checkPrev env policy record
  let witnesses ← consumeWitness env walk.witnesses record
  let recovery ← authorize env policy record signature
  return {
    witnesses
    prev := some record
    revokedFromSeq := walk.suspectFrom record
    recoveredAtEpoch := if recovery.isSome then some record.epoch else walk.recoveredAtEpoch
    recoveryGuardianSetDrift := walk.recoveryGuardianSetDrift ||
      (recovery.map RecoveryVerification.guardianSetDrift).getD false }

/-- The genesis anchors itself at epoch zero with no record before it. -/
def LineageRecord.isGenesis (record : LineageRecord) : Bool :=
  record.epoch = 0 ∧ record.reason = .genesis ∧
    record.predecessorPubkeyB64 = record.successorPubkeyB64 ∧ record.prevRecordHash = zeroPrevHash

/-- The head has to be the bound key, whatever the spelling of its base64. -/
def headKey (head : LineageRecord) (boundPubkeyB64 : Option String) :
    Except LineageError VerifyingKey :=
  match boundPubkeyB64.bind (decodePublicBase64 env), decodePublicBase64 env head.successorPubkeyB64 with
  | some bound, some headKey =>
      if bound.toBytes = headKey.toBytes then .ok headKey else .error .headKeyMismatch
  | _, _ => .error .headKeyMismatch

/-- A leftover witness means that the table lost its newest records. -/
def finishWalk (records witnesses : Nat) (boundPubkeyB64 : Option String) (walk : Walk) :
    Except LineageError VerifiedLineage :=
  if walk.witnesses.card > 0 then .error (.truncated records witnesses)
  else
    match walk.prev with
    | none => .error .noGenesis
    | some head =>
        (headKey env head boundPubkeyB64).map fun key =>
          { headKey := key
            epoch := head.epoch
            recordsChecked := records
            headCustodyClass := head.custodyClass
            revokedFromSeq := walk.revokedFromSeq
            recoveredAtEpoch := walk.recoveredAtEpoch
            recoveryGuardianSetDrift := walk.recoveryGuardianSetDrift }

def verifyLineageWithRecovery (records : Slice (LineageRecord × Bytes)) (witnessHashes : List Bytes)
    (boundPubkeyB64 : Option String) (recoveryPolicy : Option RecoveryPolicy) :
    Except LineageError VerifiedLineage :=
  match records.items with
  | [] => .error .noGenesis
  | (genesis, _) :: _ =>
      if genesis.isGenesis then do
        let walk ← records.items.foldlM (walkRecord env recoveryPolicy)
          ⟨witnessHashes, none, none, none, false⟩
        finishWalk env records.items.length witnessHashes.length boundPubkeyB64 walk
      else .error .noGenesis

end Walk
end AiMemory.Lineage
