import AiMemory.Lineage.WitnessBinding
import Mathlib.Data.List.Dedup
import Mathlib.Data.Finset.Card

/-
This file proves that every head change of an accepted lineage was authorised.
-/

namespace AiMemory.Lineage
open AiMemory.Machine AiMemory.Library

section Statement

variable (env : Environment)

/-- The key signed the signing input of the record. -/
def SignedUnder (keyB64 : String) (entry : LineageRecord × Bytes) : Prop :=
  ∃ key signature input, decodePublicBase64 env keyB64 = some key ∧
    tryFromSlice entry.2 = some signature ∧ entry.1.signingInput env = some input ∧
    key.verifyStrict input signature = true

/-- One attestation of the quorum is a valid signature of the guardian. -/
def AttestedBy (quorum : List RecoveryAttestation) (input : Bytes) (guardian : Digest) : Prop :=
  ∃ attestation ∈ quorum, ∃ key signature,
    decodePublicBase64 env attestation.guardianPubkeyB64 = some key ∧ key.toBytes = guardian ∧
      tryFromSlice attestation.signature = some signature ∧ key.verifyStrict input signature = true

/-- At least the committed number of distinct enrolled guardians signed the record. -/
def QuorumSigned (policy : Option RecoveryPolicy) (entry : LineageRecord × Bytes) : Prop :=
  ∃ roster threshold quorum input, policy = some roster ∧ entry.1.recoveryThreshold = some threshold ∧
    decodeRecoveryQuorum env entry.2 = some quorum ∧ entry.1.signingInput env = some input ∧
    ∃ signers : Finset Digest, 1 ≤ threshold.toNat ∧ threshold.toNat ≤ signers.card ∧
      ∀ signer ∈ signers, signer ∈ roster.guardians.map VerifyingKey.toBytes ∧
        AttestedBy env quorum input signer

/-- The record hands off from the head before it under the authority that its reason asks for. -/
def Authorized (policy : Option RecoveryPolicy) (prior entry : LineageRecord × Bytes) : Prop :=
  entry.1.predecessorPubkeyB64 = prior.1.successorPubkeyB64 ∧
    if entry.1.reason = .recovery then QuorumSigned env policy entry
    else SignedUnder env prior.1.successorPubkeyB64 entry

/-- A revocation or a recovery may carry the sequence of a suspected compromise. -/
def LineageRecord.compromiseMark (record : LineageRecord) : Option UInt64 :=
  if record.reason = .revocation ∨ record.reason = .recovery then record.suspectedCompromiseFromSeq
  else none

/-- The newest record with a mark gives the mark of the chain. -/
def newestMark (mark : LineageRecord → Option UInt64) (records : List (LineageRecord × Bytes)) :
    Option UInt64 := records.reverse.findSome? fun entry => mark entry.1

/-- The verdict of an accepted lineage rests on the records themselves. -/
structure HeadJustified (policy : Option RecoveryPolicy) (boundPubkeyB64 : Option String)
    (mark : LineageRecord → Option UInt64) (records : List (LineageRecord × Bytes))
    (verified : VerifiedLineage) : Prop where
  positions : records.map (fun entry => entry.1.epoch.toNat) = List.range records.length
  genesis : ∃ first ∈ records.head?, first.1.isGenesis = true ∧
    SignedUnder env first.1.successorPubkeyB64 first
  handedOff : records.IsChain (Authorized env policy)
  head : ∃ last ∈ records.getLast?,
    decodePublicBase64 env last.1.successorPubkeyB64 = some verified.headKey
  bound : ∃ text ∈ boundPubkeyB64, ∃ key, decodePublicBase64 env text = some key ∧
    key.toBytes = verified.headKey.toBytes
  revoked : verified.revokedFromSeq = newestMark mark records

end Statement

variable {env : Environment} {policy : Option RecoveryPolicy}

/-- A counted signer is an enrolled guardian with a valid attestation. -/
theorem countedSigner_eq_some {guardians : List VerifyingKey} {input : Bytes}
    {attestation : RecoveryAttestation} {signer : Digest}
    (counted : countedSigner env guardians input attestation = some signer) :
    signer ∈ guardians.map VerifyingKey.toBytes ∧ ∃ key signature,
      decodePublicBase64 env attestation.guardianPubkeyB64 = some key ∧ key.toBytes = signer ∧
        tryFromSlice attestation.signature = some signature ∧ key.verifyStrict input signature = true := by
  unfold countedSigner at counted
  split at counted
  · cases counted
  rename_i key decoded
  split at counted
  · cases counted
  rename_i enrolled
  split at counted
  · cases counted
  rename_i signature exact64
  split at counted
  · rename_i valid
    obtain rfl := Option.some.inj counted
    exact ⟨not_not.mp enrolled, key, signature, decoded, rfl, exact64, valid⟩
  · cases counted

/-- A verified recovery has a quorum of distinct enrolled guardians. -/
theorem verifyRecoveryRecord_ok {record : LineageRecord} {quorumBlob : Bytes}
    {roster : RecoveryPolicy} {verification : RecoveryVerification}
    (verified : verifyRecoveryRecord env record quorumBlob roster = .ok verification) :
    QuorumSigned env (some roster) (record, quorumBlob) := by
  unfold verifyRecoveryRecord at verified
  simp only at verified
  split at verified
  · cases verified
  rename_i threshold committed
  split at verified
  · cases verified
  rename_i positive
  split at verified
  · rename_i gid quorum input _ decoded signed
    split at verified
    · cases verified
    rename_i enough
    refine ⟨roster, threshold, quorum, input, rfl, committed, decoded, signed,
      (quorum.filterMap (countedSigner env roster.guardians input)).toFinset, by omega, ?_, ?_⟩
    · rw [List.card_toFinset]
      exact Nat.le_of_not_lt enough
    · intro signer present
      obtain ⟨attestation, listed, counted⟩ := List.mem_filterMap.mp (List.mem_toFinset.mp present)
      obtain ⟨enrolled, valid⟩ := countedSigner_eq_some counted
      exact ⟨enrolled, attestation, listed, valid⟩
  · cases verified

/-- A verified succession is a signature of its predecessor key. -/
theorem verifySuccession_ok {record : LineageRecord} {signature : Bytes} {predecessor : VerifyingKey}
    (verified : verifySuccession env record signature predecessor = .ok ()) :
    ∃ bytes input, tryFromSlice signature = some bytes ∧ record.signingInput env = some input ∧
      predecessor.verifyStrict input bytes = true := by
  unfold verifySuccession at verified
  split at verified
  · rename_i bytes input exact64 signed
    split at verified
    · rename_i valid
      exact ⟨bytes, input, exact64, signed, valid⟩
    · cases verified
  · cases verified

/-- An authorised record has its quorum or the signature of the key that it names. -/
theorem authorize_ok {record : LineageRecord} {signature : Bytes}
    {recovery : Option RecoveryVerification}
    (authorized : authorize env policy record signature = .ok recovery) :
    if record.reason = .recovery then QuorumSigned env policy (record, signature)
    else SignedUnder env record.predecessorPubkeyB64 (record, signature) := by
  unfold authorize at authorized
  split at authorized
  · rename_i reason
    rw [if_pos reason]
    split at authorized
    · cases authorized
    rename_i roster
    cases outcome : verifyRecoveryRecord env record signature roster with
    | error failure => rw [outcome] at authorized; cases authorized
    | ok verification => exact verifyRecoveryRecord_ok outcome
  · rename_i reason
    rw [if_neg reason]
    split at authorized
    · cases authorized
    rename_i predecessor decoded
    cases outcome : verifySuccession env record signature predecessor with
    | error failure => rw [outcome] at authorized; cases authorized
    | ok done =>
        obtain ⟨bytes, input, exact64, signed, valid⟩ := verifySuccession_ok outcome
        exact ⟨predecessor, bytes, input, decoded, exact64, signed, valid⟩

/-- One step after the first is a hand-off from the head before it. -/
theorem authorized_of_step {walk after : Walk} {prior entry : LineageRecord × Bytes}
    (stored : walk.prev = some prior.1) (walked : walkRecord env policy walk entry = .ok after) :
    Authorized env policy prior entry := by
  obtain ⟨checked, _, ⟨recovery, authorized⟩, _, _⟩ := walkRecord_ok walked
  obtain ⟨_, _, _, named⟩ := checkSuccession_ok (checkPrev_ok stored checked)
  have handsOff := checkPredecessor_ok named
  refine ⟨handsOff, ?_⟩
  rw [← handsOff]
  exact authorize_ok authorized

/-- Every later record of an accepted walk is a hand-off from the record before it. -/
theorem handedOff_of_walk {records : List (LineageRecord × Bytes)} {walk final : Walk}
    (walked : records.foldlM (walkRecord env policy) walk = .ok final)
    {prior : LineageRecord × Bytes} (stored : walk.prev = some prior.1) :
    (prior :: records).IsChain (Authorized env policy) := by
  induction records generalizing walk prior with
  | nil => exact .singleton prior
  | cons entry rest ih =>
      obtain ⟨middle, stepped, walked⟩ := foldlM_cons_eq_ok.mp walked
      obtain ⟨_, _, _, kept, _⟩ := walkRecord_ok stepped
      exact .cons_cons (authorized_of_step stored stepped) (ih walked kept)

/-- The walk stops at its last record. -/
theorem prev_of_walk {records : List (LineageRecord × Bytes)} {walk final : Walk}
    (walked : records.foldlM (walkRecord env policy) walk = .ok final) :
    final.prev = (records.getLast?.map Prod.fst).or walk.prev := by
  induction records generalizing walk with
  | nil => rw [← Except.ok.inj walked]; rfl
  | cons entry rest ih =>
      obtain ⟨middle, stepped, walked⟩ := foldlM_cons_eq_ok.mp walked
      obtain ⟨_, _, _, kept, _⟩ := walkRecord_ok stepped
      rw [ih walked, kept, List.getLast?_cons]
      cases rest.getLast? <;> rfl

/-- A record keeps the mark of the walk or replaces it with its own. -/
theorem suspectFrom_eq (walk : Walk) (record : LineageRecord) :
    walk.suspectFrom record = record.compromiseMark.or walk.revokedFromSeq := by
  unfold Walk.suspectFrom LineageRecord.compromiseMark
  split <;> rfl

/-- The walk reports the newest mark. -/
theorem revoked_of_walk {records : List (LineageRecord × Bytes)} {walk final : Walk}
    (walked : records.foldlM (walkRecord env policy) walk = .ok final) :
    final.revokedFromSeq = (newestMark LineageRecord.compromiseMark records).or walk.revokedFromSeq := by
  induction records generalizing walk with
  | nil => rw [← Except.ok.inj walked]; rfl
  | cons entry rest ih =>
      obtain ⟨middle, stepped, walked⟩ := foldlM_cons_eq_ok.mp walked
      obtain ⟨_, _, _, _, marked⟩ := walkRecord_ok stepped
      rw [ih walked, marked, suspectFrom_eq, newestMark, newestMark, List.reverse_cons,
        List.findSome?_append, Option.or_assoc]
      cases mark : entry.1.compromiseMark <;> simp [mark]

/-- The end checks compare the head with the bound key and report the walk. -/
theorem finishWalk_verdict {records witnesses : Nat} {boundPubkeyB64 : Option String} {walk : Walk}
    {verified : VerifiedLineage}
    (finished : finishWalk env records witnesses boundPubkeyB64 walk = .ok verified) :
    (∃ last, walk.prev = some last ∧
        decodePublicBase64 env last.successorPubkeyB64 = some verified.headKey) ∧
      (∃ text ∈ boundPubkeyB64, ∃ key, decodePublicBase64 env text = some key ∧
        key.toBytes = verified.headKey.toBytes) ∧
      verified.revokedFromSeq = walk.revokedFromSeq := by
  unfold finishWalk at finished
  split at finished
  · cases finished
  split at finished
  · cases finished
  rename_i last stored
  unfold headKey at finished
  split at finished
  · rename_i key head decodedBound decodedHead
    split at finished
    · rename_i same
      obtain rfl := Except.ok.inj finished
      obtain ⟨text, present, decoded⟩ := Option.bind_eq_some_iff.mp decodedBound
      exact ⟨⟨last, stored, decodedHead⟩, ⟨text, present, key, decoded, same⟩, rfl⟩
    · cases finished
  · cases finished

/-- A genesis signs itself. -/
theorem signed_of_isGenesis {walk after : Walk} {entry : LineageRecord × Bytes}
    (genesis : entry.1.isGenesis = true) (walked : walkRecord env policy walk entry = .ok after) :
    SignedUnder env entry.1.successorPubkeyB64 entry := by
  obtain ⟨_, _, ⟨recovery, authorized⟩, _, _⟩ := walkRecord_ok walked
  simp only [LineageRecord.isGenesis, decide_eq_true_eq] at genesis
  obtain ⟨_, reason, anchored, _⟩ := genesis
  have signed := authorize_ok authorized
  rw [if_neg (by rw [reason]; decide), anchored] at signed
  exact signed

/-- An accepted lineage justifies its verdict record by record. -/
theorem verifyLineageWithRecovery_justified (env : Environment)
    (records : Slice (LineageRecord × Bytes)) (witnessHashes : List Bytes)
    (boundPubkeyB64 : Option String) (policy : Option RecoveryPolicy) (verified : VerifiedLineage)
    (accepted : verifyLineageWithRecovery env records witnessHashes boundPubkeyB64 policy =
      .ok verified) :
    HeadJustified env policy boundPubkeyB64 LineageRecord.compromiseMark records.items verified := by
  obtain ⟨first, rest, final, items, anchored, walked, finished⟩ :=
    verifyLineageWithRecovery_ok accepted
  obtain ⟨⟨last, stored, headDecoded⟩, boundDecoded, reported⟩ := finishWalk_verdict finished
  have stops := prev_of_walk walked
  rw [stored, Option.or_none] at stops
  obtain ⟨lastEntry, isLast, rfl⟩ := Option.map_eq_some_iff.mp stops.symm
  have marked := revoked_of_walk walked
  rw [Option.or_none] at marked
  have positions := positions_of_accepted accepted
  rw [items] at walked
  obtain ⟨middle, stepped, walked⟩ := foldlM_cons_eq_ok.mp walked
  obtain ⟨_, _, _, kept, _⟩ := walkRecord_ok stepped
  exact {
    positions
    genesis := ⟨first, by rw [items]; rfl, anchored, signed_of_isGenesis anchored stepped⟩
    handedOff := by rw [items]; exact handedOff_of_walk walked kept
    head := ⟨lastEntry, isLast, headDecoded⟩
    bound := boundDecoded
    revoked := reported.trans marked }

section Samples

/-- The sample rests on its own records. -/
theorem sampleLineage_justified : ∃ verified, HeadJustified sampleEnvironment none
    (some rotationRecord.successorPubkeyB64) LineageRecord.compromiseMark sampleLineage.items verified := by
  obtain ⟨verified, accepted⟩ := sampleLineage_accepted sampleWitnesses (.inl rfl)
  exact ⟨verified, verifyLineageWithRecovery_justified sampleEnvironment sampleLineage sampleWitnesses
    _ none verified accepted⟩

/-- A rotation may name a sequence although it revokes nothing. -/
def markedRecord : LineageRecord :=
  { rotationRecord with suspectedCompromiseFromSeq := some 5 }

def markedSignature : Bytes :=
  beBytes 32 0x07d0bdd1dbf7a0884a788ab15b4cc8418605f4b0096e0fd7c2ae332263210c79 ++
    beBytes 32 0x1cd487fa5f1a28383a2f932821b94b7f8512dee3d900963409ea6ed968260106

/-- The environment covers the bytes of the same genesis and the marked rotation. -/
def markedEnvironment : Environment :=
  { sampleEnvironment with
    sha256 := digestOfTable
      [(bodyOf genesisRecord, 0xfd20859153ac51d59736b9c62676557fa1c6c4c0062800b64dc1182c4e5f3fa7),
        (lineageSigningInput (bodyOf genesisRecord),
          0xd0b5ff777866ad1fc7cba90515034bd2fcd205e06a783a0c41a2060524e2c23c),
        (lineageSigningInput (bodyOf markedRecord),
          0x8847d0bedf0732936dc45df5b43ac2545ebc294c0d6f8377e3006d18de704cce)]
    fromReader := fun bytes =>
      if bytes = bodyOf genesisRecord then some (valueOf genesisRecord)
      else if bytes = bodyOf markedRecord then some (valueOf markedRecord)
      else none
    verifyingKeyFromBytes := fun key =>
      some {
        toBytes := key
        verifyStrict := fun message signature => key = aliceKey ∧
          (message = lineageSigningInput (bodyOf genesisRecord) ∧ signature.1 = genesisSignature ∨
            message = lineageSigningInput (bodyOf markedRecord) ∧ signature.1 = markedSignature) } }

def markedLineage : Slice (LineageRecord × Bytes) :=
  ⟨[(genesisRecord, genesisSignature), (markedRecord, markedSignature)], by decide⟩

def markedWitnesses : List Bytes :=
  [beBytes 32 0xd0b5ff777866ad1fc7cba90515034bd2fcd205e06a783a0c41a2060524e2c23c,
    beBytes 32 0x8847d0bedf0732936dc45df5b43ac2545ebc294c0d6f8377e3006d18de704cce]

/-- The verifier accepts the marked rotation and reports no mark. -/
theorem markedLineage_unreported :
    ∃ verified, verifyLineageWithRecovery markedEnvironment markedLineage markedWitnesses
        (some markedRecord.successorPubkeyB64) none = .ok verified ∧
      ¬ HeadJustified markedEnvironment none (some markedRecord.successorPubkeyB64)
        LineageRecord.suspectedCompromiseFromSeq markedLineage.items verified := by
  have reported : (verifyLineageWithRecovery markedEnvironment markedLineage markedWitnesses
      (some markedRecord.successorPubkeyB64) none).toOption.map VerifiedLineage.revokedFromSeq =
        some none := by
    decide +kernel
  cases outcome : verifyLineageWithRecovery markedEnvironment markedLineage markedWitnesses
      (some markedRecord.successorPubkeyB64) none with
  | error _ => rw [outcome] at reported; cases reported
  | ok verified =>
      rw [outcome] at reported
      refine ⟨verified, rfl, fun justified => ?_⟩
      have newest : verified.revokedFromSeq = some 5 := justified.revoked
      rw [Except.toOption, Option.map_some, newest] at reported
      cases reported

end Samples
end AiMemory.Lineage
