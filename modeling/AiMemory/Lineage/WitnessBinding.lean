import AiMemory.Library.Marked
import AiMemory.Lineage.Walk
import Mathlib.Data.Multiset.MapFold

/-
This file proves that one multiset of witnesses admits one lineage.
-/

namespace AiMemory.Lineage
open AiMemory.Machine AiMemory.Library

variable {env : Environment} {policy : Option RecoveryPolicy}

/-- An accepted walk consumes the witnesses of all its records. -/
theorem witnesses_of_walk {records : List (LineageRecord × Bytes)} {walk final : Walk}
    (walked : records.foldlM (walkRecord env policy) walk = .ok final) :
    walk.witnesses.map some =
      ((records.map Prod.fst).map (LineageRecord.witnessPayloadHash env) : Multiset (Option Bytes)) +
        final.witnesses.map some := by
  induction records generalizing walk with
  | nil => simp [Except.ok.inj walked]
  | cons entry rest ih =>
      obtain ⟨middle, stepped, walked⟩ := foldlM_cons_eq_ok.mp walked
      obtain ⟨hash, hashed, consumed⟩ := consumeWitness_ok (walkRecord_ok stepped).2.1
      rw [consumed, Multiset.map_cons, ih walked, List.map_cons, List.map_cons, hashed,
        ← Multiset.cons_coe, Multiset.cons_add]

/-- A finished walk has consumed every witness. -/
theorem finishWalk_ok {records witnesses : Nat} {boundPubkeyB64 : Option String} {walk : Walk}
    {verified : VerifiedLineage}
    (finished : finishWalk env records witnesses boundPubkeyB64 walk = .ok verified) :
    walk.witnesses = 0 := by
  unfold finishWalk at finished
  split at finished
  · cases finished
  · rename_i used
    simpa using used

/-- An accepted lineage is ranked by its epochs. -/
theorem ranked_of_accepted {records : Slice (LineageRecord × Bytes)} {witnessHashes : List Bytes}
    {boundPubkeyB64 : Option String} {verified : VerifiedLineage}
    (accepted : verifyLineageWithRecovery env records witnessHashes boundPubkeyB64 policy = .ok verified) :
    (records.items.map Prod.fst).Pairwise (Before fun record => record.epoch.toNat) := by
  have listed : (records.items.map fun entry => entry.1.epoch.toNat).Pairwise (· < ·) := by
    rw [positions_of_accepted accepted]
    exact List.pairwise_lt_range
  rw [List.pairwise_map] at listed ⊢
  exact listed

/-- An accepted lineage has the witnesses of its records and no others. -/
theorem witnesses_of_accepted {records : Slice (LineageRecord × Bytes)} {witnessHashes : List Bytes}
    {boundPubkeyB64 : Option String} {verified : VerifiedLineage}
    (accepted : verifyLineageWithRecovery env records witnessHashes boundPubkeyB64 policy = .ok verified) :
    (witnessHashes.map some).Perm
      ((records.items.map Prod.fst).map (LineageRecord.witnessPayloadHash env)) := by
  obtain ⟨_, _, final, _, _, walked, finished⟩ := verifyLineageWithRecovery_ok accepted
  have consumed := witnesses_of_walk walked
  rw [finishWalk_ok finished, Multiset.map_zero, Multiset.add_zero, Multiset.map_coe] at consumed
  exact Multiset.coe_eq_coe.mp consumed

/-- Two lineages that verify against the same witnesses have the same records in the same order. -/
theorem verifyLineageWithRecovery_unique (env : Environment)
    (first second : Slice (LineageRecord × Bytes)) (firstWitnesses secondWitnesses : List Bytes)
    (sameWitnesses : firstWitnesses.Perm secondWitnesses) (firstBound secondBound : Option String)
    (firstPolicy secondPolicy : Option RecoveryPolicy) (firstVerified secondVerified : VerifiedLineage)
    (firstAccepted : verifyLineageWithRecovery env first firstWitnesses firstBound firstPolicy =
      .ok firstVerified)
    (secondAccepted : verifyLineageWithRecovery env second secondWitnesses secondBound secondPolicy =
      .ok secondVerified)
    (readable : ∀ entry ∈ first.items ++ second.items, entry.1.Readable env)
    (collisionFree : CollisionFree env.sha256
      ((first.items ++ second.items).filterMap fun entry => entry.1.signingInput env)) :
    first.items.map Prod.fst = second.items.map Prod.fst := by
  have sameHashes := (witnesses_of_accepted firstAccepted).symm.trans
    ((sameWitnesses.map some).trans (witnesses_of_accepted secondAccepted))
  apply eq_of_marks (ranked_of_accepted firstAccepted) (ranked_of_accepted secondAccepted) sameHashes
  intro record present other held same
  obtain ⟨entry, entryIn, rfl⟩ := List.mem_map.mp present
  obtain ⟨otherEntry, otherIn, rfl⟩ := List.mem_map.mp held
  have entryAny := List.mem_append_left second.items entryIn
  have otherAny := List.mem_append_right first.items otherIn
  have witnessed := (witnesses_of_accepted firstAccepted).mem_iff.mpr (List.mem_map_of_mem present)
  obtain ⟨hash, _, hashed⟩ := List.mem_map.mp witnessed
  refine LineageRecord.witnessPayloadHash_inj (readable entry entryAny) (readable otherEntry otherAny)
    hashed.symm (same.symm.trans hashed.symm) collisionFree ?_
  intro record listed input signed
  rw [List.mem_filterMap]
  rcases List.mem_pair.mp listed with rfl | rfl
  · exact ⟨entry, entryAny, signed⟩
  · exact ⟨otherEntry, otherAny, signed⟩

section Samples

def cborHead (major : Nat) (argument : Nat) : Bytes :=
  if argument < 24 then [UInt8.ofNat (32 * major + argument)]
  else [UInt8.ofNat (32 * major + 24), UInt8.ofNat argument]

def cborScalar : CborValue → Bytes
  | .integer value => cborHead 0 value.toNat
  | .text value =>
      let letters := value.toUTF8.data.toList
      cborHead 3 letters.length ++ letters
  | .bytes value => cborHead 2 value.length ++ value
  | _ => [0xF6]

/-- The writer covers flat maps of short values. -/
def sampleWriter : CborValue → Option Bytes
  | .map entries =>
      some (cborHead 5 entries.length ++
        entries.flatMap fun entry => cborScalar entry.1 ++ cborScalar entry.2)
  | value => some (cborScalar value)

def aliceKey : Digest :=
  digestOf 0x79b5562e8fe654f94078b112e8a98ba7901f853ae695bed7e0e3910bad049664

def nextKey : Digest :=
  digestOf 0x43cdc023d22d5f9e107d1a0693457d35d1d10eb7d21c721192f56f5de40665d3

def genesisRecord : LineageRecord where
  agentId := "ai:alice"
  epoch := 0
  reason := .genesis
  predecessorPubkeyB64 := "ebVWLo_mVPlAeLES6KmLp5AfhTrmlb7X4OORC60ElmQ"
  successorPubkeyB64 := "ebVWLo_mVPlAeLES6KmLp5AfhTrmlb7X4OORC60ElmQ"
  recoveryPubkeyB64 := none
  notBefore := "2026-06-16T10:00:00+00:00"
  prevRecordHash := zeroPrevHash
  custodyClass := .softwareFile
  suspectedCompromiseFromSeq := none
  guardianSetId := none
  recoveryThreshold := none

def rotationRecord : LineageRecord :=
  { genesisRecord with
    epoch := 1
    reason := .rotation
    successorPubkeyB64 := "Q83AI9ItX54QfRoGk0V9NdHRDrfSHHIRkvVvXeQGZdM"
    notBefore := "2026-06-16T11:00:00+00:00"
    prevRecordHash := beBytes 32 0xfd20859153ac51d59736b9c62676557fa1c6c4c0062800b64dc1182c4e5f3fa7 }

def genesisSignature : Bytes :=
  beBytes 32 0x908a8c7840ffd381165f9d25d16dc2eb7604418be16e5f8ed9bbdd4914bc1eac ++
    beBytes 32 0x320220221ed0c740cf7c3999f0d52b5d034951c29a307d4cbf8009bc8c5cc806

def rotationSignature : Bytes :=
  beBytes 32 0xba360b65b45d01e2ab149080550094b4895dd0afc91d43e97f56a73c1dea6f01 ++
    beBytes 32 0x840ce80bec718a617d1b72e755d0326984d91c1c44769d01ed4344150b4cef02

/-- The records are written before the digests and the keys are fixed. -/
def writerOnly : Environment where
  sha256 := digestOfTable []
  intoWriter := sampleWriter
  fromReader _ := none
  urlSafeNoPadDecode _ := none
  standardDecode _ := none
  verifyingKeyFromBytes _ := none
  chrono := .ofTable []

def bodyOf (record : LineageRecord) : Bytes := (record.canonicalBytes writerOnly).getD []

def valueOf (record : LineageRecord) : CborValue :=
  canonicalCborMap writerOnly (successionEntries record.toSignable)

/-- The environment covers the bytes of one genesis and one rotation. -/
def sampleEnvironment : Environment where
  sha256 := digestOfTable
    [(bodyOf genesisRecord, 0xfd20859153ac51d59736b9c62676557fa1c6c4c0062800b64dc1182c4e5f3fa7),
      (lineageSigningInput (bodyOf genesisRecord),
        0xd0b5ff777866ad1fc7cba90515034bd2fcd205e06a783a0c41a2060524e2c23c),
      (lineageSigningInput (bodyOf rotationRecord),
        0xf957ceef39d471d74c1cbeadadfe30d2195fdeeff88c8c22837468a6cb47c694)]
  intoWriter := sampleWriter
  fromReader bytes :=
    if bytes = bodyOf genesisRecord then some (valueOf genesisRecord)
    else if bytes = bodyOf rotationRecord then some (valueOf rotationRecord)
    else none
  urlSafeNoPadDecode text :=
    if text = genesisRecord.successorPubkeyB64 then some aliceKey.1
    else if text = rotationRecord.successorPubkeyB64 then some nextKey.1
    else none
  standardDecode _ := none
  verifyingKeyFromBytes key :=
    some {
      toBytes := key
      verifyStrict message signature := key = aliceKey ∧
        (message = lineageSigningInput (bodyOf genesisRecord) ∧ signature.1 = genesisSignature ∨
          message = lineageSigningInput (bodyOf rotationRecord) ∧ signature.1 = rotationSignature) }
  chrono := .ofTable [("2026-06-16T10:00:00+00:00", 0), ("2026-06-16T11:00:00+00:00", 3600)]

def sampleLineage : Slice (LineageRecord × Bytes) :=
  ⟨[(genesisRecord, genesisSignature), (rotationRecord, rotationSignature)], by decide⟩

def sampleWitnesses : List Bytes :=
  [beBytes 32 0xd0b5ff777866ad1fc7cba90515034bd2fcd205e06a783a0c41a2060524e2c23c,
    beBytes 32 0xf957ceef39d471d74c1cbeadadfe30d2195fdeeff88c8c22837468a6cb47c694]

/-- The verifier accepts the sample in either order of its witnesses. -/
theorem sampleLineage_accepted (witnesses : List Bytes)
    (either : witnesses = sampleWitnesses ∨ witnesses = sampleWitnesses.reverse) :
    ∃ verified, verifyLineageWithRecovery sampleEnvironment sampleLineage witnesses
      (some rotationRecord.successorPubkeyB64) none = .ok verified := by
  have accepted : (verifyLineageWithRecovery sampleEnvironment sampleLineage witnesses
      (some rotationRecord.successorPubkeyB64) none).isOk = true := by
    rcases either with rfl | rfl <;> decide +kernel
  cases outcome : verifyLineageWithRecovery sampleEnvironment sampleLineage witnesses
      (some rotationRecord.successorPubkeyB64) none with
  | error _ => simp [outcome, Except.isOk, Except.toBool] at accepted
  | ok verified => exact ⟨verified, rfl⟩

theorem sampleEnvironment_intoWriter : sampleEnvironment.intoWriter = writerOnly.intoWriter := rfl

theorem sampleEnvironment_fromReader (bytes : Bytes) :
    sampleEnvironment.fromReader bytes =
      if bytes = bodyOf genesisRecord then some (valueOf genesisRecord)
      else if bytes = bodyOf rotationRecord then some (valueOf rotationRecord)
      else none := rfl

/-- The writer of the sample environment is the one that fixed the bytes. -/
theorem bodyOf_eq {record : LineageRecord} {written : Bytes}
    (encoded : record.canonicalBytes sampleEnvironment = some written) : bodyOf record = written := by
  rw [record.canonicalBytes_congr sampleEnvironment_intoWriter] at encoded
  rw [bodyOf, encoded, Option.getD_some]

theorem genesisRecord_readable : genesisRecord.Readable sampleEnvironment := by
  intro written encoded
  rw [sampleEnvironment_fromReader, bodyOf_eq encoded, if_pos rfl, valueOf,
    canonicalCborMap_congr sampleEnvironment_intoWriter]

theorem rotationRecord_readable : rotationRecord.Readable sampleEnvironment := by
  have different : bodyOf rotationRecord ≠ bodyOf genesisRecord := by decide +kernel
  intro written encoded
  rw [sampleEnvironment_fromReader, ← bodyOf_eq encoded, if_neg different, if_pos rfl, valueOf,
    canonicalCborMap_congr sampleEnvironment_intoWriter]

theorem sampleLineage_readable : ∀ entry ∈ sampleLineage.items ++ sampleLineage.items,
    entry.1.Readable sampleEnvironment := by
  intro entry present
  simp only [sampleLineage, List.cons_append, List.nil_append, List.mem_cons, List.not_mem_nil,
    or_false] at present
  rcases present with rfl | rfl | rfl | rfl
  · exact genesisRecord_readable
  · exact rotationRecord_readable
  · exact genesisRecord_readable
  · exact rotationRecord_readable

/-- The witnesses of the sample in either order admit only the records of the sample. -/
theorem sampleLineage_unique :
    sampleLineage.items.map Prod.fst = [genesisRecord, rotationRecord] := by
  obtain ⟨firstVerified, firstAccepted⟩ := sampleLineage_accepted sampleWitnesses (.inl rfl)
  obtain ⟨secondVerified, secondAccepted⟩ := sampleLineage_accepted sampleWitnesses.reverse (.inr rfl)
  exact verifyLineageWithRecovery_unique sampleEnvironment sampleLineage sampleLineage sampleWitnesses
    sampleWitnesses.reverse (List.reverse_perm _).symm _ _ none none firstVerified secondVerified
    firstAccepted secondAccepted sampleLineage_readable (by decide +kernel)

end Samples
end AiMemory.Lineage
