import AiMemory.AuditTrail.Report
import AiMemory.SignedEvents.Tamper
import AiMemory.Witness.Rollback

/-
This file proves what a clean report says about the rows that the witness saw.
-/

namespace AiMemory.AuditTrail
open AiMemory.Checkpoints AiMemory.ForensicLog AiMemory.Library AiMemory.Machine AiMemory.SignedEvents
  AiMemory.Witness

section Numbers

variable {sha256 : Bytes → Digest} {rows : List EventRow}

theorem toInt_positive {sequence : Int64} : 0 < sequence ↔ 0 < sequence.toInt := by
  rw [Int64.lt_iff_toInt_lt]
  rfl

/-- The selected rows of a chain are fewer than the sequences. -/
theorem selected_short (chained : Chained sha256 (selectAbove rows 0)) :
    (selectAbove rows 0).length < 2 ^ 63 := by
  by_contra many
  have listed := sequences_of_chained sha256 chained
  have wraps : Int64.ofNat (2 ^ 63) ∈ (selectAbove rows 0).map (·.sequence) := by
    rw [listed]
    exact List.mem_map_of_mem (List.mem_range'_1.mpr ⟨by omega, by omega⟩)
  obtain ⟨event, selected, same⟩ := List.mem_map.mp wraps
  have positive := (mem_selectAbove.mp selected).2
  rw [same] at positive
  exact absurd positive (by decide)

/-- The selected rows of a chain are numbered from 1 without a gap. -/
theorem exists_selected_iff (chained : Chained sha256 (selectAbove rows 0)) (number : Int) :
    (∃ event ∈ selectAbove rows 0, event.sequence.toInt = number) ↔
      1 ≤ number ∧ number ≤ (selectAbove rows 0).length := by
  have short := selected_short chained
  have listed := sequences_of_chained sha256 chained
  have member : (∃ event ∈ selectAbove rows 0, event.sequence.toInt = number) ↔
      ∃ place ∈ List.range' 1 (selectAbove rows 0).length, (Int64.ofNat place).toInt = number := by
    have both := congrArg (fun numbers => ∃ sequence ∈ numbers, sequence.toInt = number) listed
    simpa using both
  rw [member]
  constructor
  · rintro ⟨place, between, rfl⟩
    obtain ⟨low, high⟩ := List.mem_range'_1.mp between
    rw [Int64.toInt_ofNat_of_lt (by omega)]
    omega
  · rintro ⟨low, high⟩
    refine ⟨number.toNat, List.mem_range'_1.mpr ⟨by omega, by omega⟩, ?_⟩
    rw [Int64.toInt_ofNat_of_lt (by omega)]
    omega

/-- No two selected rows of a chain have one sequence. -/
theorem selected_unique (chained : Chained sha256 (selectAbove rows 0)) {first second : SignedEvent}
    (firstHeld : first ∈ selectAbove rows 0) (secondHeld : second ∈ selectAbove rows 0)
    (same : first.sequence = second.sequence) : first = second := by
  have ascending := chained.ascending (selected_short chained)
  have distinct : ((selectAbove rows 0).map (·.sequence)).Nodup :=
    List.pairwise_map.mpr (ascending.imp Int64.ne_of_lt)
  exact List.inj_on_of_nodup_map distinct firstHeld secondHeld same

/-- The head of the table is the last number of the chain, unless no row has a positive sequence. -/
theorem headSequence_le_length (chained : Chained sha256 (selectAbove rows 0)) :
    headSequence rows ≤ (selectAbove rows 0).length := by
  unfold headSequence
  cases read : ((sequencesOf rows).map Int64.toInt).max? with
  | none => exact Int.natCast_nonneg _
  | some head =>
      rw [Option.getD_some]
      by_cases positive : 0 < head
      · obtain ⟨sequence, held, rfl⟩ := List.mem_map.mp (List.max?_eq_some_iff.mp read).1
        obtain ⟨row, stored, numbered⟩ := List.mem_filterMap.mp held
        have carried : row.toEvent.sequence = sequence := by simp [EventRow.toEvent, numbered]
        have selected : row.toEvent ∈ selectAbove rows 0 :=
          mem_selectAbove.mpr ⟨⟨row, stored, rfl⟩, carried ▸ toInt_positive.mpr positive⟩
        exact ((exists_selected_iff chained sequence.toInt).mp ⟨_, selected, by rw [carried]⟩).2
      · omega

end Numbers

variable (env : Witness.Environment) (host : Host) (db : Database) (since : Option String)

/-- The witness of the table binds a head that survives. In a report on the whole table every sequence up to
that head has one row, and each row names the hash of the one before. Only a row that still has the anchored
hash is known to read as the row that the witness saw. -/
structure WitnessedLength (cp : Checkpoint) (dual : WitnessDualHead) : Prop where
  latest : readLatestWitnessCheckpoint db.checkpoints = some cp
  pinned : ∃ enrolled, host.mount.witnessKey = some enrolled ∧ cp.resolverPubkey = enrolled.toBytes.1
  verified : verify env.checkpoints cp = true
  binds : parseWitnessDualHead env cp = some dual
  survives : dual.signedHeadSequence ≤ headSequence db.signedEvents
  linked : since = none → Chained env.checkpoints.sha256 (selectAbove db.signedEvents 0)
  present : since = none → ∀ number, 1 ≤ number → number ≤ dual.signedHeadSequence →
    ∃! event, event ∈ selectAbove db.signedEvents 0 ∧ event.sequence.toInt = number
  content : ∀ original,
    hexEncode (env.checkpoints.sha256 (canonicalChainBytes original)).1 = dual.signedHeadHash →
    ∀ event ∈ selectAbove db.signedEvents 0, event.sequence.toInt = dual.signedHeadSequence →
      CollisionFree env.checkpoints.sha256 [canonicalChainBytes original, canonicalChainBytes event] →
        (event.committed = original.committed ↔
          hexEncode (env.checkpoints.sha256 (canonicalChainBytes event)).1 = dual.signedHeadHash)

/-- A clean report whose witness raises no alarm anchors the length of the trail. -/
theorem clean_witnessed (clean : (verifyAuditTrail env host db since).isClean = true)
    (passed : (verifyAuditTrail env host db since).witness = .notDetected) :
    ∃ cp dual, WitnessedLength env host db since cp dual := by
  obtain ⟨cp, dual, enrolled, latest, key, pinned, verified, binds, survives, _⟩ :=
    computeWitnessVerdict_notDetected passed
  have intact := AuditTrailReport.chainIntact_of_isClean clean
  have linked : since = none → Chained env.checkpoints.sha256 (selectAbove db.signedEvents 0) := by
    rintro rfl
    exact (verifyChain_clean_iff env.checkpoints.sha256 host.daemonVerifier host.roles.recorder
      db.signedEvents).mp (Option.isNone_iff_eq_none.mp intact)
  refine ⟨cp, dual, latest, ⟨enrolled, key, pinned⟩, verified, binds, survives, linked, ?_, ?_⟩
  · intro whole number low high
    have chained := linked whole
    have within : number ≤ (selectAbove db.signedEvents 0).length :=
      high.trans (survives.trans (headSequence_le_length chained))
    obtain ⟨event, held, numbered⟩ := (exists_selected_iff chained number).mpr ⟨low, within⟩
    refine ⟨event, ⟨held, numbered⟩, ?_⟩
    rintro other ⟨otherHeld, otherNumbered⟩
    exact selected_unique chained otherHeld held (Int64.toInt_inj.mp (otherNumbered.trans numbered.symm))
  · intro original anchored event _ _ collisionFree
    constructor
    · intro same
      rw [canonicalChainBytes_inj.mpr same, anchored]
    · intro hashed
      have digests := Subtype.ext (hexEncode_injective (hashed.trans anchored.symm))
      exact canonicalChainBytes_inj.mp (collisionFree _ (by simp) _ (by simp) digests)

section Samples

def otherPayload : Blob := ⟨[2], by decide⟩

def rewrittenEvent (id : Text) (sequence : Int64) : SignedEvent :=
  { SignedEvent.base id alice sequence with payloadHash := otherPayload }

def rewrittenHash : Nat := 0x131a9da4cba11737a5f562ab710e256006206671501873133689afcaf480126b

/-- Both rows have another payload, and the link between them is recomputed. -/
def rewrittenRows : List EventRow :=
  [{ rewrittenEvent firstId 1 with prevHash := some (Blob.ofDigest zeroHash), sequence := some 1 },
    { rewrittenEvent secondId 2 with
      prevHash := some (Blob.ofDigest (digestOf rewrittenHash)), sequence := some 2 }]

def trailSha256 : Bytes → Digest :=
  digestOfTable
    [(canonicalChainBytes (SignedEvent.base firstId alice 1),
        0x71b39f45009272a81ce7e0a01ba702fa40e2594b9ee369622fc2526d7546f929),
      (canonicalChainBytes (SignedEvent.base secondId alice 2),
        0x2e108f6808cb84a2ca0adda0b9d18a14ba5d3b54f033228e4597af008f99226d),
      (canonicalChainBytes (rewrittenEvent firstId 1), rewrittenHash),
      (canonicalChainBytes (rewrittenEvent secondId 2),
        0xa67aa6a6423f656aefffc9dfaafb737881124fae11955d0fe8ac7100b02fe543)]

def trailRows : List EventRow := run (appendStep trailSha256) [] sampleCalls

def trailDual : WitnessDualHead where
  signedHeadSequence := 2
  signedHeadHash := "2e108f6808cb84a2ca0adda0b9d18a14ba5d3b54f033228e4597af008f99226d"
  revisionsHeadSequence := 0
  revisionsHeadHash := chainHeadPrevHash

def trailWire : WitnessResolutionWire := witnessResolutionWire trailDual (some (rollbackCounterFor 2))

def trailSignature : SignatureBytes :=
  ⟨beBytes 32 0xfded778f0f92664cd98337c993d05d091a6f8486570a15cc5d81a3623e8c70a5 ++
    beBytes 32 0xa0af976cc2ff4c4e9b6eb559243e30ccd36c7a540ca751e1d9af69de3414c80d, by decide⟩

def trailWitness : Checkpoint :=
  { unsignedWitnessCheckpoint writing "0198a1de-0000-4000-8000-000000000003" trailDual
      (some (rollbackCounterFor 2)) 1800000300 with
    signature := trailSignature.1
    resolverPubkey := Lineage.aliceKey.1 }

def trailKey : VerifyingKey where
  toBytes := Lineage.aliceKey
  verifyStrict message signature :=
    some message = canonicalCborCheckpointResolution writing.checkpoints (resolutionSignable trailWitness) ∧
      signature = trailSignature

def trailEnvironment : Witness.Environment where
  checkpoints := { writing.checkpoints with
    sha256 := trailSha256
    verifyingKeyFromBytes := fun key => if key = Lineage.aliceKey then some trailKey else none }
  serde := { writing.serde with
    resolutionFromStr := fun text => if text = resolutionText trailWire then some trailWire else none }

def trailHost : Host where
  daemonVerifier := none
  roles := ⟨none, none, none⟩
  mount := ⟨some trailKey, none, false, none, none⟩
  lastAuditWatermark := none
  requireWitness := true
  requireCauseBinding := false
  requireRoleSeparation := false
  requireIdentityLineage := false

def rewrittenDatabase : Database := ⟨rewrittenRows, [trailWitness], 0, []⟩

theorem rewritten_clean :
    (verifyAuditTrail trailEnvironment trailHost rewrittenDatabase none).isClean = true ∧
      (verifyAuditTrail trailEnvironment trailHost rewrittenDatabase none).witness = .notDetected := by
  decide +kernel

theorem trailWitness_binds : parseWitnessDualHead trailEnvironment trailWitness = some trailDual := by
  show (if resolutionText trailWire = resolutionText trailWire then some trailWire else none).bind _ = _
  rw [if_pos rfl]
  rfl

/-- The report on the rewritten rows is clean although the last row has lost the anchored hash. -/
theorem rewrittenTrail_passes :
    (Reachable trailSha256 trailRows ∧
      (readChainHead trailSha256 trailRows).toOption.map (fun head => hexEncode head.2.1) =
        some trailDual.signedHeadHash) ∧
      (readLatestWitnessCheckpoint rewrittenDatabase.checkpoints = some trailWitness ∧
        parseWitnessDualHead trailEnvironment trailWitness = some trailDual) ∧
      CollisionFree trailSha256 ((trailRows ++ rewrittenRows).map EventRow.canonical) ∧
      ((verifyAuditTrail trailEnvironment trailHost rewrittenDatabase none).isClean = true ∧
        (verifyAuditTrail trailEnvironment trailHost rewrittenDatabase none).witness = .notDetected) ∧
      ∀ event ∈ selectAbove rewrittenRows 0, event.sequence.toInt = trailDual.signedHeadSequence →
        hexEncode (trailSha256 (canonicalChainBytes event)).1 ≠ trailDual.signedHeadHash := by
  refine ⟨⟨⟨sampleCalls, rfl⟩, ?_⟩, ⟨rfl, trailWitness_binds⟩, ?_, rewritten_clean, ?_⟩
  · decide +kernel
  · decide +kernel
  · decide +kernel

/-- The witness still anchors how many rows there are. -/
theorem rewrittenTrail_witnessed :
    ∃ cp dual, WitnessedLength trailEnvironment trailHost rewrittenDatabase none cp dual :=
  clean_witnessed trailEnvironment trailHost rewrittenDatabase none rewritten_clean.1 rewritten_clean.2

end Samples
end AiMemory.AuditTrail
