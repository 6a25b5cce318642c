import AiMemory.Lineage.Walk
import AiMemory.Lineage.WitnessBinding

/-
This file embeds the constructors of the lineage records and proves which minted chains the verifier accepts.
-/

namespace AiMemory.Lineage
open AiMemory.Library AiMemory.Machine

section Constructors

namespace LineageRecord

def genesis (agentId k0PubB64 : String) (recoveryPubkeyB64 : Option String) (notBefore : String) :
    LineageRecord where
  agentId
  epoch := 0
  reason := .genesis
  predecessorPubkeyB64 := k0PubB64
  successorPubkeyB64 := k0PubB64
  recoveryPubkeyB64
  notBefore
  prevRecordHash := zeroPrevHash
  custodyClass := .softwareFile
  suspectedCompromiseFromSeq := none
  guardianSetId := none
  recoveryThreshold := none

/-- A time whose text sorts before the time of the previous record gives way to it. -/
def clampNotBefore (prev : LineageRecord) (notBefore : String) : String :=
  if notBefore < prev.notBefore then prev.notBefore else notBefore

variable (env : Environment)

/-- Both kinds of handoff link to the bytes of the previous record. -/
def handoff (reason : LineageReason) (suspectedCompromiseFromSeq : Option UInt64) (prev : LineageRecord)
    (successorPubkeyB64 : String) (recoveryPubkeyB64 : Option String) (notBefore : String) :
    Option LineageRecord :=
  (prev.recordHash env).map fun prevRecordHash =>
    { agentId := prev.agentId
      epoch := prev.epoch + 1
      reason
      predecessorPubkeyB64 := prev.successorPubkeyB64
      successorPubkeyB64
      recoveryPubkeyB64
      notBefore := prev.clampNotBefore notBefore
      prevRecordHash := prevRecordHash.1
      custodyClass := .softwareFile
      suspectedCompromiseFromSeq
      guardianSetId := none
      recoveryThreshold := none }

def rotation (prev : LineageRecord) (successorPubkeyB64 : String) (recoveryPubkeyB64 : Option String)
    (notBefore : String) : Option LineageRecord :=
  handoff env .rotation none prev successorPubkeyB64 recoveryPubkeyB64 notBefore

def revocation (prev : LineageRecord) (successorPubkeyB64 : String) (suspectedCompromiseFromSeq : UInt64)
    (recoveryPubkeyB64 : Option String) (notBefore : String) : Option LineageRecord :=
  handoff env .revocation (some suspectedCompromiseFromSeq) prev successorPubkeyB64 recoveryPubkeyB64 notBefore

end LineageRecord

inductive MintCall where
  | rotation (successorPubkeyB64 : String) (recoveryPubkeyB64 : Option String) (notBefore : String)
  | revocation (successorPubkeyB64 : String) (suspectedCompromiseFromSeq : UInt64)
      (recoveryPubkeyB64 : Option String) (notBefore : String)

def MintCall.notBefore : MintCall → String
  | rotation _ _ notBefore => notBefore
  | revocation _ _ _ notBefore => notBefore

variable (env : Environment)

def mint (prev : LineageRecord) : MintCall → Option LineageRecord
  | .rotation successor recovery notBefore => prev.rotation env successor recovery notBefore
  | .revocation successor seq recovery notBefore => prev.revocation env successor seq recovery notBefore

/-- Each call succeeds the record of the call before it. -/
def mintAll (prev : LineageRecord) : List MintCall → Option (List LineageRecord)
  | [] => some []
  | call :: rest => (mint env prev call).bind fun record => (mintAll record rest).map (record :: ·)

def verifyLineage (records : Slice (LineageRecord × Bytes)) (witnessHashes : List Bytes)
    (boundPubkeyB64 : Option String) : Except LineageError VerifiedLineage :=
  verifyLineageWithRecovery env records witnessHashes boundPubkeyB64 none

end Constructors

section Stored

variable (env : Environment)

/-- The signature of the record verifies under its predecessor key. -/
def SignedByPredecessor (entry : LineageRecord × Bytes) : Prop :=
  ∃ key ∈ decodePublicBase64 env entry.1.predecessorPubkeyB64, ∃ signature ∈ tryFromSlice entry.2,
    ∃ input ∈ entry.1.signingInput env, key.verifyStrict input signature = true

instance (entry : LineageRecord × Bytes) : Decidable (SignedByPredecessor env entry) :=
  inferInstanceAs (Decidable (∃ _ ∈ decodePublicBase64 _ _, ∃ _ ∈ tryFromSlice _, ∃ _ ∈ _, _))

/-- The rows hold the records with their signatures, and each record has its witness. -/
structure Recorded (records : List LineageRecord) (entries : List (LineageRecord × Bytes))
    (witnessHashes : List Bytes) : Prop where
  rows : entries.map Prod.fst = records
  signed : ∀ entry ∈ entries, SignedByPredecessor env entry
  witnessed : witnessHashes.Perm (records.filterMap fun record => record.witnessPayloadHash env)

/-- A time whose text does not sort before the previous one is not the earlier instant. -/
def InOrder (earlier notBefore : String) : Prop :=
  ¬ notBefore < earlier → ∀ first ∈ env.chrono.parseFromRfc3339 earlier,
    ∀ second ∈ env.chrono.parseFromRfc3339 notBefore, env.chrono.later first second = false

instance (earlier notBefore : String) : Decidable (InOrder env earlier notBefore) :=
  inferInstanceAs (Decidable (_ → ∀ _ ∈ _, ∀ _ ∈ _, _))

/-- Every call is in order after the record that it succeeds. -/
def TimesKept (prev : LineageRecord) : List MintCall → Prop
  | [] => True
  | call :: rest => InOrder env prev.notBefore call.notBefore ∧
      ∀ record ∈ mint env prev call, TimesKept record rest

end Stored

section Steps

variable {env : Environment} {prev record : LineageRecord} {call : MintCall}

/-- What both constructors take over from the previous record. -/
structure HandedOff (env : Environment) (prev record : LineageRecord) (notBefore : String) : Prop where
  epoch : record.epoch = prev.epoch + 1
  reason : record.reason = .rotation ∨ record.reason = .revocation
  predecessor : record.predecessorPubkeyB64 = prev.successorPubkeyB64
  clamped : record.notBefore = prev.clampNotBefore notBefore
  linked : ∃ hash, prev.recordHash env = some hash ∧ record.prevRecordHash = hash.1

/-- A minted record is handed off at the time of its call. -/
theorem handedOff_of_mint (minted : mint env prev call = some record) :
    HandedOff env prev record call.notBefore := by
  cases call with
  | rotation successor recovery notBefore =>
      obtain ⟨hash, hashed, rfl⟩ := Option.map_eq_some_iff.mp minted
      exact ⟨rfl, .inl rfl, rfl, rfl, hash, hashed, rfl⟩
  | revocation successor seq recovery notBefore =>
      obtain ⟨hash, hashed, rfl⟩ := Option.map_eq_some_iff.mp minted
      exact ⟨rfl, .inr rfl, rfl, rfl, hash, hashed, rfl⟩

/-- A minted record passes every check against its predecessor but the one of the times. -/
theorem checkSuccession_minted {notBefore : String} (handed : HandedOff env prev record notBefore) :
    checkSuccession env none prev record = checkTime env prev record := by
  obtain ⟨hash, hashed, same⟩ := handed.linked
  have linked : checkLink env prev record = .ok () := by
    rw [checkLink, hashed]
    exact if_neg (not_not.mpr same)
  have named : checkPredecessor none prev record = .ok () := by
    rcases handed.reason with reason | reason <;> simp [checkPredecessor, reason, handed.predecessor]
  rw [checkSuccession, linked, named, if_neg (not_not.mpr handed.epoch)]
  cases checkTime env prev record <;> rfl

/-- The time of a record is one of the two texts that it was minted from. -/
theorem parses_clamped {notBefore : String} (handed : HandedOff env prev record notBefore)
    (prevParses : (env.chrono.parseFromRfc3339 prev.notBefore).isSome)
    (parses : (env.chrono.parseFromRfc3339 notBefore).isSome) :
    (env.chrono.parseFromRfc3339 record.notBefore).isSome := by
  rw [handed.clamped, LineageRecord.clampNotBefore]
  split
  · exact prevParses
  · exact parses

/-- The clamp on the texts serves the check on the instants exactly when the two are in order. -/
theorem checkTime_minted {notBefore : String} (handed : HandedOff env prev record notBefore)
    (irreflexive : ∀ instant, env.chrono.later instant instant = false)
    (prevParses : (env.chrono.parseFromRfc3339 prev.notBefore).isSome)
    (parses : (env.chrono.parseFromRfc3339 notBefore).isSome) :
    checkTime env prev record = .ok () ↔ InOrder env prev.notBefore notBefore := by
  obtain ⟨first, firstRead⟩ := Option.isSome_iff_exists.mp prevParses
  obtain ⟨second, secondRead⟩ := Option.isSome_iff_exists.mp parses
  rw [checkTime, handed.clamped, LineageRecord.clampNotBefore, InOrder, firstRead, secondRead]
  by_cases sorts : notBefore < prev.notBefore
  · rw [if_pos sorts, firstRead]
    simp only [irreflexive, Bool.false_eq_true, if_false]
    exact iff_of_true trivial fun above => absurd sorts above
  · rw [if_neg sorts, secondRead]
    cases after : env.chrono.later first second <;> simp [sorts, after]

/-- A signed record is authorized without a recovery policy. -/
theorem authorize_signed {entry : LineageRecord × Bytes} (signed : SignedByPredecessor env entry)
    (ordinary : entry.1.reason ≠ .recovery) : authorize env none entry.1 entry.2 = .ok none := by
  obtain ⟨key, decoded, signature, sliced, input, written, accepts⟩ := signed
  have verified : verifySuccession env entry.1 entry.2 key = .ok () := by
    rw [verifySuccession, Option.mem_def.mp sliced, Option.mem_def.mp written]
    exact if_pos accepts
  rw [authorize]
  cases reason : entry.1.reason with
  | recovery => exact absurd reason ordinary
  | genesis | rotation | revocation =>
      simp only [Option.mem_def.mp decoded, verified]
      rfl

/-- A signed record has its witness hash. -/
theorem exists_witnessHash {entry : LineageRecord × Bytes} (signed : SignedByPredecessor env entry) :
    ∃ hash, entry.1.witnessPayloadHash env = some hash := by
  obtain ⟨_, _, _, _, input, written, _⟩ := signed
  exact ⟨_, by rw [LineageRecord.witnessPayloadHash, Option.mem_def.mp written, Option.map_some]⟩

end Steps

section Runs

variable {env : Environment}

/-- What is left of a minted chain: its witnesses wait, and its last record ends the walk. -/
structure Ends (walk : Walk) (last : LineageRecord) : Prop where
  spent : walk.witnesses = 0
  prev : walk.prev = some last

/-- A signed record whose witness waits passes the step when it passes the check against its predecessor. -/
theorem walkRecord_signed {walk : Walk} {entry : LineageRecord × Bytes} {hashes : Multiset Bytes} {hash : Bytes}
    (signed : SignedByPredecessor env entry) (ordinary : entry.1.reason ≠ .recovery)
    (hashed : entry.1.witnessPayloadHash env = some hash) (waits : walk.witnesses = hash ::ₘ hashes)
    (checked : walk.checkPrev env none entry.1 = .ok ()) :
    ∃ next, walkRecord env none walk entry = .ok next ∧ next.witnesses = hashes ∧ next.prev = some entry.1 := by
  have consumed : consumeWitness env walk.witnesses entry.1 = .ok hashes := by
    rw [consumeWitness, hashed, waits]
    simp
  have authorized := authorize_signed signed ordinary
  exact ⟨⟨hashes, some entry.1, walk.suspectFrom entry.1, walk.recoveredAtEpoch,
      walk.recoveryGuardianSetDrift || false⟩,
    bind_eq_ok.mpr ⟨(), checked, bind_eq_ok.mpr ⟨hashes, consumed, bind_eq_ok.mpr ⟨none, authorized, rfl⟩⟩⟩, rfl, rfl⟩

/-- A record that passes the step spends its own witness. -/
theorem walkRecord_spends {walk next : Walk} {entry : LineageRecord × Bytes} {hashes : Multiset Bytes} {hash : Bytes}
    (hashed : entry.1.witnessPayloadHash env = some hash) (waits : walk.witnesses = hash ::ₘ hashes)
    (stepped : walkRecord env none walk entry = .ok next) :
    walk.checkPrev env none entry.1 = .ok () ∧ next.witnesses = hashes ∧ next.prev = some entry.1 := by
  obtain ⟨checked, consumed, _, kept, _⟩ := walkRecord_ok stepped
  obtain ⟨other, same, before⟩ := consumeWitness_ok consumed
  obtain rfl := Option.some.inj (hashed.symm.trans same)
  exact ⟨checked, ((Multiset.cons_inj_right hash).mp (waits.symm.trans before)).symm, kept⟩

/-- The walk over the minted records ends at the last one exactly when their times are kept. -/
theorem walk_minted (irreflexive : ∀ instant, env.chrono.later instant instant = false)
    {calls : List MintCall} {prev : LineageRecord} {tail : List LineageRecord}
    (minted : mintAll env prev calls = some tail)
    (prevParses : (env.chrono.parseFromRfc3339 prev.notBefore).isSome)
    (parses : ∀ call ∈ calls, (env.chrono.parseFromRfc3339 call.notBefore).isSome)
    {entries : List (LineageRecord × Bytes)} (rows : entries.map Prod.fst = tail)
    (signed : ∀ entry ∈ entries, SignedByPredecessor env entry) {walk : Walk}
    (waits : walk.witnesses = (tail.filterMap fun record => record.witnessPayloadHash env : List Bytes))
    (stored : walk.prev = some prev) :
    (TimesKept env prev calls →
        ∃ final, entries.foldlM (walkRecord env none) walk = .ok final ∧ Ends final (tail.getLastD prev)) ∧
      ∀ final, entries.foldlM (walkRecord env none) walk = .ok final → TimesKept env prev calls := by
  induction calls generalizing prev tail entries walk with
  | nil =>
      obtain rfl := Option.some.inj minted
      obtain rfl := List.map_eq_nil_iff.mp rows
      exact ⟨fun _ => ⟨walk, rfl, waits, stored⟩, fun _ _ => trivial⟩
  | cons call calls ih =>
      obtain ⟨record, first, later⟩ := Option.bind_eq_some_iff.mp minted
      obtain ⟨rest, onward, rfl⟩ := Option.map_eq_some_iff.mp later
      obtain ⟨entry, entries, rfl, rfl, restRows⟩ := List.map_eq_cons_iff.mp rows
      have handed := handedOff_of_mint first
      have callParses := parses call List.mem_cons_self
      have signedHere := signed entry List.mem_cons_self
      have ordinary : entry.1.reason ≠ .recovery := by
        rcases handed.reason with reason | reason <;> rw [reason] <;> decide
      obtain ⟨hash, hashed⟩ := exists_witnessHash signedHere
      rw [List.filterMap_cons_some hashed, ← Multiset.cons_coe] at waits
      have timed := checkTime_minted handed irreflexive prevParses callParses
      have checks : walk.checkPrev env none entry.1 = checkTime env prev entry.1 := by
        rw [Walk.checkPrev, stored]
        exact checkSuccession_minted handed
      have next (walk : Walk) (spent : walk.witnesses =
            (rest.filterMap fun record => record.witnessPayloadHash env : List Bytes))
          (prevStored : walk.prev = some entry.1) :=
        ih onward (parses_clamped handed prevParses callParses)
          (fun call listed => parses call (List.mem_cons_of_mem _ listed)) restRows
          (fun entry listed => signed entry (List.mem_cons_of_mem _ listed)) spent prevStored
      have last : (entry.1 :: rest).getLastD prev = rest.getLastD entry.1 := by cases rest <;> rfl
      rw [last]
      constructor
      · rintro ⟨here, behind⟩
        obtain ⟨middle, stepped, spent, kept⟩ :=
          walkRecord_signed signedHere ordinary hashed waits (checks.trans (timed.mpr here))
        obtain ⟨final, walked, ends⟩ := (next middle spent kept).1 (behind entry.1 first)
        exact ⟨final, foldlM_cons_eq_ok.mpr ⟨middle, stepped, walked⟩, ends⟩
      · intro final walked
        obtain ⟨middle, stepped, walked⟩ := foldlM_cons_eq_ok.mp walked
        obtain ⟨checked, spent, kept⟩ := walkRecord_spends hashed waits stepped
        refine ⟨timed.mp (checks.symm.trans checked), fun other same => ?_⟩
        obtain rfl := Option.some.inj (first.symm.trans same)
        exact (next middle spent kept).2 final walked

/-- The genesis is a genesis record. -/
theorem isGenesis_genesis (agentId k0PubB64 : String) (recoveryPubkeyB64 : Option String) (notBefore : String) :
    (LineageRecord.genesis agentId k0PubB64 recoveryPubkeyB64 notBefore).isGenesis = true := by
  simp [LineageRecord.isGenesis, LineageRecord.genesis]

variable (env) (agentId k0PubB64 : String) (recoveryPubkeyB64 : Option String) (notBefore : String)
  (calls : List MintCall) (tail : List LineageRecord) (entries : Slice (LineageRecord × Bytes))
  (witnessHashes : List Bytes)

/-- The verifier accepts a minted chain exactly when no call brings an earlier instant under a later text. -/
theorem verifyLineage_minted_iff (irreflexive : ∀ instant, env.chrono.later instant instant = false)
    (parses : ∀ text ∈ notBefore :: calls.map MintCall.notBefore, (env.chrono.parseFromRfc3339 text).isSome)
    (minted : mintAll env (.genesis agentId k0PubB64 recoveryPubkeyB64 notBefore) calls = some tail)
    (recorded : Recorded env (.genesis agentId k0PubB64 recoveryPubkeyB64 notBefore :: tail) entries.items
      witnessHashes)
    (bound : (decodePublicBase64 env (tail.getLastD
      (.genesis agentId k0PubB64 recoveryPubkeyB64 notBefore)).successorPubkeyB64).isSome) :
    (∃ verified, verifyLineage env entries witnessHashes (some (tail.getLastD
        (.genesis agentId k0PubB64 recoveryPubkeyB64 notBefore)).successorPubkeyB64) = .ok verified) ↔
      TimesKept env (.genesis agentId k0PubB64 recoveryPubkeyB64 notBefore) calls := by
  obtain ⟨items, short⟩ := entries
  obtain ⟨rows, signed, witnessed⟩ := recorded
  obtain ⟨entry, rest, rfl, first, restRows⟩ := List.map_eq_cons_iff.mp rows
  have signedHere := signed entry List.mem_cons_self
  have anchored : entry.1.isGenesis = true := first ▸ isGenesis_genesis _ _ _ _
  have ordinary : entry.1.reason ≠ .recovery := by
    rw [first]
    exact LineageReason.noConfusion
  obtain ⟨hash, hashed⟩ := exists_witnessHash signedHere
  rw [← first, List.filterMap_cons_some hashed] at witnessed
  have waits : (witnessHashes : Multiset Bytes) =
      hash ::ₘ (tail.filterMap fun record => record.witnessPayloadHash env : List Bytes) :=
    Multiset.coe_eq_coe.mpr witnessed
  obtain ⟨middle, stepped, spent, kept⟩ := @walkRecord_signed env ⟨witnessHashes, none, none, none, false⟩ entry _ _
    signedHere ordinary hashed waits rfl
  rw [first] at kept
  have walk := walk_minted irreflexive minted (parses notBefore List.mem_cons_self)
    (fun call listed => parses _ (List.mem_cons_of_mem _ (List.mem_map_of_mem listed))) restRows
    (fun entry listed => signed entry (List.mem_cons_of_mem _ listed)) spent kept
  constructor
  · rintro ⟨verified, accepted⟩
    obtain ⟨_, _, final, split, _, walked, _⟩ := verifyLineageWithRecovery_ok accepted
    obtain ⟨same, onward, walked⟩ := foldlM_cons_eq_ok.mp walked
    obtain rfl := Except.ok.inj (stepped.symm.trans onward)
    exact walk.2 final walked
  · intro times
    obtain ⟨final, walked, ends⟩ := walk.1 times
    obtain ⟨key, decoded⟩ := Option.isSome_iff_exists.mp bound
    have all : (entry :: rest).foldlM (walkRecord env none) ⟨witnessHashes, none, none, none, false⟩ = .ok final :=
      foldlM_cons_eq_ok.mpr ⟨middle, stepped, walked⟩
    have named : headKey env (tail.getLastD (.genesis agentId k0PubB64 recoveryPubkeyB64 notBefore))
        (some (tail.getLastD (.genesis agentId k0PubB64 recoveryPubkeyB64 notBefore)).successorPubkeyB64) =
        .ok key := by
      rw [headKey, Option.bind_some, decoded]
      exact if_pos rfl
    rw [verifyLineage, verifyLineageWithRecovery]
    simp only [anchored, if_true]
    rw [all]
    show ∃ verified, finishWalk env _ _ _ final = .ok verified
    simp only [finishWalk, ends.spent, ends.prev, named, Multiset.card_zero, gt_iff_lt, Nat.lt_irrefl, if_false]
    exact ⟨_, rfl⟩

end Runs

section Samples

/-- The rotation of the sample is minted an hour after its genesis. -/
def sampleCall : MintCall := .rotation rotationRecord.successorPubkeyB64 none rotationRecord.notBefore

theorem sampleLineage_recorded :
    Recorded sampleEnvironment [genesisRecord, rotationRecord] sampleLineage.items sampleWitnesses := by
  have signed : ∀ entry ∈ sampleLineage.items, SignedByPredecessor sampleEnvironment entry := by decide +kernel
  have hashes : [genesisRecord, rotationRecord].filterMap
      (fun record => record.witnessPayloadHash sampleEnvironment) = sampleWitnesses := by decide +kernel
  exact ⟨rfl, signed, hashes ▸ List.Perm.refl _⟩

theorem ofTable_later_self (table : List (String × Int)) (instant : Int) :
    (Chrono.ofTable table).later instant instant = false := decide_eq_false (Int.lt_irrefl instant)

theorem sampleEnvironment_later (instant : sampleEnvironment.chrono.Instant) :
    sampleEnvironment.chrono.later instant instant = false := ofTable_later_self _ instant

/-- The minted sample is accepted. -/
theorem sampleLineage_minted :
    mintAll sampleEnvironment genesisRecord [sampleCall] = some [rotationRecord] ∧
      ∃ verified, verifyLineage sampleEnvironment sampleLineage sampleWitnesses
        (some rotationRecord.successorPubkeyB64) = .ok verified :=
  have minted : mintAll sampleEnvironment genesisRecord [sampleCall] = some [rotationRecord] := by decide +kernel
  ⟨minted, (verifyLineage_minted_iff sampleEnvironment genesisRecord.agentId genesisRecord.predecessorPubkeyB64 none
    genesisRecord.notBefore [sampleCall] [rotationRecord] sampleLineage sampleWitnesses sampleEnvironment_later
    (by decide +kernel) minted sampleLineage_recorded (by decide +kernel)).mpr
    ⟨by decide +kernel, fun _ _ => trivial⟩⟩

/-- The rotation names eleven o'clock two hours east, which is nine o'clock at the meridian. -/
def easternRecord : LineageRecord :=
  { rotationRecord with notBefore := "2026-06-16T11:00:00+02:00" }

def easternCall : MintCall := .rotation rotationRecord.successorPubkeyB64 none easternRecord.notBefore

def easternSignature : Bytes :=
  beBytes 32 0x3b9a49d70d868782ca7ac7ee36661909910ad7c79d6b6e42a626e50e6e6f19c0 ++
    beBytes 32 0x7e600ca29b4ffb35356766cf62c72291f7e7bf6f2895b2416088b9ca0da8e00c

/-- The environment covers the bytes of the same genesis and the eastern rotation. -/
def easternEnvironment : Environment :=
  { sampleEnvironment with
    sha256 := digestOfTable
      [(bodyOf genesisRecord, 0xfd20859153ac51d59736b9c62676557fa1c6c4c0062800b64dc1182c4e5f3fa7),
        (lineageSigningInput (bodyOf genesisRecord),
          0xd0b5ff777866ad1fc7cba90515034bd2fcd205e06a783a0c41a2060524e2c23c),
        (lineageSigningInput (bodyOf easternRecord),
          0xae2177182a2a481a79cf74435044cd9c2919295055af9749468a2bb464246e38)]
    verifyingKeyFromBytes := fun key =>
      some {
        toBytes := key
        verifyStrict := fun message signature => key = aliceKey ∧
          (message = lineageSigningInput (bodyOf genesisRecord) ∧ signature.1 = genesisSignature ∨
            message = lineageSigningInput (bodyOf easternRecord) ∧ signature.1 = easternSignature) }
    chrono := .ofTable [("2026-06-16T10:00:00+00:00", 3600), ("2026-06-16T11:00:00+02:00", 0)] }

def easternLineage : Slice (LineageRecord × Bytes) :=
  ⟨[(genesisRecord, genesisSignature), (easternRecord, easternSignature)], by decide⟩

def easternWitnesses : List Bytes :=
  [beBytes 32 0xd0b5ff777866ad1fc7cba90515034bd2fcd205e06a783a0c41a2060524e2c23c,
    beBytes 32 0xae2177182a2a481a79cf74435044cd9c2919295055af9749468a2bb464246e38]

/-- The eastern text sorts after the genesis, so the clamp keeps an instant that the verifier rejects. -/
theorem easternLineage_rejected :
    mintAll easternEnvironment genesisRecord [easternCall] = some [easternRecord] ∧
      Recorded easternEnvironment [genesisRecord, easternRecord] easternLineage.items easternWitnesses ∧
      (easternEnvironment.chrono.parseFromRfc3339 easternRecord.notBefore).isSome ∧
      (verifyLineage easternEnvironment easternLineage easternWitnesses
        (some easternRecord.successorPubkeyB64)).map VerifiedLineage.epoch = .error (.nonMonotonicTime 1) ∧
      ¬ ∃ verified, verifyLineage easternEnvironment easternLineage easternWitnesses
        (some easternRecord.successorPubkeyB64) = .ok verified := by
  have signed : ∀ entry ∈ easternLineage.items, SignedByPredecessor easternEnvironment entry := by decide +kernel
  have hashes : [genesisRecord, easternRecord].filterMap
      (fun record => record.witnessPayloadHash easternEnvironment) = easternWitnesses := by decide +kernel
  have rejected : (verifyLineage easternEnvironment easternLineage easternWitnesses
      (some easternRecord.successorPubkeyB64)).map VerifiedLineage.epoch = .error (.nonMonotonicTime 1) := by
    decide +kernel
  refine ⟨by decide +kernel, ⟨rfl, signed, hashes ▸ List.Perm.refl _⟩, by decide +kernel, rejected, ?_⟩
  rintro ⟨verified, accepted⟩
  rw [accepted] at rejected
  cases rejected

end Samples
end AiMemory.Lineage
