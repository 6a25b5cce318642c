import AiMemory.Capability.Token
import AiMemory.Checkpoints.Resolution
import AiMemory.Crdt.Json
import AiMemory.ForensicLog.Directory

/-
This file embeds the witness checkpoints of the chain heads and the log that anchors them off the table.
-/

namespace AiMemory.Witness
open AiMemory.Capability (SigningKey)
open AiMemory.Checkpoints AiMemory.Crdt AiMemory.ForensicLog AiMemory.Lineage AiMemory.Machine

structure WitnessHeadWire where
  headSequence : Int
  headHash : String
  deriving DecidableEq

structure RollbackWire where
  value : Int
  source : String
  deriving DecidableEq

structure WitnessResolutionWire where
  v : Int
  signedEvents : WitnessHeadWire
  memoryRevisions : WitnessHeadWire
  rollback : Option RollbackWire
  deriving DecidableEq

structure WitnessDualHead where
  signedHeadSequence : Int
  signedHeadHash : String
  revisionsHeadSequence : Int
  revisionsHeadHash : String
  deriving DecidableEq

structure SanctionedRestoreWire where
  dst : String
  v : Int
  oldHead : Int
  newHead : Int
  gap : Int
  timestamp : Int
  deriving DecidableEq

/-- The serializer writes the wire shapes and reads them back. -/
structure Serde where
  resolutionToString : WitnessResolutionWire → String
  resolutionFromStr : String → Option WitnessResolutionWire
  checkpointToString : Checkpoint → String
  checkpointFromStr : String → Option Checkpoint
  valueToString : Json → String
  valueFromStr : String → Option Json
  sanctionToValue : SanctionedRestoreWire → Json
  sanctionFromValue : Json → Option SanctionedRestoreWire
  sanctionToVec : SanctionedRestoreWire → Bytes

structure Environment where
  checkpoints : Lineage.Environment
  serde : Serde

def witnessResolutionVersion : Int := 1

def witnessResolutionVersionV2 : Int := 2

def auditHeadWitness : String := "audit_head_witness"

def rollbackSourceWitnessLog : String := "witness-head-anchor-log"

def rollbackCounterFor (signedHeadSequence : Int) : RollbackWire :=
  ⟨signedHeadSequence, rollbackSourceWitnessLog⟩

variable (env : Environment)

section Checkpoint

def witnessResolutionWire (dual : WitnessDualHead) (rollback : Option RollbackWire) :
    WitnessResolutionWire where
  v := if rollback.isSome then witnessResolutionVersionV2 else witnessResolutionVersion
  signedEvents := ⟨dual.signedHeadSequence, dual.signedHeadHash⟩
  memoryRevisions := ⟨dual.revisionsHeadSequence, dual.revisionsHeadHash⟩
  rollback := rollback

/-- Another version of the resolution is not understood. -/
def parseWitnessDualHead (cp : Checkpoint) : Option WitnessDualHead :=
  if cp.conditionType ≠ auditHeadWitness then none
  else
    (cp.resolution.bind env.serde.resolutionFromStr).bind fun wire =>
      if wire.v ≠ witnessResolutionVersion ∧ wire.v ≠ witnessResolutionVersionV2 then none
      else
        some ⟨wire.signedEvents.headSequence, wire.signedEvents.headHash,
          wire.memoryRevisions.headSequence, wire.memoryRevisions.headHash⟩

def signResolutionInto (cp : Checkpoint) (keypair : AgentKeypair) : Option Checkpoint :=
  (signCheckpointResolution env.checkpoints keypair (resolutionSignable cp)).map fun signature =>
    { cp with signature := signature, resolverPubkey := keypair.publicKey.1 }

/-- The witness resolves its own checkpoint when it writes it. -/
def unsignedWitnessCheckpoint (id : String) (dual : WitnessDualHead) (rollback : Option RollbackWire)
    (now : Int) : Checkpoint where
  id := id
  «namespace» := "_audit_witness"
  title := "audit head witness"
  conditionType := auditHeadWitness
  condition := "null"
  state := .resolved
  createdBy := "audit:witness"
  resolvedBy := some "audit:witness"
  resolution := some (env.serde.resolutionToString (witnessResolutionWire dual rollback))
  resolutionNote := none
  signature := []
  resolverPubkey := []
  createdAt := now
  deadlineAt := none
  resolvedAt := some now
  metadata := "null"

def buildSignedWitnessCheckpoint (id : String) (dual : WitnessDualHead) (rollback : Option RollbackWire)
    (now : Int) (keypair : AgentKeypair) : Option Checkpoint :=
  signResolutionInto env (unsignedWitnessCheckpoint env id dual rollback now) keypair

end Checkpoint

section Log

/-- The file is created with its first line. -/
def appendLine (log : Option (List Line)) (line : String) : Option (List Line) :=
  some (log.getD [] ++ [some line])

def appendHeadAnchor (log : Option (List Line)) (cp : Checkpoint) : Option (List Line) :=
  appendLine log (env.serde.checkpointToString cp)

/-- A line counts when the enrolled key signed it and it binds a head. -/
def anchorSequence (enrolled : VerifyingKey) (line : Line) : Option Int :=
  line.bind fun text =>
    if blank text then none
    else
      (env.serde.checkpointFromStr text).bind fun cp =>
        if cp.resolverPubkey ≠ enrolled.toBytes.1 then none
        else if !verify env.checkpoints cp then none
        else (parseWitnessDualHead env cp).map WitnessDualHead.signedHeadSequence

def raise (high : Option Int) (sequence : Option Int) : Option Int :=
  sequence.elim high fun seq => some (high.elim seq fun mark => max mark seq)

/-- Without a key or a log there is no anchor. -/
def readHeadAnchorHighWater (enrolled : Option VerifyingKey) (log : Option (List Line)) : Option Int :=
  enrolled.bind fun key => log.bind fun lines =>
    lines.foldl (fun high line => raise high (anchorSequence env key line)) none

/-- The raised mark is the highest one of the lines. -/
theorem foldl_raise (sequenceOf : Line → Option Int) (lines : List Line) (high : Option Int) :
    lines.foldl (fun high line => raise high (sequenceOf line)) high =
      Option.merge max high (lines.filterMap sequenceOf).max? := by
  induction lines generalizing high with
  | nil => simp
  | cons line rest ih =>
      rw [List.foldl_cons, ih]
      cases read : sequenceOf line with
      | none => simp [raise, read]
      | some sequence =>
          rw [List.filterMap_cons_some read, List.max?_cons]
          cases high <;> cases (rest.filterMap sequenceOf).max? <;> simp [raise, max_assoc]

/-- The mark is the greatest head that an accepted line of the log binds. -/
theorem readHeadAnchorHighWater_eq (key : VerifyingKey) (log : Option (List Line)) :
    readHeadAnchorHighWater env (some key) log =
      ((log.getD []).filterMap (anchorSequence env key)).max? := by
  cases log with
  | none => rfl
  | some lines =>
      show lines.foldl (fun high line => raise high (anchorSequence env key line)) none = _
      rw [foldl_raise]
      simp

end Log

section Signed

variable {env} {cp signed : Checkpoint}

/-- The pair of a key that can sign. -/
def keypairOf (agentId : String) (key : SigningKey) : AgentKeypair :=
  ⟨agentId, key.verifyingKey.toBytes, some key.sign⟩

/-- The signature goes into two columns that it does not commit to. -/
theorem signResolutionInto_eq_some {keypair : AgentKeypair} :
    signResolutionInto env cp keypair = some signed ↔
      ∃ sign ∈ keypair.privateKey,
        ∃ bytes ∈ canonicalCborCheckpointResolution env.checkpoints (resolutionSignable cp),
          { cp with signature := (sign bytes).1, resolverPubkey := keypair.publicKey.1 } = signed := by
  simp only [signResolutionInto, signCheckpointResolution, Option.map_eq_some_iff, Option.bind_eq_bind,
    Option.bind_eq_some_iff, Option.mem_def, Option.pure_def, Option.some.injEq]
  constructor
  · rintro ⟨_, ⟨sign, able, bytes, encoded, rfl⟩, rfl⟩
    exact ⟨sign, able, bytes, encoded, rfl⟩
  · rintro ⟨sign, able, bytes, encoded, rfl⟩
    exact ⟨_, ⟨sign, able, bytes, encoded, rfl⟩, rfl⟩

/-- A resolution verifies under the key that signed it. -/
theorem verify_signed {agentId : String} {key : SigningKey}
    (decodes : env.checkpoints.verifyingKeyFromBytes key.verifyingKey.toBytes = some key.verifyingKey)
    (done : signResolutionInto env cp (keypairOf agentId key) = some signed) :
    verify env.checkpoints signed = true := by
  obtain ⟨sign, able, bytes, encoded, rfl⟩ := signResolutionInto_eq_some.mp done
  obtain rfl : key.sign = sign := Option.some.inj able
  have long : (key.sign bytes).1 ≠ [] := by
    intro empty
    have size := (key.sign bytes).2
    simp [empty] at size
  have wide : key.verifyingKey.toBytes.1 ≠ [] := by
    intro empty
    have size := key.verifyingKey.toBytes.2
    simp [empty] at size
  have slice : tryFromSlice (key.sign bytes).1 = some (key.sign bytes) := by
    simp [tryFromSlice, (key.sign bytes).2]
  have payload : canonicalCborCheckpointResolution env.checkpoints (resolutionSignable
      { cp with signature := (key.sign bytes).1, resolverPubkey := key.verifyingKey.toBytes.1 }) =
        some bytes := encoded
  have size : key.verifyingKey.toBytes.1.length = 32 := key.verifyingKey.toBytes.2
  simp only [verify, keypairOf, long, wide, or_self, if_false, verifyCheckpointResolution, size, dif_pos,
    decodes, slice, payload]
  exact key.verifies bytes

/-- The line of a checkpoint reads back as the checkpoint and its resolution. -/
structure CheckpointReads (env : Environment) (cp : Checkpoint) (wire : WitnessResolutionWire) : Prop where
  checkpoint : env.serde.checkpointFromStr (env.serde.checkpointToString cp) = some cp
  resolution : env.serde.resolutionFromStr (env.serde.resolutionToString wire) = some wire
  text : blank (env.serde.checkpointToString cp) = false

/-- A line that the enrolled witness wrote binds the head that it signed. -/
theorem anchorSequence_signed {agentId id : String} {key : SigningKey} {dual : WitnessDualHead}
    {rollback : Option RollbackWire} {now : Int}
    (decodes : env.checkpoints.verifyingKeyFromBytes key.verifyingKey.toBytes = some key.verifyingKey)
    (done : buildSignedWitnessCheckpoint env id dual rollback now (keypairOf agentId key) = some signed)
    (reads : CheckpointReads env signed (witnessResolutionWire dual rollback)) :
    anchorSequence env key.verifyingKey (some (env.serde.checkpointToString signed)) =
      some dual.signedHeadSequence := by
  have verified := verify_signed decodes done
  obtain ⟨sign, able, bytes, encoded, same⟩ := signResolutionInto_eq_some.mp done
  have signer : signed.resolverPubkey = key.verifyingKey.toBytes.1 := same ▸ rfl
  have kind : signed.conditionType = auditHeadWitness := same ▸ rfl
  have bound : signed.resolution =
      some (env.serde.resolutionToString (witnessResolutionWire dual rollback)) := same ▸ rfl
  have version : (witnessResolutionWire dual rollback).v = witnessResolutionVersion ∨
      (witnessResolutionWire dual rollback).v = witnessResolutionVersionV2 := by
    unfold witnessResolutionWire
    cases rollback <;> simp
  have parsed : parseWitnessDualHead env signed = some dual := by
    simp only [parseWitnessDualHead, kind, bound, Option.bind_some, reads.resolution, ne_eq,
      not_true_eq_false, if_false]
    rw [if_neg fun neither => version.elim neither.1 neither.2]
    rfl
  simp only [anchorSequence, Option.bind_some, reads.text, reads.checkpoint, signer, verified, parsed, ne_eq,
    not_true_eq_false, if_false, Bool.not_true, Bool.false_eq_true, Option.map_some]

end Signed
end AiMemory.Witness
