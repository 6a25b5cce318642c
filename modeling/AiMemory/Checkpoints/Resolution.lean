import AiMemory.Library.Table
import AiMemory.Lineage.Record

/-
This file embeds the checkpoints store and its resolutions.
-/

namespace AiMemory.Checkpoints
open AiMemory.Machine AiMemory.Library AiMemory.Lineage

inductive CheckpointState where
  | pending
  | resolved
  | rejected
  | expired
  deriving DecidableEq

namespace CheckpointState

def asStr : CheckpointState → String
  | .pending => "pending"
  | .resolved => "resolved"
  | .rejected => "rejected"
  | .expired => "expired"

def fromStr (text : String) : Option CheckpointState :=
  if text = "pending" then some .pending
  else if text = "resolved" then some .resolved
  else if text = "rejected" then some .rejected
  else if text = "expired" then some .expired
  else none

/-- An unknown text reads as the default state. -/
def read (text : String) : CheckpointState := (fromStr text).getD .pending

@[simp] theorem read_asStr (state : CheckpointState) : read state.asStr = state := by
  cases state <;> decide

end CheckpointState

/-- The table stores the state as a text, and the model reads it. The condition and the metadata are
the JSON texts of their columns. -/
structure CheckpointOf (State : Type) where
  id : String
  «namespace» : String
  title : String
  conditionType : String
  condition : String
  state : State
  createdBy : String
  resolvedBy : Option String
  resolution : Option String
  resolutionNote : Option String
  signature : Bytes
  resolverPubkey : Bytes
  createdAt : Int
  deadlineAt : Option Int
  resolvedAt : Option Int
  metadata : String
  deriving DecidableEq

def CheckpointOf.mapState {State Other : Type} (convert : State → Other) (row : CheckpointOf State) :
    CheckpointOf Other where
  id := row.id
  «namespace» := row.namespace
  title := row.title
  conditionType := row.conditionType
  condition := row.condition
  state := convert row.state
  createdBy := row.createdBy
  resolvedBy := row.resolvedBy
  resolution := row.resolution
  resolutionNote := row.resolutionNote
  signature := row.signature
  resolverPubkey := row.resolverPubkey
  createdAt := row.createdAt
  deadlineAt := row.deadlineAt
  resolvedAt := row.resolvedAt
  metadata := row.metadata

abbrev CheckpointRow := CheckpointOf String

abbrev Checkpoint := CheckpointOf CheckpointState

abbrev CheckpointTable := Table (@CheckpointOf.id String)

def rowToCheckpoint : CheckpointRow → Checkpoint := CheckpointOf.mapState CheckpointState.read

def Checkpoint.toRow : Checkpoint → CheckpointRow := CheckpointOf.mapState CheckpointState.asStr

/-- The verdict of a resolution, who gave it and when. -/
structure ResolutionTuple where
  state : CheckpointState
  resolvedBy : Option String
  resolution : Option String
  resolvedAt : Option Int
  deriving DecidableEq

def Checkpoint.tuple (cp : Checkpoint) : ResolutionTuple :=
  ⟨cp.state, cp.resolvedBy, cp.resolution, cp.resolvedAt⟩

/-- The fields that a resolution signature commits to. -/
structure SignableCheckpointResolution where
  checkpointId : String
  «namespace» : String
  state : String
  resolvedBy : String
  resolution : Option String
  resolvedAt : Int

def resolutionSignable (cp : Checkpoint) : SignableCheckpointResolution where
  checkpointId := cp.id
  «namespace» := cp.namespace
  state := cp.state.asStr
  resolvedBy := cp.resolvedBy.getD ""
  resolution := cp.resolution
  resolvedAt := cp.resolvedAt.getD 0

/-- A pair without a private key only verifies. -/
structure AgentKeypair where
  agentId : String
  publicKey : Digest
  privateKey : Option (Bytes → SignatureBytes)

section Signing

variable (env : Environment)

def canonicalCborCheckpointResolution (resolution : SignableCheckpointResolution) : Option Bytes :=
  env.intoWriter (canonicalCborMap env
    [("checkpoint_id", .text resolution.checkpointId), ("namespace", .text resolution.namespace),
      ("state", .text resolution.state), ("resolved_by", .text resolution.resolvedBy),
      ("resolution", textOrNull resolution.resolution), ("resolved_at", .integer resolution.resolvedAt)])

def signCheckpointResolution (keypair : AgentKeypair) (resolution : SignableCheckpointResolution) :
    Option Bytes := do
  let sign ← keypair.privateKey
  let bytes ← canonicalCborCheckpointResolution env resolution
  return (sign bytes).1

def verifyCheckpointResolution (signable : SignableCheckpointResolution) (signature : Bytes)
    (resolverPubkey : Bytes) : Bool :=
  let decoded := if exact : resolverPubkey.length = 32 then
    env.verifyingKeyFromBytes ⟨resolverPubkey, exact⟩ else none
  match decoded, tryFromSlice signature, canonicalCborCheckpointResolution env signable with
  | some key, some sig, some payload => key.verifyStrict payload sig
  | _, _, _ => false

/-- A checkpoint without a signature or without a key is unattested. -/
def verify (cp : Checkpoint) : Bool :=
  if cp.signature = [] ∨ cp.resolverPubkey = [] then false
  else verifyCheckpointResolution env (resolutionSignable cp) cp.signature cp.resolverPubkey

end Signing

def get (table : CheckpointTable) (id : String) : Option Checkpoint :=
  (table.lookup id).map rowToCheckpoint

inductive StoreError where
  | constraint
  | signFailed

/-- The primary key refuses a second row with the id. -/
def insert (table : CheckpointTable) (cp : Checkpoint) : CheckpointTable × Except StoreError String :=
  if (table.lookup cp.id).isSome then (table, .error .constraint)
  else (table.upsert cp.toRow, .ok cp.id)

/-- The columns that a resolution writes; the signature is not one of them. -/
def CheckpointRow.resolved (row : CheckpointRow) (tuple : ResolutionTuple)
    (note : Option String) : CheckpointRow :=
  { row with
    state := tuple.state.asStr
    resolvedBy := tuple.resolvedBy
    resolution := tuple.resolution
    resolutionNote := note
    resolvedAt := tuple.resolvedAt }

/-- The columns that a signature writes. -/
def CheckpointRow.signed (row : CheckpointRow) (signature resolverPubkey : Bytes) : CheckpointRow :=
  { row with signature, resolverPubkey }

theorem CheckpointRow.id_resolved (tuple : ResolutionTuple) (note : Option String) (row : CheckpointRow) :
    (row.resolved tuple note).id = row.id := rfl

theorem CheckpointRow.id_signed (signature resolverPubkey : Bytes) (row : CheckpointRow) :
    (row.signed signature resolverPubkey).id = row.id := rfl

/-- One statement changes the row with the id. -/
def updateRow (table : CheckpointTable) (id : String) (change : CheckpointRow → CheckpointRow)
    (keeps : ∀ row, (change row).id = row.id) : CheckpointTable :=
  table.modify (fun row => row.id = id) change keeps

structure Resolution where
  id : String
  state : CheckpointState
  resolvedBy : String
  resolution : Option String
  resolutionNote : Option String
  resolvedAt : Int
  keypair : Option AgentKeypair

def Resolution.tuple (call : Resolution) : ResolutionTuple :=
  ⟨call.state, some call.resolvedBy, call.resolution, some call.resolvedAt⟩

def resolve (env : Environment) (table : CheckpointTable) (call : Resolution) :
    CheckpointTable × Except StoreError (Option Checkpoint) :=
  -- The update selects the row by its id alone, whatever its state is.
  let resolved := updateRow table call.id (fun row => row.resolved call.tuple call.resolutionNote)
    (CheckpointRow.id_resolved call.tuple call.resolutionNote)
  match get resolved call.id with
  | none => (resolved, .ok none)
  | some cp =>
      match call.keypair with
      | some keypair =>
          if keypair.privateKey.isSome then
            match signCheckpointResolution env keypair (resolutionSignable cp) with
            | none => (resolved, .error .signFailed)
            | some signature =>
                (updateRow resolved call.id (fun row => row.signed signature keypair.publicKey.1)
                    (CheckpointRow.id_signed signature keypair.publicKey.1),
                  .ok (some { cp with signature, resolverPubkey := keypair.publicKey.1 }))
          else (resolved, .ok (some cp))
      | none => (resolved, .ok (some cp))

inductive InboundResolutionOutcome where
  | applied
  | noop
  | conflict
  deriving DecidableEq

def resolutionsMatch (stored incoming : Checkpoint) : Bool :=
  stored.state = incoming.state ∧ stored.resolvedBy = incoming.resolvedBy ∧
    stored.resolution = incoming.resolution

def applyInboundResolution (table : CheckpointTable) (incoming : Checkpoint) :
    CheckpointTable × InboundResolutionOutcome :=
  match get table incoming.id with
  | none => (table.upsert incoming.toRow, .applied)
  | some stored =>
      if stored.state = .pending then
        (updateRow table incoming.id
          (fun row => (row.resolved incoming.tuple incoming.resolutionNote).signed incoming.signature
            incoming.resolverPubkey)
          (fun row => (CheckpointRow.id_signed _ _ _).trans (row.id_resolved _ _)), .applied)
      else if resolutionsMatch stored incoming then (table, .noop)
      else (table, .conflict)

end AiMemory.Checkpoints
