import AiMemory.Encryption.Envelope
import AiMemory.Storage.TitleCollision
import AiMemory.Storage.Update

/-
This file embeds the writers of a database whose contents are encrypted at rest.
-/

namespace AiMemory.Storage
open AiMemory.Crdt AiMemory.Encryption AiMemory.Library AiMemory.Machine

structure SealingEnvironment extends WriterEnvironment where
  primitives : Primitives

/-- The rows hold their columns as they are stored, and the envelopes stand beside them. No call reads the last
written contents. -/
structure SealedDatabase extends Database where
  envelopes : String → Option Bytes
  lastWritten : String → String

inductive SealedError where
  | storage (error : StorageError)
  | encryption (error : EncryptionError)
  deriving DecidableEq, Repr

/-- The content column and the envelope of one statement. -/
structure Placed where
  content : String
  encryptedEnvelope : Option Bytes

def agentIdOf (metadata : Json) : String := ((metadata.get "agent_id").bind Json.asStr).getD ""

section Read

variable (env : SealingEnvironment) (db : SealedDatabase)

/-- A row with an envelope is read from its envelope under the agent of its own metadata. -/
def readContent (row : Memory) : Except EncryptionError String :=
  match db.envelopes row.id with
  | some envelope => openContent env.primitives envelope (agentIdOf row.metadata)
  | none => .ok row.content

def rowToMemory (row : Memory) : Except EncryptionError Memory :=
  (readContent env db row).map fun content => { row with content }

end Read

section Write

variable (env : SealingEnvironment) (db : SealedDatabase) (coins : SealingCoins)

/-- The content is sealed to the agent that the metadata names. -/
def sealFor (content : String) (metadata : Json) : Except SealedError Placed :=
  ((sealContent env.primitives coins content (agentIdOf metadata)).mapError .encryption).map fun sealed =>
    ⟨(sealed.map Prod.snd).getD content, sealed.map Prod.fst⟩

/-- The statement wrote the row of one identifier together with its envelope. -/
def SealedDatabase.land (db : SealedDatabase) (written : Store) (id : String) (placed : Placed) (content : String) :
    SealedDatabase :=
  { db with
    toStore := written
    envelopes := Function.update db.envelopes id placed.encryptedEnvelope
    lastWritten := Function.update db.lastWritten id content }

variable (row : Memory) (now : env.chrono.Instant)

def insertSealed : Except SealedError SealedDatabase := do
  (gateStorageConn db.toStore).mapError .storage
  (consultGovernancePreWrite env.toEnvironment row).mapError .storage
  let bound := boundRow env.toEnvironment now row
  let placed ← sealFor env coins bound.content bound.metadata
  let (written, id) ← (upsertStoreMerge db.toStore
    { localRow env.toWriterEnvironment row now with content := placed.content }).mapError .storage
  .ok (db.land written id placed bound.content)

/-- The error policy seals the row as it is. -/
def insertWithConflictSealed (mode : ConflictMode) : Except SealedError SealedDatabase := do
  (gateStorageConn db.toStore).mapError .storage
  match mode with
  | .merge => insertSealed env db coins row now
  | .error =>
      (consultGovernancePreWrite env.toEnvironment row).mapError .storage
      match findByTitleNamespace db.toStore row.title row.namespace with
      | some existingId => .error (.storage (.conflict existingId row.title row.namespace))
      | none =>
          let placed ← sealFor env coins row.content row.metadata
          let (written, id) ← (plainInsert db.toStore
            { row with
              content := placed.content
              expiresAt := effectiveExpiresAt env.chrono now row
              cid := some (env.stampMemoryCid row)
              version := 1 }
            (.conflict "" row.title row.namespace)).mapError .storage
          .ok (db.land written id placed row.content)
  | .version =>
      let title ← (nextVersionedTitle db.toStore row.title row.namespace).mapError .storage
      insertSealed env db coins { row with title := title } now

/-- The envelope goes with the content under the same tiebreak. -/
def landNewer (written : Store) (id : String) (placed : Placed) (bound : Memory) : SealedDatabase :=
  match db.memories.findSlot (slotOf bound) with
  | some existing =>
      if excludedWins existing bound then db.land written id placed bound.content
      else { db with toStore := written }
  | none => db.land written id placed bound.content

def insertIfNewerSealed : Except SealedError SealedDatabase := do
  (gateStorageConn db.toStore).mapError .storage
  (consultGovernancePreWrite env.toEnvironment row).mapError .storage
  if row.id ∈ db.forgetTombstones then .ok db
  else
    let bound := boundRow env.toEnvironment now row
    let placed ← sealFor env coins bound.content bound.metadata
    let (written, id) ← (upsertNewerWins db.toStore { bound with content := placed.content }).mapError
      fun error => .storage (.write error)
    .ok (landNewer db written id placed bound)

/-- The merge reads the content of the stored row and seals the merged content. -/
def mergeInboundSealed (skewSecs : Int) : Except SealedError SealedDatabase :=
  match db.memories.find row.id with
  | none => insertIfNewerSealed env db coins row now
  | some stored => do
      let existing ← (rowToMemory env db stored).mapError .encryption
      let prepared := prepareInbound env.chrono row (env.chrono.toRfc3339 now) skewSecs
      let merged := mergeMemory existing prepared
      let placed ← sealFor env coins merged.content merged.metadata
      let written ← (overwriteFullRowById env.toEnvironment db.toStore
        { merged with content := placed.content } now).mapError fun error => .storage (.write error)
      .ok (db.land written merged.id placed merged.content)

end Write

section Change

variable (env : SealingEnvironment) (db : SealedDatabase) (id : String) (now : env.chrono.Instant)

/-- The statement writes the sealed columns over the row that it finds. -/
def commitSealed (patch : Patch) (existing stored : Memory) (placed : Placed) : Except SealedError SealedDatabase :=
  let governed := governedRow patch existing
  let written := { updatedRow patch governed stored (env.chrono.toRfc3339 now) with content := placed.content }
  let archived :=
    if contentChanged governed existing then
      archiveRow db.archivedMemories stored "in_place_edit" (env.chrono.toRfc3339 now)
    else db.archivedMemories
  match checkConstraints written with
  | some _ => .error (.storage (constraintError db.toStore id written))
  | none =>
      if noClash : ∀ other ∈ db.memories.findSlot (slotOf written), other.id = written.id then
        .ok (db.land
          { db.toStore with
            memories := db.memories.replace written noClash
            archivedMemories := archived } id placed governed.content)
      else .error (.storage (constraintError db.toStore id written))

variable {env db id now} in
/-- A commit lands the sealed content in the row that it replaces. -/
theorem commitSealed_eq_ok {patch : Patch} {existing stored : Memory} {placed : Placed} {written : SealedDatabase}
    (ok : commitSealed env db id now patch existing stored placed = .ok written) :
    let governed := governedRow patch existing
    let row := { updatedRow patch governed stored (env.chrono.toRfc3339 now) with content := placed.content }
    ∃ noClash : ∀ other ∈ db.memories.findSlot (slotOf row), other.id = row.id,
      written = db.land
        { db.toStore with
          memories := db.memories.replace row noClash
          archivedMemories :=
            if contentChanged governed existing then
              archiveRow db.archivedMemories stored "in_place_edit" (env.chrono.toRfc3339 now)
            else db.archivedMemories } id placed governed.content := by
  unfold commitSealed at ok
  dsimp only at ok
  split at ok
  · contradiction
  · split at ok
    · rename_i noClash
      exact ⟨noClash, (Except.ok.inj ok).symm⟩
    · contradiction

/-- A row that cannot be read is not updated. -/
def updateSealed (patch : Patch) (expectedVersion : Option Int) (coins : SealingCoins) :
    Except SealedError SealedDatabase := do
  (gateStorageConn db.toStore).mapError .storage
  match db.memories.find id with
  | none => .ok db
  | some stored =>
      match rowToMemory env db stored with
      | .error _ => .ok db
      | .ok existing =>
          match expectedVersion.filter fun expected => existing.version ≠ expected with
          | some expected => .error (.storage (.versionConflict id expected existing.version))
          | none =>
              let governed := governedRow patch existing
              (consultGovernancePreWrite env.toEnvironment governed).mapError .storage
              let placed ← sealFor env coins governed.content governed.metadata
              commitSealed env db id now patch existing stored placed

/-- The marks leave the content and its envelope. -/
def conserveSealed (loserId winnerId : String) : Except SealedError SealedDatabase :=
  match db.memories.find loserId with
  | none => .ok db
  | some stored => do
      let _ ← (rowToMemory env db stored).mapError .encryption
      let conserved ←
        (conserveContradiction env.toWriterEnvironment db.toDatabase loserId winnerId now).mapError .storage
      .ok { db with toDatabase := conserved }

end Change

/-- The calls that write the contents of one database. -/
inductive SealedCall (env : SealingEnvironment) where
  | insert (row : Memory) (now : env.chrono.Instant) (coins : SealingCoins)
  | insertWithConflict (row : Memory) (mode : ConflictMode) (now : env.chrono.Instant) (coins : SealingCoins)
  | insertIfNewer (row : Memory) (now : env.chrono.Instant) (coins : SealingCoins)
  | mergeInbound (row : Memory) (now : env.chrono.Instant) (skewSecs : Int) (coins : SealingCoins)
  | update (id : String) (patch : Patch) (expectedVersion : Option Int) (now : env.chrono.Instant)
      (coins : SealingCoins)
  | conserveContradiction (loserId winnerId : String) (now : env.chrono.Instant)

section Run

variable (env : SealingEnvironment)

def SealedCall.answer (db : SealedDatabase) : SealedCall env → Except SealedError SealedDatabase
  | .insert row now coins => insertSealed env db coins row now
  | .insertWithConflict row mode now coins => insertWithConflictSealed env db coins row now mode
  | .insertIfNewer row now coins => insertIfNewerSealed env db coins row now
  | .mergeInbound row now skewSecs coins => mergeInboundSealed env db coins row now skewSecs
  | .update id patch expectedVersion now coins => updateSealed env db id now patch expectedVersion coins
  | .conserveContradiction loserId winnerId now => conserveSealed env db now loserId winnerId

/-- A failed call leaves the database. -/
def SealedDatabase.next (db : SealedDatabase) (call : SealedCall env) : SealedDatabase :=
  match call.answer env db with
  | .ok written => written
  | .error _ => db

end Run
end AiMemory.Storage
