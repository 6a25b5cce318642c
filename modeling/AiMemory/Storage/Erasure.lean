import AiMemory.Library.Custody
import AiMemory.Storage.Removal
import AiMemory.Storage.Sealing

/-
This file embeds the erasures of encrypted rows, their attestations and the copies that they reach.
-/

namespace AiMemory.Storage
open AiMemory.Crdt AiMemory.Encryption AiMemory.Library AiMemory.Machine

/-- An attestation tells a destroyed key from a deleted row. -/
inductive ErasureKind where
  | keyDestroyed | rowDeletedTombstoned
  deriving DecidableEq, Repr

def ErasureKind.asStr : ErasureKind → String
  | keyDestroyed => "key-destroyed"
  | rowDeletedTombstoned => "row-deleted-tombstoned"

structure CryptoErasure where
  memoryId : String
  kind : ErasureKind
  actor : String
  erasedAt : String
  deriving DecidableEq, Repr

/-- A push that a peer did not acknowledge waits with the whole body that was sent. -/
structure PushDlqRow where
  memoryId : String
  peerId : String
  payloadJson : Json
  replayedAt : Option String

/-- The archived envelopes stand beside the archived rows. No call reads the last two fields: they tell whose key was
attested destroyed, and who was forgotten without an archive, since the row was last written. -/
structure ErasureDatabase extends SealedDatabase where
  archivedEnvelopes : String → Option Bytes
  federationPushDlq : List PushDlqRow
  cryptoErasures : List CryptoErasure
  keyDestroyed : String → Bool
  forgotten : String → Bool

section Erase

variable (db : ErasureDatabase)

/-- Only the envelope of a record holds a key of its own. -/
def envelopeIsCryptoErasable (envelope : Bytes) : Bool := envelope.head? = some recordEnvelopeVersion

def cryptoEraseMarker : Bytes := [erasedEnvelopeVersion]

def cryptoEraseRecordEnvelope (id : String) : ErasureDatabase × Bool :=
  match (db.memories.find id).bind fun _ => db.envelopes id with
  | some bytes =>
      if envelopeIsCryptoErasable bytes then
        ({ db with envelopes := Function.update db.envelopes id (some cryptoEraseMarker) }, true)
      else (db, false)
  | none => (db, false)

def emitCryptoEraseAttestation (id : String) (kind : ErasureKind) (actor erasedAt : String) : ErasureDatabase :=
  { db with
    cryptoErasures := db.cryptoErasures ++ [⟨id, kind, actor, erasedAt⟩]
    keyDestroyed := if kind = .keyDestroyed then Function.update db.keyDestroyed id true else db.keyDestroyed }

/-- The kind of an attestation is what happened to the envelope of the live row. -/
def cryptoEraseAndAttest (id actor now : String) : ErasureDatabase :=
  let (erased, keyDestroyed) := cryptoEraseRecordEnvelope db id
  emitCryptoEraseAttestation erased id (if keyDestroyed then .keyDestroyed else .rowDeletedTombstoned) actor now

/-- The first name that is not empty acts, and else the substrate does. -/
def eraseActor (names : List String) (substrate : String) : String := (names.find? (· ≠ "")).getD substrate

/-- Every victim leaves an attestation and a tombstone. -/
def entomb (actorOf : Memory → String) (now : String) (db : ErasureDatabase) (victim : Memory) : ErasureDatabase :=
  let erased := cryptoEraseAndAttest db victim.id (actorOf victim) now
  { erased with forgetTombstones := addTombstones erased.forgetTombstones [victim] }

def evictionActor (row : Memory) : String := eraseActor [agentIdOf row.metadata] "substrate:eviction"

def forgetActor (caller : Option String) (row : Memory) : String :=
  eraseActor [caller.getD "", agentIdOf row.metadata] "substrate:forget"

def evictTombstoneAndErase : String → ErasureDatabase → Memory → ErasureDatabase := entomb evictionActor

/-- The queued pushes of the victims go with them. -/
def purgeAndTombstoneForget (victims : List Memory) (caller : Option String) (now : String) : ErasureDatabase :=
  victims.foldl (entomb (forgetActor caller) now)
    { db with federationPushDlq := db.federationPushDlq.filter fun push =>
        !victims.any fun row => row.id = push.memoryId }

/-- A copy in the archive takes the envelope of its row. -/
def copyEnvelopes (rows : List Memory) : String → Option Bytes := fun id =>
  if rows.any fun row => row.id = id then db.envelopes id else db.archivedEnvelopes id

def deleteRows (doomed : Memory → Bool) : Except StorageError ErasureDatabase :=
  (deleteFromMemories db.toDatabase doomed).map fun deleted => { db with toDatabase := deleted }

end Erase

section Move

variable (env : SealingEnvironment) (db : ErasureDatabase)

def archiveErasable (id : String) (reason : Option String) (now : String) : Except StorageError ErasureDatabase :=
  (archiveMemoryNoTx db.toDatabase id reason now).map fun (archived, _) =>
    { db with
      toDatabase := archived
      archivedEnvelopes := copyEnvelopes db (db.memories.find id).toList }

/-- The address of a restored row is computed from its opened content, or from its column where that cannot be
opened. -/
def restoredPlaintext (row : Memory) : String :=
  match db.archivedEnvelopes row.id with
  | some envelope => (openContent env.primitives envelope (agentIdOf row.metadata)).toOption.getD row.content
  | none => row.content

def restoringEnvironment : WriterEnvironment :=
  { env.toWriterEnvironment with
    stampMemoryCid := fun row => env.stampMemoryCid { row with content := restoredPlaintext env db row } }

/-- The envelope comes back with its row. -/
def restoreErasable (id : String) (now : env.chrono.Instant) : Except StorageError ErasureDatabase :=
  (restoreArchived (restoringEnvironment env db) db.toDatabase id now).map fun (restored, moved) =>
    if moved then
      { db with
        toDatabase := restored
        envelopes := Function.update db.envelopes id (db.archivedEnvelopes id) }
    else db

end Move

section Forget

variable (env : SealingEnvironment) (db : ErasureDatabase)

/-- A caller reaches its own rows and those that name no owner. -/
def ownedBy (caller : Option String) (row : Memory) : Bool :=
  caller.all fun name =>
    match row.metadata.get "agent_id" with
    | none => true
    | some owner => isNull owner || owner.asStr = some name || owner.asStr = some ""

def forgetReaches («namespace» pattern : Option String) (tier : Option Tier) (caller : Option String)
    (row : Memory) : Bool :=
  forgetMatches env.toWriterEnvironment «namespace» pattern tier row && ownedBy caller row

def forgetCopies (victims : List Memory) (archive : Bool) (stamp : String) : ErasureDatabase :=
  { db with
    toDatabase := forgetArchived db.toDatabase victims archive stamp
    archivedEnvelopes := if archive then copyEnvelopes db victims else db.archivedEnvelopes }

/-- The doomed rows are copied on demand and erased before they are deleted. -/
def forgetRows (doomed : Memory → Bool) (archive : Bool) (caller : Option String) (stamp : String) :
    Except StorageError ErasureDatabase :=
  let victims := db.memories.rows.filter doomed
  let purged := purgeAndTombstoneForget (forgetCopies db victims archive stamp) victims caller stamp
  deleteRows { purged with
    forgotten := fun id => purged.forgotten id || !archive && victims.any fun row => row.id = id } doomed

def forgetErasable («namespace» pattern : Option String) (tier : Option Tier) (archive : Bool)
    (caller : Option String) (now : env.chrono.Instant) : Except StorageError (ErasureDatabase × Nat) :=
  if pattern = none ∧ «namespace» = none ∧ tier = none then
    .error (.invalidArgument "at least one of namespace, pattern, or tier is required")
  else
    let doomed := forgetReaches env «namespace» pattern tier caller
    let victims := db.memories.rows.filter doomed
    match forgetFailure pattern victims with
    | some error => .error error
    | none => (forgetRows db doomed archive caller (env.chrono.toRfc3339 now)).map
        fun erased => (erased, victims.length)

end Forget

section Collect

variable (env : SealingEnvironment)

/-- An archiving chunk moves its rows, and any other chunk erases them. -/
def gcChunkErasable (db : ErasureDatabase) (archive : Bool) (now : String) :
    Except StorageError (ErasureDatabase × Nat) :=
  let chunk := gcVictims db.toDatabase now
  if archive || chunk.all agentIdReads then
    let kept := if archive then
        { db with
          archivedMemories := archiveAll db.archivedMemories chunk "ttl_expired" now
          archivedAtomOf := copyAtoms db.toDatabase chunk
          archivedEnvelopes := copyEnvelopes db chunk }
      else chunk.foldl (evictTombstoneAndErase now) db
    (deleteRows kept (isListed chunk)).map fun deleted => (deleted, chunk.length)
  else .error invalidColumnType

def gcLoopErasable (archive : Bool) (now : String) :
    Nat → ErasureDatabase → Nat → ErasureDatabase × Except StorageError Nat
  | 0, db, total => (db, .ok total)
  | rounds + 1, db, total =>
      match gcChunkErasable db archive now with
      | .error error => (db, .error error)
      | .ok (next, deleted) =>
          if deleted < gcChunkRows then (next, .ok (total + deleted))
          else gcLoopErasable archive now rounds next (total + deleted)

def gcErasable (db : ErasureDatabase) (archive : Bool) (now : env.chrono.Instant) :
    ErasureDatabase × Except StorageError Nat :=
  match gcLoopErasable archive (env.chrono.toRfc3339 now) (db.memories.rows.length + 1) db 0 with
  | (swept, .error error) => (swept, .error error)
  | (swept, .ok total) =>
      let ids := swept.memories.rows.map (·.id)
      ({ swept with namespaceMeta := swept.namespaceMeta.filter fun entry => entry.standardId.any (· ∈ ids) },
        .ok total)

def evictErasable (db : ErasureDatabase) (victim : Memory) (archive : Bool) (now : String) :
    Except StorageError ErasureDatabase :=
  if archive then archiveErasable db victim.id (some "size_gc") now
  else if agentIdReads victim then
    deleteRows (evictTombstoneAndErase now
      { db with namespaceMeta := dropStandard db.namespaceMeta victim.id } victim) fun row => row.id = victim.id
  else .error invalidColumnType

def sizeGcLoopErasable («namespace» : String) (maxCorpusBytes : Int) (archive : Bool) (now : String) :
    Nat → ErasureDatabase → Int → Nat → ErasureDatabase × Except StorageError Nat
  | 0, db, _, evicted => (db, .ok evicted)
  | rounds + 1, db, corpus, evicted =>
      if corpus ≤ maxCorpusBytes then (db, .ok evicted)
      else
        match nextVictim db.toDatabase «namespace» with
        | none => (db, .ok evicted)
        | some victim =>
            match evictErasable db victim archive now with
            | .error error => (db, .error error)
            | .ok next =>
                sizeGcLoopErasable «namespace» maxCorpusBytes archive now rounds next
                  (corpus - rowBytes env.toWriterEnvironment victim) (evicted + 1)

def sizeGcErasable (db : ErasureDatabase) («namespace» : String) (maxCorpusBytes : Int) (archive : Bool)
    (now : env.chrono.Instant) : ErasureDatabase × Except StorageError Nat :=
  if maxCorpusBytes ≤ 0 then (db, .ok 0)
  else sizeGcLoopErasable env «namespace» maxCorpusBytes archive (env.chrono.toRfc3339 now)
    (db.memories.rows.length + 1) db (namespaceCorpusBytes env.toWriterEnvironment db.toDatabase «namespace») 0

end Collect

section Write

variable (env : SealingEnvironment) (db : ErasureDatabase)

/-- A row that is live has been written since its erasure. -/
def settle : ErasureDatabase :=
  { db with
    keyDestroyed := fun id => db.keyDestroyed id && (db.memories.find id).isNone
    forgotten := fun id => db.forgotten id && (db.memories.find id).isNone }

/-- A writer commits its rows, and the row that it copied into the archive left its envelope there. -/
def commitWrite (answer : Except SealedError SealedDatabase) (copied : List Memory) : ErasureDatabase :=
  match answer with
  | .ok written => settle { db with
      toSealedDatabase := written
      archivedEnvelopes := copyEnvelopes db copied }
  | .error _ => db

/-- An update copies the row whose title or content it changes. -/
def updateCopies (id : String) (patch : Patch) : List Memory :=
  match db.memories.find id with
  | none => []
  | some stored =>
      match rowToMemory env db.toSealedDatabase stored with
      | .error _ => []
      | .ok existing => if contentChanged (governedRow patch existing) existing then [stored] else []

/-- The peer gets one waiting row for each record. -/
def enqueuePushFailure (push : PushDlqRow) : ErasureDatabase :=
  if db.federationPushDlq.any fun waiting =>
      waiting.memoryId = push.memoryId && waiting.peerId = push.peerId && waiting.replayedAt.isNone then db
  else { db with federationPushDlq := db.federationPushDlq ++ [push] }

end Write

/-- The calls that write, copy or erase encrypted rows. -/
inductive ErasureCall (env : SealingEnvironment) where
  | insert (row : Memory) (now : env.chrono.Instant) (coins : SealingCoins)
  | update (id : String) (patch : Patch) (expectedVersion : Option Int) (now : env.chrono.Instant)
      (coins : SealingCoins)
  | mergeInbound (row : Memory) (now : env.chrono.Instant) (skewSecs : Int) (coins : SealingCoins)
  | archive (id : String) (reason : Option String) (now : env.chrono.Instant)
  | restore (id : String) (now : env.chrono.Instant)
  | gc (archive : Bool) (now : env.chrono.Instant)
  | sizeGc («namespace» : String) (maxCorpusBytes : Int) (archive : Bool) (now : env.chrono.Instant)
  | forget («namespace» pattern : Option String) (tier : Option Tier) (archive : Bool) (now : env.chrono.Instant)
  | forgetForCaller («namespace» pattern : Option String) (tier : Option Tier) (archive : Bool) (caller : String)
      (now : env.chrono.Instant)
  | pushFailed (push : PushDlqRow)

/-- A failed call leaves what it has committed, and only the push of a live row is queued. -/
def erasureStep (env : SealingEnvironment) (db : ErasureDatabase) : ErasureCall env → ErasureDatabase
  | .insert row now coins => commitWrite db (insertSealed env db.toSealedDatabase coins row now) []
  | .update id patch expectedVersion now coins =>
      commitWrite db (updateSealed env db.toSealedDatabase id now patch expectedVersion coins)
        (updateCopies env db id patch)
  | .mergeInbound row now skewSecs coins =>
      commitWrite db (mergeInboundSealed env db.toSealedDatabase coins row now skewSecs)
        (db.memories.find row.id).toList
  | .archive id reason now => (archiveErasable db id reason (env.chrono.toRfc3339 now)).toOption.getD db
  | .restore id now =>
      match restoreErasable env db id now with
      | .ok restored => settle restored
      | .error _ => db
  | .gc archive now => (gcErasable env db archive now).1
  | .sizeGc «namespace» maxCorpusBytes archive now => (sizeGcErasable env db «namespace» maxCorpusBytes archive now).1
  | .forget «namespace» pattern tier archive now =>
      match forgetErasable env db «namespace» pattern tier archive none now with
      | .ok (forgotten, _) => forgotten
      | .error _ => db
  | .forgetForCaller «namespace» pattern tier archive caller now =>
      match forgetErasable env db «namespace» pattern tier archive (some caller) now with
      | .ok (forgotten, _) => forgotten
      | .error _ => db
  | .pushFailed push => if (db.memories.find push.memoryId).isSome then enqueuePushFailure db push else db

end AiMemory.Storage
