import AiMemory.Library.Run
import AiMemory.Machine.Strings
import AiMemory.Storage.Update

/-
This file embeds the writers that move a row out of the live table or back into it.
-/

namespace AiMemory.Storage
open AiMemory.Crdt AiMemory.Library AiMemory.Machine

section Delete

/-- A removed row is no longer the standard of a namespace. -/
def dropStandard (namespaceMeta : List NamespaceMeta) (id : String) : List NamespaceMeta :=
  namespaceMeta.filter fun entry => entry.standardId ≠ some id

/-- A deletion that fails has already dropped the standard. -/
def delete (db : Database) (id : String) : Database × Except StorageError Bool :=
  match gateStorageConn db.toStore with
  | .error error => (db, .error error)
  | .ok () =>
      let cleared := { db with namespaceMeta := dropStandard db.namespaceMeta id }
      match deleteFromMemories cleared fun row => row.id = id with
      | .error error => (cleared, .error error)
      | .ok deleted => (deleted, .ok (db.memories.find id).isSome)

/-- The snapshots of a row's links come before the deletion that takes the links away. -/
def archiveLinksForMemory (db : Database) (id archivedAt : String) : List ArchivedMemoryLink :=
  (db.memoryLinks.filter fun link => link.touches id).foldl (archiveLink archivedAt) db.archivedMemoryLinks

/-- A copy in the archive takes the parent of its row. -/
def copyAtoms (db : Database) (rows : List Memory) : String → Option String := fun id =>
  if rows.any fun row => row.id = id then db.atomOf id else db.archivedAtomOf id

/-- The row stands in the archive, and its deletion is still to come. -/
def archivedCopy (db : Database) (row : Memory) (reason now : String) : Database :=
  { db with
    archivedMemories := archiveRow db.archivedMemories row reason now
    archivedAtomOf := copyAtoms db [row]
    archivedMemoryLinks := archiveLinksForMemory db row.id now
    namespaceMeta := dropStandard db.namespaceMeta row.id }

/-- A missing row is no error. -/
def archiveMemoryNoTx (db : Database) (id : String) (reason : Option String) (now : String) :
    Except StorageError (Database × Bool) :=
  match db.memories.find id with
  | none => .ok (db, false)
  | some row =>
      (deleteFromMemories (archivedCopy db row (reason.getD "archive") now) fun other => other.id = id).map
        fun deleted => (deleted, true)

/-- The transaction around the archival rolls back when it fails. -/
def archiveMemory (chrono : Chrono) (db : Database) (id : String) (reason : Option String) (now : chrono.Instant) :
    Except StorageError (Database × Bool) :=
  archiveMemoryNoTx db id reason (chrono.toRfc3339 now)

/-- Rows are deleted exactly when no atom loses its parent. -/
theorem deleteFromMemories_eq_ok {db deleted : Database} {doomed : Memory → Bool} :
    deleteFromMemories db doomed = .ok deleted ↔ orphansAtom db doomed = false ∧
      deleteMemories db doomed = deleted := by
  unfold deleteFromMemories
  cases orphansAtom db doomed <;> simp

/-- A deletion that succeeds meets no stop and leaves no atom without its parent. -/
theorem delete_eq_ok {db deleted : Database} {id : String} {found : Bool}
    (ok : delete db id = (deleted, .ok found)) :
    db.recordStop = none ∧ (orphansAtom db fun row => row.id = id) = false ∧ found = (db.memories.find id).isSome ∧
      deleted = deleteMemories { db with namespaceMeta := dropStandard db.namespaceMeta id }
          fun row => row.id = id := by
  unfold delete gateStorageConn at ok
  cases stopped : db.recordStop with
  | some stop =>
      rw [stopped] at ok
      cases ok
  | none =>
      rw [stopped] at ok
      dsimp only at ok
      split at ok
      · cases ok
      · rename_i removed removedOk
        obtain ⟨kept, rfl⟩ := deleteFromMemories_eq_ok.mp removedOk
        obtain ⟨rfl, answer⟩ := Prod.mk.inj ok
        exact ⟨rfl, kept, (Except.ok.inj answer).symm, rfl⟩

/-- A deletion that fails changes no more than the standards. -/
theorem delete_eq_error {db left : Database} {id : String} {error : StorageError}
    (failed : delete db id = (left, .error error)) : ∃ standards, left = { db with namespaceMeta := standards } := by
  unfold delete at failed
  split at failed
  · obtain ⟨rfl, _⟩ := Prod.mk.inj failed
    exact ⟨_, rfl⟩
  · dsimp only at failed
    split at failed
    · obtain ⟨rfl, _⟩ := Prod.mk.inj failed
      exact ⟨_, rfl⟩
    · cases failed

/-- An archival that succeeds finds no row, or it moves the row into the archive. -/
theorem archiveMemoryNoTx_eq_ok {db archived : Database} {id now : String} {reason : Option String} {moved : Bool}
    (ok : archiveMemoryNoTx db id reason now = .ok (archived, moved)) :
    (moved = false ∧ archived = db ∧ db.memories.find id = none) ∨
      ∃ row, moved = true ∧ db.memories.find id = some row ∧ (orphansAtom db fun other => other.id = id) = false ∧
        archived = deleteMemories (archivedCopy db row (reason.getD "archive") now) fun other => other.id = id := by
  unfold archiveMemoryNoTx at ok
  split at ok
  · rename_i absent
    obtain ⟨rfl, rfl⟩ := Prod.mk.inj (Except.ok.inj ok)
    exact .inl ⟨rfl, rfl, absent⟩
  · rename_i row found
    obtain ⟨deleted, deletedOk, done⟩ := map_eq_ok.mp ok
    obtain ⟨rfl, rfl⟩ := Prod.mk.inj done
    obtain ⟨kept, rfl⟩ := deleteFromMemories_eq_ok.mp deletedOk
    exact .inr ⟨row, rfl, found, kept, rfl⟩

end Delete

section Supersede

variable (env : WriterEnvironment)

inductive EditSource where
  | human | llm | hook | agent
  deriving DecidableEq, Repr

def EditSource.asStr : EditSource → String
  | human => "human"
  | llm => "llm"
  | hook => "hook"
  | agent => "agent"

structure SupersedeResult where
  archivedId : String
  newId : String
  deriving DecidableEq, Repr

/-- The new row overlays the patch on the old row and points back to it. -/
def supersedingRow (patch : Patch) (existing : Memory) (newId now : String) (editSource : EditSource) : Memory :=
  let governed := governedRow patch existing
  { governed with
    id := newId
    metadata := (governed.metadata.insert "edit_source" (.string editSource.asStr)).insert "superseded_id"
      (.string existing.id)
    createdAt := now
    updatedAt := now
    accessCount := 0
    lastAccessedAt := none
    version := 1 }

/-- The archive and the insertion share one transaction, so a refused insertion leaves the old row live. -/
def updateWithArchiveOnSupersede (db : Database) (id : String) (patch : Patch) (expectedVersion : Option Int)
    (editSource : EditSource) (newId : String) (now : env.chrono.Instant) :
    Except StorageError (Database × SupersedeResult) :=
  match db.memories.find id with
  | none => .error (.memoryNotFound id none)
  | some existing =>
      match expectedVersion.filter fun expected => existing.version ≠ expected with
      | some expected => .error (.versionConflict id expected existing.version)
      | none => do
          let row := supersedingRow patch existing newId (env.chrono.toRfc3339 now) editSource
          consultGovernancePreWrite env.toEnvironment row
          let (archived, moved) ← archiveMemoryNoTx db id (some "superseded") (env.chrono.toRfc3339 now)
          if moved then
            let (inserted, _) ← insert env archived.toStore row now
            .ok ({ archived with toStore := inserted }, ⟨id, newId⟩)
          else .error (.archiveSupersedeFailed id)

end Supersede

section Query

/-- The zero-width and the formatting characters. -/
def isInvisible (char : Char) : Bool :=
  char.toNat ∈ [0x200B, 0x200C, 0x200D, 0xFEFF, 0xAD, 0x34F, 0x61C, 0x180E, 0x2060, 0x200E, 0x200F] ∨
    (0x2061 ≤ char.toNat ∧ char.toNat ≤ 0x2064) ∨ (0xFE00 ≤ char.toNat ∧ char.toNat ≤ 0xFE0F) ∨
    (0x202A ≤ char.toNat ∧ char.toNat ≤ 0x202E) ∨ (0x2066 ≤ char.toNat ∧ char.toNat ≤ 0x2069)

def stripInvisible (text : String) : String := String.ofList (text.toList.filter fun char => !isInvisible char)

def maxFtsOrTerms : Nat := 128

/-- A term is quoted and loses the characters of the query language; an operator is no term. -/
def ftsTerms (input : String) : List String :=
  let tokens := ((stripInvisible input).toList.splitOnP isWhitespace).filter (· ≠ [])
  let words := tokens.filter fun token => (String.ofList token).toUpper ∉ ["AND", "OR", "NOT", "NEAR"]
  let cleaned := words.map fun token => token.filter fun char => char ∉ "\"*^\x7b\x7d():|+".toList
  ((cleaned.filter (· ≠ [])).map fun token => "\"" ++ String.ofList token ++ "\"").take maxFtsOrTerms

def sanitizeFtsQuery (input : String) (useOr : Bool) : String :=
  match ftsTerms input with
  | [] => "\"_empty_\""
  | terms => String.intercalate (if useOr then " OR " else " ") terms

/-- A deletion asks for all terms. -/
def forgetFtsQuery (pattern : String) : String := sanitizeFtsQuery pattern false

/-- The index reads a query up to its first null character, which stands inside of a quoted term. -/
def ftsRefuses (query : String) : Bool := query.toList.contains '\x00'

end Query

section Forget

variable (env : WriterEnvironment)

/-- The filters select the rows of a namespace, of a text query and of a tier. -/
def forgetMatches («namespace» pattern : Option String) (tier : Option Tier) (row : Memory) : Bool :=
  «namespace».all (fun text => row.namespace = text) &&
    pattern.all (fun text => env.ftsMatches (forgetFtsQuery text) row) && tier.all fun tier => row.tier = tier

/-- The column of the agent is read as a text or a null, and a number or a truth value is neither. -/
def agentIdReads (row : Memory) : Bool :=
  match row.metadata.get "agent_id" with
  | some (.number _) => false
  | some (.bool _) => false
  | _ => true

def invalidColumnType : StorageError := .write (.sqlite "Invalid column type")

/-- The query of the pattern is refused, or the agent of a victim cannot be read. -/
def forgetFailure (pattern : Option String) (victims : List Memory) : Option StorageError :=
  if pattern.any fun text => ftsRefuses (forgetFtsQuery text) then some (.write (.sqlite "unterminated string"))
  else if victims.all agentIdReads then none
  else some invalidColumnType

def archiveAll (archived : List ArchivedMemory) (rows : List Memory) (reason now : String) : List ArchivedMemory :=
  rows.foldl (fun archived row => archiveRow archived row reason now) archived

/-- Every victim leaves a tombstone. -/
def addTombstones (tombstones : List String) (rows : List Memory) : List String :=
  rows.foldl (fun tombstones row => if row.id ∈ tombstones then tombstones else tombstones ++ [row.id]) tombstones

/-- The copies of the victims come before their deletion. -/
def forgetArchived (db : Database) (victims : List Memory) (archive : Bool) (now : String) : Database :=
  let links := db.memoryLinks.filter fun link => victims.any fun row => link.touches row.id
  if archive then
    { db with
      archivedMemories := archiveAll db.archivedMemories victims "forget" now
      archivedAtomOf := copyAtoms db victims
      archivedMemoryLinks := links.foldl (archiveLink now) db.archivedMemoryLinks }
  else db

def forget (db : Database) («namespace» pattern : Option String) (tier : Option Tier) (archive : Bool)
    (now : env.chrono.Instant) : Except StorageError (Database × Nat) :=
  if pattern = none ∧ «namespace» = none ∧ tier = none then
    .error (.invalidArgument "at least one of namespace, pattern, or tier is required")
  else
    let doomed := forgetMatches env «namespace» pattern tier
    let victims := db.memories.rows.filter doomed
    match forgetFailure pattern victims with
    | some error => .error error
    | none =>
        (deleteFromMemories { forgetArchived db victims archive (env.chrono.toRfc3339 now) with
          forgetTombstones := addTombstones db.forgetTombstones victims } doomed).map fun deleted =>
            (deleted, victims.length)

/-- The hook sees the archived row with the default lifecycle; metadata that no caller could write is reset. -/
def restoreCandidate (row : Memory) : Memory :=
  { row with
    metadata := if env.metadataIsValid row.metadata then row.metadata else Json.empty
    lifecycleState := .open
    cid := none }

def restoredRow (row : Memory) (now : env.chrono.Instant) : Memory :=
  { row with
    metadata := (restoreCandidate env row).metadata
    updatedAt := env.chrono.toRfc3339 now
    cid := some (env.stampMemoryCid (restoreCandidate env row)) }

/-- The parent of a restored atom is live, or the atom itself. -/
def atomReturns (db : Database) (id : String) : Bool :=
  (db.archivedAtomOf id).all fun parent => parent = id || (db.memories.find parent).isSome

/-- An authorized restore asks neither the tombstones nor the stop. -/
def restoreArchived (db : Database) (id : String) (now : env.chrono.Instant) :
    Except StorageError (Database × Bool) :=
  match db.archivedMemories.find? fun entry => entry.row.id = id with
  | none => .ok (db, false)
  | some entry =>
      if db.memories.find id ≠ none then .error (.archiveRestoreCollision id)
      else do
        consultGovernancePreWrite env.toEnvironment (restoreCandidate env entry.row)
        let clash := .write (.sqlite "UNIQUE constraint failed: memories.title, memories.namespace")
        let (inserted, _) ← plainInsert db.toStore (restoredRow env entry.row now) clash
        if atomReturns db id then
          let ids := inserted.memories.rows.map (·.id)
          let links := (db.archivedMemoryLinks.map (·.link)).filter fun link =>
            link.touches id ∧ link.sourceId ∈ ids ∧ link.targetId ∈ ids ∧
              ∀ other ∈ db.memoryLinks, other.key ≠ link.key
          .ok ({ db with
            toStore := { inserted with
              archivedMemories := inserted.archivedMemories.filter fun other => other.row.id ≠ id }
            memoryLinks := db.memoryLinks ++ links
            atomOf := Function.update db.atomOf id (db.archivedAtomOf id) }, true)
        else .error foreignKeyFailed

variable {env} in
/-- A restore that succeeds finds no entry, or it inserts the row of the entry and moves the entry out. -/
theorem restoreArchived_eq_ok {db restored : Database} {id : String} {now : env.chrono.Instant} {moved : Bool}
    (ok : restoreArchived env db id now = .ok (restored, moved)) :
    (moved = false ∧ restored = db ∧ db.archivedMemories.find? (fun entry => entry.row.id = id) = none) ∨
      ∃ entry inserted actualId, moved = true ∧
        db.archivedMemories.find? (fun entry => entry.row.id = id) = some entry ∧ entry.row.id = id ∧
        db.memories.find id = none ∧
        consultGovernancePreWrite env.toEnvironment (restoreCandidate env entry.row) = .ok () ∧
        plainInsert db.toStore (restoredRow env entry.row now)
          (.write (.sqlite "UNIQUE constraint failed: memories.title, memories.namespace")) =
            .ok (inserted, actualId) ∧
        atomReturns db id = true ∧
        let ids := inserted.memories.rows.map (·.id)
        restored = { db with
          toStore := { inserted with
            archivedMemories := inserted.archivedMemories.filter fun other => other.row.id ≠ id }
          memoryLinks := db.memoryLinks ++ (db.archivedMemoryLinks.map (·.link)).filter fun link =>
            link.touches id ∧ link.sourceId ∈ ids ∧ link.targetId ∈ ids ∧
              ∀ other ∈ db.memoryLinks, other.key ≠ link.key
          atomOf := Function.update db.atomOf id (db.archivedAtomOf id) } := by
  unfold restoreArchived at ok
  split at ok
  · rename_i absent
    obtain ⟨rfl, rfl⟩ := Prod.mk.inj (Except.ok.inj ok)
    exact .inl ⟨rfl, rfl, absent⟩
  · rename_i entry found
    have entryId : entry.row.id = id := by simpa using List.find?_some found
    split_ifs at ok with live returns
    · obtain ⟨_, admitted, ungoverned⟩ := bind_eq_ok.mp ok
      obtain ⟨⟨inserted, actualId⟩, insertedOk, done⟩ := bind_eq_ok.mp ungoverned
      obtain ⟨rfl, rfl⟩ := Prod.mk.inj (Except.ok.inj done)
      exact .inr ⟨entry, inserted, actualId, rfl, found, entryId, not_not.mp live, admitted, insertedOk, returns, rfl⟩
    · obtain ⟨_, _, ungoverned⟩ := bind_eq_ok.mp ok
      obtain ⟨_, _, done⟩ := bind_eq_ok.mp ungoverned
      cases done

end Forget

section Collect

variable (env : WriterEnvironment)

def gcChunkRows : Nat := 500

def expired (now : String) (row : Memory) : Bool := row.expiresAt.any fun expiresAt => expiresAt < now

def gcVictims (db : Database) (now : String) : List Memory := (db.memories.rows.filter (expired now)).take gcChunkRows

def isListed (rows : List Memory) (row : Memory) : Bool := rows.any fun other => other.id = row.id

/-- A chunk archives or entombs its rows before it deletes them. -/
def gcChunk (db : Database) (archive : Bool) (now : String) : Except StorageError (Database × Nat) :=
  let chunk := gcVictims db now
  if archive || chunk.all agentIdReads then
    let kept := if archive then
        { db with
          archivedMemories := archiveAll db.archivedMemories chunk "ttl_expired" now
          archivedAtomOf := copyAtoms db chunk }
      else { db with forgetTombstones := addTombstones db.forgetTombstones chunk }
    (deleteFromMemories kept (isListed chunk)).map fun deleted => (deleted, chunk.length)
  else .error invalidColumnType

/-- The victims of the collection are stored rows. -/
theorem gcVictims_sublist (db : Database) (now : String) : (gcVictims db now).Sublist db.memories.rows :=
  (List.take_sublist _ _).trans List.filter_sublist

/-- A full chunk takes rows away, so the loop has fewer rounds than there are rows; a chunk that fails rolls back
alone. -/
def gcLoop (archive : Bool) (now : String) : Nat → Database → Nat → Database × Except StorageError Nat
  | 0, db, total => (db, .ok total)
  | rounds + 1, db, total =>
      match gcChunk db archive now with
      | .error error => (db, .error error)
      | .ok (next, deleted) =>
          if deleted < gcChunkRows then (next, .ok (total + deleted))
          else gcLoop archive now rounds next (total + deleted)

/-- The collection leaves the database that its chunks have committed, also when it fails. -/
def gc (db : Database) (archive : Bool) (now : env.chrono.Instant) : Database × Except StorageError Nat :=
  match gcLoop archive (env.chrono.toRfc3339 now) (db.memories.rows.length + 1) db 0 with
  | (swept, .error error) => (swept, .error error)
  | (swept, .ok total) =>
      let ids := swept.memories.rows.map (·.id)
      ({ swept with namespaceMeta := swept.namespaceMeta.filter fun entry => entry.standardId.any (· ∈ ids) },
        .ok total)

variable {env} in
/-- The collection does to the rows what its chunks do. -/
theorem gc_sweeps {db : Database} {archive : Bool} {now : env.chrono.Instant} : ∃ standards,
    (gc env db archive now).1 =
      { (gcLoop archive (env.chrono.toRfc3339 now) (db.memories.rows.length + 1) db 0).1 with
        namespaceMeta := standards } := by
  unfold gc
  -- the bound is opaque, so that no unification runs the loop
  generalize db.memories.rows.length + 1 = rounds
  cases gcLoop archive (env.chrono.toRfc3339 now) rounds db 0 with
  | mk swept answer => cases answer <;> exact ⟨_, rfl⟩

/-- The length of a text in a statement counts the characters before the first null one. -/
def sqlLength (text : String) : Nat := (text.toList.takeWhile fun letter => letter.toNat ≠ 0).length

def rowBytes (row : Memory) : Nat := sqlLength row.title + sqlLength row.content + env.metadataLen row.metadata

def namespaceCorpusBytes (db : Database) («namespace» : String) : Int :=
  ((db.memories.rows.filter fun row => row.namespace = «namespace»).map fun row => (rowBytes env row : Int)).sum

/-- The least durable tier goes first, then the lowest priority, then the fewest and the oldest accesses. -/
def victimBefore (first second : Memory) : Bool :=
  first.tier.rank < second.tier.rank || first.tier.rank = second.tier.rank &&
    (first.priority < second.priority || first.priority = second.priority &&
      (first.accessCount < second.accessCount || first.accessCount = second.accessCount &&
        match first.lastAccessedAt, second.lastAccessedAt with
        | none, some _ => true
        | some firstAt, some secondAt => firstAt < secondAt
        | _, none => false))

def nextVictim (db : Database) («namespace» : String) : Option Memory :=
  (db.memories.rows.filter fun row => row.namespace = «namespace»).foldl
    (fun held row => match held with
      | none => some row
      | some best => if victimBefore row best then some row else some best) none

def evictVictim (db : Database) (victim : Memory) (archive : Bool) (now : String) : Except StorageError Database :=
  if archive then (archiveMemoryNoTx db victim.id (some "size_gc") now).map (·.1)
  else if agentIdReads victim then
    deleteFromMemories { db with
      forgetTombstones := addTombstones db.forgetTombstones [victim]
      namespaceMeta := dropStandard db.namespaceMeta victim.id } fun row => row.id = victim.id
  else .error invalidColumnType

/-- Every round evicts one row of the namespace in a transaction of its own. -/
def sizeGcLoop («namespace» : String) (maxCorpusBytes : Int) (archive : Bool) (now : String) :
    Nat → Database → Int → Nat → Database × Except StorageError Nat
  | 0, db, _, evicted => (db, .ok evicted)
  | rounds + 1, db, corpus, evicted =>
      if corpus ≤ maxCorpusBytes then (db, .ok evicted)
      else
        match nextVictim db «namespace» with
        | none => (db, .ok evicted)
        | some victim =>
            match evictVictim db victim archive now with
            | .error error => (db, .error error)
            | .ok next =>
                sizeGcLoop «namespace» maxCorpusBytes archive now rounds next (corpus - rowBytes env victim)
                  (evicted + 1)

/-- A cap that is not positive turns the eviction off. -/
def sizeGc (db : Database) («namespace» : String) (maxCorpusBytes : Int) (archive : Bool)
    (now : env.chrono.Instant) : Database × Except StorageError Nat :=
  if maxCorpusBytes ≤ 0 then (db, .ok 0)
  else sizeGcLoop env «namespace» maxCorpusBytes archive (env.chrono.toRfc3339 now)
    (db.memories.rows.length + 1) db (namespaceCorpusBytes env db «namespace») 0

end Collect
end AiMemory.Storage
