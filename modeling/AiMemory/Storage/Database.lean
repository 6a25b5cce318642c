import AiMemory.Machine.Bytes
import AiMemory.Storage.Postdating

/-
This file embeds the database around the memories: its links, its archive and its namespace standards.
-/

namespace AiMemory.Storage
open AiMemory.Crdt AiMemory.Library AiMemory.Machine

structure MemoryLink where
  sourceId : String
  targetId : String
  relation : String
  createdAt : String
  validFrom : Option String
  validUntil : Option String
  observedBy : Option String
  signature : Option Bytes
  attestLevel : String
  deriving DecidableEq

/-- The primary key of a link. -/
def MemoryLink.key (link : MemoryLink) : String × String × String := (link.sourceId, link.targetId, link.relation)

def MemoryLink.touches (link : MemoryLink) (id : String) : Bool := link.sourceId = id || link.targetId = id

structure ArchivedMemoryLink where
  link : MemoryLink
  archivedAt : String
  deriving DecidableEq

structure NamespaceMeta where
  «namespace» : String
  standardId : Option String
  parentNamespace : Option String
  updatedAt : String
  deriving DecidableEq

/-- The parents of the atoms stand beside the rows, those of the live ones and those of the archived ones. -/
structure Database extends Store where
  memoryLinks : List MemoryLink
  archivedMemoryLinks : List ArchivedMemoryLink
  namespaceMeta : List NamespaceMeta
  atomOf : String → Option String
  archivedAtomOf : String → Option String

/-- A link or its row names one of its two ends. -/
inductive LinkEnd where
  | source | target
  deriving DecidableEq, Repr

inductive StorageError where
  | write (error : WriteError)
  | versionConflict (id : String) (expected current : Int)
  | uniqueConflict (reason : String)
  | conflict (existingId title «namespace» : String)
  | memoryNotFound (id : String) (role : Option LinkEnd)
  | invalidTransition (id : String) (source target : LifecycleState)
  | invalidArgument (reason : String)
  | archiveRestoreCollision (id : String)
  | archiveSupersedeFailed (archivedId : String)
  | updateConstraint
  | metadataNotObject (loserId : String)
  | linkRefused (reason : String)
  deriving DecidableEq, Repr

/-- The writers also use the node's name, the text index, the texts that the JSON library prints, the signer of the
links and the checks before a new link. -/
structure WriterEnvironment extends Environment where
  localNodeIdentity : String
  ftsMatches : String → Memory → Bool
  metadataLen : Json → Nat
  metadataIsValid : Json → Bool
  signLink : MemoryLink → Option (String × Bytes)
  validateLinkPreCreate : Store → List MemoryLink → MemoryLink → Option String

section Gate

/-- The gate that a writer consults before its first statement. -/
def gateStorageConn (store : Store) : Except StorageError Unit :=
  match store.recordStop with
  | some stop => .error (.write (.recordStopped stop))
  | none => .ok ()

def consultGovernancePreWrite (env : Environment) (row : Memory) : Except StorageError Unit :=
  match env.governancePreWrite row with
  | some reason => .error (.write (.governanceRefused reason))
  | none => .ok ()

end Gate

section Rows

/-- A row that keeps the slot of the stored row cannot clash. -/
theorem noClash_of_sameSlot {table : MemoryTable} {existing row : Memory}
    (found : table.find row.id = some existing) (sameSlot : slotOf row = slotOf existing) :
    ∀ other ∈ table.findSlot (slotOf row), other.id = row.id := by
  intro other otherFound
  obtain ⟨present, sameId⟩ := (table.find_eq_some_iff _ _).mp found
  obtain ⟨otherPresent, otherSlot⟩ := (table.findSlot_eq_some_iff _ _).mp otherFound
  exact (table.id_of_slot otherPresent present (otherSlot.trans sameSlot)).trans sameId

/-- The statement rewrites the row of an identifier in its own slot. -/
def rewriteRow (store : Store) (id : String) (change : Memory → Memory)
    (keepsId : ∀ row, (change row).id = row.id) (keepsSlot : ∀ row, slotOf (change row) = slotOf row) : Store :=
  match found : store.memories.find id with
  | none => store
  | some existing =>
      have sameId : (change existing).id = id :=
        (keepsId existing).trans ((store.memories.find_eq_some_iff _ _).mp found).2
      have noClash := noClash_of_sameSlot (sameId.symm ▸ found) (keepsSlot existing)
      { store with memories := store.memories.replace (change existing) noClash }

/-- The archive holds one row for each identifier, and a new one replaces it. -/
def archiveRow (archived : List ArchivedMemory) (row : Memory) (archiveReason archivedAt : String) :
    List ArchivedMemory :=
  archived.filter (fun entry => entry.row.id ≠ row.id) ++ [⟨row, archiveReason, archivedAt⟩]

/-- A deleted row takes its links with it. -/
def deleteMemories (db : Database) (doomed : Memory → Bool) : Database :=
  let ids := (db.memories.rows.filter doomed).map (·.id)
  { db with
    memories := db.memories.retain fun row => !doomed row
    memoryLinks := db.memoryLinks.filter fun link => link.sourceId ∉ ids ∧ link.targetId ∉ ids
    atomOf := fun id => if id ∈ ids then none else db.atomOf id }

/-- A row that stays is an atom of a row that goes. -/
def orphansAtom (db : Database) (doomed : Memory → Bool) : Bool :=
  db.memories.rows.any fun atom => !doomed atom && (db.atomOf atom.id).any fun parent =>
    db.memories.rows.any fun row => doomed row && row.id = parent

def foreignKeyFailed : StorageError := .write (.sqlite "FOREIGN KEY constraint failed")

/-- The deletion fails at its end when it leaves an atom without its parent. -/
def deleteFromMemories (db : Database) (doomed : Memory → Bool) : Except StorageError Database :=
  if orphansAtom db doomed then .error foreignKeyFailed else .ok (deleteMemories db doomed)

/-- The snapshot of a link never replaces an earlier one. -/
def archiveLink (archivedAt : String) (archived : List ArchivedMemoryLink) (link : MemoryLink) :
    List ArchivedMemoryLink :=
  if archived.any fun entry => entry.link.key = link.key then archived else archived ++ [⟨link, archivedAt⟩]

/-- A rewrite changes the row that it names and no other. -/
theorem find_rewriteRow (store : Store) (id : String) (change : Memory → Memory)
    (keepsId : ∀ row, (change row).id = row.id) (keepsSlot : ∀ row, slotOf (change row) = slotOf row)
    (query : String) :
    (rewriteRow store id change keepsId keepsSlot).memories.find query =
      (store.memories.find query).map fun row => if query = id then change row else row := by
  unfold rewriteRow
  split
  · rename_i absent
    by_cases isRow : query = id
    · rw [isRow, absent, Option.map_none]
    · simp [isRow]
  · rename_i existing found
    have sameId := ((store.memories.find_eq_some_iff _ _).mp found).2
    rw [KeyedTable.find_replace, keepsId, sameId]
    by_cases isRow : query = id
    · subst isRow
      simp [found]
    · simp [isRow]

end Rows

/-- The writers of this process print no text and sign no link. -/
def openWriterEnvironment : WriterEnvironment where
  toEnvironment := openEnvironment
  localNodeIdentity := ""
  ftsMatches _ _ := false
  metadataLen _ := 2
  metadataIsValid := Json.isObject
  signLink _ := none
  validateLinkPreCreate _ _ _ := none

end AiMemory.Storage
