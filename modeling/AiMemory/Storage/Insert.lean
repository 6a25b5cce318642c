import AiMemory.Storage.Database

/-
This file embeds the local insertion and its conflict policies.
-/

namespace AiMemory.Storage
open AiMemory.Crdt AiMemory.Library AiMemory.Machine

/-- A local write advances the node's own component of the clock. -/
def stampVersionVector (metadata : Json) (nodeId stampedAt : String) : Json :=
  if nodeId.isEmpty then metadata
  else metadata.insert "version_vector" ((parseVersionVector metadata).observe nodeId stampedAt).toValue

/-- The conflict clause of a local write takes the new content and keeps the identity and the lifecycle. -/
def storeMerge (existing excluded : Memory) : Memory where
  id := existing.id
  cid := existing.cid
  title := existing.title
  «namespace» := existing.namespace
  createdAt := existing.createdAt
  lastAccessedAt := existing.lastAccessedAt
  accessCount := existing.accessCount
  content := excluded.content
  tags := excluded.tags
  priority := larger existing.priority excluded.priority
  confidence := larger existing.confidence excluded.confidence
  source := excluded.source
  tier := durableTier existing.tier excluded.tier
  updatedAt := excluded.updatedAt
  expiresAt :=
    if excluded.tier = .long ∨ existing.tier = .long then none
    else excluded.expiresAt.or existing.expiresAt
  metadata := jsonPatch excluded.metadata (provenanceObject existing.metadata)
  reflectionDepth := larger existing.reflectionDepth excluded.reflectionDepth
  memoryKind := stickyKind existing.memoryKind excluded.memoryKind
  entityId := existing.entityId.or excluded.entityId
  personaVersion := existing.personaVersion.or excluded.personaVersion
  citations := if excluded.citations = [] then existing.citations else excluded.citations
  sourceUri := excluded.sourceUri.or existing.sourceUri
  sourceSpan := excluded.sourceSpan.or existing.sourceSpan
  confidenceSource :=
    if excluded.confidenceSource ≠ .callerProvided then excluded.confidenceSource else existing.confidenceSource
  confidenceSignals := excluded.confidenceSignals.or existing.confidenceSignals
  confidenceDecayedAt := excluded.confidenceDecayedAt.or existing.confidenceDecayedAt
  version := existing.version + 1
  lifecycleState := existing.lifecycleState

section Upsert

variable (store : Store)

/-- The plain insertion appends a row whose two keys are free. -/
def plainInsert (row : Memory) (clash : StorageError) : Except StorageError (Store × String) :=
  match checkConstraints row with
  | some message => .error (.write (.sqlite message))
  | none =>
      match slotFound : store.memories.findSlot (slotOf row) with
      | some _ => .error clash
      | none =>
          match idFound : store.memories.find row.id with
          | some _ => .error clash
          | none => .ok ({ store with memories := store.memories.append row idFound slotFound }, row.id)

/-- The upsert merges into the row of its slot. -/
def upsertStoreMerge (excluded : Memory) : Except StorageError (Store × String) :=
  match checkConstraints excluded with
  | some message => .error (.write (.sqlite message))
  | none =>
      match slotFound : store.memories.findSlot (slotOf excluded) with
      | none => plainInsert store excluded (.write (.sqlite "UNIQUE constraint failed: memories.id"))
      | some existing =>
          match checkConstraints (storeMerge existing excluded) with
          | some message => .error (.write (.sqlite message))
          | none =>
              have found := (store.memories.find_eq_some_iff _ _).mpr
                ⟨((store.memories.findSlot_eq_some_iff _ _).mp slotFound).1, rfl⟩
              have noClash := @noClash_of_sameSlot store.memories existing (storeMerge existing excluded) found rfl
              .ok ({ store with memories := store.memories.replace (storeMerge existing excluded) noClash },
                existing.id)

end Upsert

section Written

variable {store written : Store} {row : Memory} {id : String}

/-- A successful insertion appends its row. -/
theorem plainInsert_written {clash : StorageError} (ok : plainInsert store row clash = .ok (written, id)) :
    checkConstraints row = none ∧ ∃ freshId freshSlot, id = row.id ∧
      written = { store with memories := store.memories.append row freshId freshSlot } := by
  unfold plainInsert at ok
  split at ok
  · contradiction
  · rename_i checked
    split at ok
    · contradiction
    · rename_i free
      split at ok
      · contradiction
      · rename_i fresh
        obtain ⟨rfl, rfl⟩ := Prod.mk.inj (Except.ok.inj ok)
        exact ⟨checked, fresh, free, rfl, rfl⟩

/-- A successful upsert replaces the row of the slot with its merge, or appends a row of two free keys. -/
theorem upsertStoreMerge_written (ok : upsertStoreMerge store row = .ok (written, id)) :
    checkConstraints row = none ∧
      ((∃ existing noClash, store.memories.findSlot (slotOf row) = some existing ∧ id = existing.id ∧
          checkConstraints (storeMerge existing row) = none ∧
          written = { store with memories := store.memories.replace (storeMerge existing row) noClash }) ∨
        ∃ freshId freshSlot, id = row.id ∧
          written = { store with memories := store.memories.append row freshId freshSlot }) := by
  unfold upsertStoreMerge at ok
  split at ok
  · contradiction
  · rename_i checked
    refine ⟨checked, ?_⟩
    split at ok
    · exact .inr (plainInsert_written ok).2
    · rename_i existing found
      dsimp only at ok
      split at ok
      · contradiction
      · rename_i merges
        obtain ⟨rfl, rfl⟩ := Prod.mk.inj (Except.ok.inj ok)
        exact .inl ⟨existing, _, found, rfl, merges, rfl⟩

end Written

section Insert

variable (env : WriterEnvironment) (store : Store) (row : Memory) (now : env.chrono.Instant)

/-- The row of a local write is masked and carries the clock of its node; a fresh row starts its versions. -/
def localRow : Memory :=
  let bound := boundRow env.toEnvironment now row
  { bound with
    metadata := stampVersionVector bound.metadata env.localNodeIdentity row.updatedAt
    version := 1 }

def insert : Except StorageError (Store × String) := do
  gateStorageConn store
  consultGovernancePreWrite env.toEnvironment row
  upsertStoreMerge store (localRow env row now)

inductive ConflictMode where
  | error | merge | version
  deriving DecidableEq, Repr

def maxVersionSuffix : Nat := 1024

def findByTitleNamespace (title «namespace» : String) : Option String :=
  (store.memories.findSlot (title, «namespace»)).map (·.id)

def versionedTitle (title : String) (suffix : Nat) : String := title ++ " (" ++ toString suffix ++ ")"

/-- The first free suffix wins, up to the cap. -/
def nextVersionedTitle (title «namespace» : String) : Except StorageError String :=
  if findByTitleNamespace store title «namespace» = none then .ok title
  else
    match (List.range' 2 (maxVersionSuffix - 1)).find? fun suffix =>
        findByTitleNamespace store (versionedTitle title suffix) «namespace» = none with
    | some suffix => .ok (versionedTitle title suffix)
    | none => .error (.uniqueConflict ("could not find a free versioned title for '" ++ title ++ "' in namespace '"
        ++ «namespace» ++ "' within " ++ toString maxVersionSuffix ++ " attempts"))

/-- The error policy inserts the row as it is, without the mask and the clock. -/
def insertWithConflict (mode : ConflictMode) : Except StorageError (Store × String) := do
  gateStorageConn store
  match mode with
  | .merge => insert env store row now
  | .error =>
      consultGovernancePreWrite env.toEnvironment row
      match findByTitleNamespace store row.title row.namespace with
      | some existingId => .error (.conflict existingId row.title row.namespace)
      | none =>
          plainInsert store
            { row with
              expiresAt := effectiveExpiresAt env.chrono now row
              cid := some (env.stampMemoryCid row)
              version := 1 }
            (.conflict "" row.title row.namespace)
  | .version =>
      let title ← nextVersionedTitle store row.title row.namespace
      insert env store { row with title := title } now

end Insert
end AiMemory.Storage
