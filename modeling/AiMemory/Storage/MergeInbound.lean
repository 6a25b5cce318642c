import AiMemory.Crdt.Inbound
import AiMemory.Storage.Store

/-
This file embeds the writers that a federated row reaches.
-/

namespace AiMemory.Storage
open AiMemory.Crdt AiMemory.Library AiMemory.Machine

section Patch

/-- The table function reads the truth values as numbers. -/
def eachValue : Json → Json
  | .bool value => .number (.posInt value.toNat)
  | other => other

/-- The object of the immutable provenance entries of a stored row. -/
def provenanceObject (metadata : Json) : Json :=
  ["agent_id", "derived_from", "consolidated_from_agents"].foldl
    (fun json key => match metadata.get key with
      | some value => json.insert key (eachValue value)
      | none => json) Json.empty

def isNull : Json → Bool
  | .null => true
  | _ => false

def objectKeys : Json → Finset String
  | .object keys _ => keys
  | _ => ∅

/-- A patch object overlays its entries, and a null entry deletes its key. -/
def jsonPatch (target patch : Json) : Json :=
  match patch with
  | .object patchKeys patchVals =>
      let deleted := patchKeys.filter fun key =>
        ((Json.object patchKeys patchVals).get key).any isNull
      .object ((objectKeys target ∪ patchKeys) \ deleted) fun key =>
        if inPatch : key.1 ∈ patchKeys then
          jsonPatch ((target.get key.1).getD .null) (patchVals ⟨key.1, inPatch⟩)
        else (target.get key.1).getD .null
  | other => other

end Patch

/-- The incoming row is newer by its time, and by its identifier among equal times. -/
def excludedWins (existing excluded : Memory) : Bool :=
  decide (existing.updatedAt < excluded.updatedAt ∨
    (excluded.updatedAt = existing.updatedAt ∧ existing.id < excluded.id))

def stickyKind (existing excluded : MemoryKind) : MemoryKind :=
  match existing with
  | .reflection => .reflection
  | .persona => .persona
  | _ => excluded

def durableTier (existing excluded : Tier) : Tier :=
  if excluded = .long then .long
  else if existing = .long then .long
  else if excluded = .mid then .mid
  else existing

/-- The conflict clause keeps the identity of the stored row and merges the other columns. -/
def newerWins (existing excluded : Memory) : Memory where
  id := existing.id
  cid := existing.cid
  title := existing.title
  «namespace» := existing.namespace
  createdAt := existing.createdAt
  lastAccessedAt := existing.lastAccessedAt
  content := pick (excludedWins existing excluded) existing.content excluded.content
  tags := pick (excludedWins existing excluded) existing.tags excluded.tags
  priority := larger existing.priority excluded.priority
  confidence := larger existing.confidence excluded.confidence
  source := pick (excludedWins existing excluded) existing.source excluded.source
  tier := durableTier existing.tier excluded.tier
  updatedAt := larger existing.updatedAt excluded.updatedAt
  accessCount := larger existing.accessCount excluded.accessCount
  expiresAt :=
    if excluded.tier = .long ∨ existing.tier = .long then none
    else excluded.expiresAt.or existing.expiresAt
  metadata :=
    jsonPatch (pick (excludedWins existing excluded) existing.metadata excluded.metadata)
      (provenanceObject existing.metadata)
  reflectionDepth := larger existing.reflectionDepth excluded.reflectionDepth
  memoryKind := stickyKind existing.memoryKind excluded.memoryKind
  entityId := existing.entityId.or excluded.entityId
  personaVersion := existing.personaVersion.or excluded.personaVersion
  citations := pick (excludedWins existing excluded) existing.citations excluded.citations
  sourceUri := excluded.sourceUri.or existing.sourceUri
  sourceSpan := excluded.sourceSpan.or existing.sourceSpan
  confidenceSource :=
    pick (excludedWins existing excluded) existing.confidenceSource excluded.confidenceSource
  confidenceSignals :=
    pick (excludedWins existing excluded) existing.confidenceSignals excluded.confidenceSignals
  confidenceDecayedAt :=
    pick (excludedWins existing excluded) existing.confidenceDecayedAt excluded.confidenceDecayedAt
  version := larger existing.version excluded.version
  lifecycleState :=
    pick (excludedWins existing excluded) existing.lifecycleState excluded.lifecycleState

@[simp] theorem newerWins_id (existing excluded : Memory) :
    (newerWins existing excluded).id = existing.id := rfl

theorem slotOf_newerWins (existing excluded : Memory) :
    slotOf (newerWins existing excluded) = slotOf existing := rfl

/-- The conflicting row stays in its own slot. -/
theorem newerWins_noClash {table : MemoryTable} {existing excluded : Memory}
    (found : table.findSlot (slotOf excluded) = some existing) :
    ∀ other ∈ table.findSlot (slotOf (newerWins existing excluded)),
      other.id = (newerWins existing excluded).id := by
  intro other otherFound
  rw [slotOf_newerWins, ((table.findSlot_eq_some_iff _ _).mp found).2, found] at otherFound
  obtain rfl := Option.some.inj otherFound
  rfl

/-- The statement inserts a new row or merges into the row of its title and namespace. -/
def upsertNewerWins (store : Store) (excluded : Memory) : Except WriteError (Store × String) :=
  match checkConstraints excluded with
  | some message => .error (.sqlite message)
  | none =>
      match slotFound : store.memories.findSlot (slotOf excluded) with
      | some existing =>
          let updated := newerWins existing excluded
          match checkConstraints updated with
          | some message => .error (.sqlite message)
          | none =>
              .ok ({ store with
                memories := store.memories.replace updated (newerWins_noClash slotFound) },
                existing.id)
      | none =>
          match idFound : store.memories.find excluded.id with
          | some _ => .error (.sqlite "UNIQUE constraint failed: memories.id")
          | none =>
              .ok ({ store with memories := store.memories.append excluded idFound slotFound },
                excluded.id)

section Receive

variable (env : Environment)

/-- The row that the statement binds is masked, and carries its expiry and its content address. -/
def boundRow (now : env.chrono.Instant) (row : Memory) : Memory :=
  let redacted := redactMemoryForStorage env.redactForStorage row
  { redacted with
    expiresAt := effectiveExpiresAt env.chrono now redacted
    cid := some (env.stampMemoryCid redacted) }

/-- The gates run before the write, and a forgotten row stays forgotten. -/
def insertIfNewer (store : Store) (row : Memory) (now : env.chrono.Instant) :
    Except WriteError (Store × String) :=
  match store.recordStop with
  | some stop => .error (.recordStopped stop)
  | none =>
      match env.governancePreWrite row with
      | some reason => .error (.governanceRefused reason)
      | none =>
          if row.id ∈ store.forgetTombstones then .ok (store, row.id)
          else upsertNewerWins store (boundRow env now row)

/-- The overwrite archives the stored row and writes every column but the content address. -/
def overwriteFullRowById (store : Store) (row : Memory) (now : env.chrono.Instant) :
    Except WriteError Store :=
  match store.memories.find row.id with
  | none => .ok store
  | some existing =>
      let written := { row with
        expiresAt := effectiveExpiresAt env.chrono now row
        cid := existing.cid }
      match checkConstraints written with
      | some message => .error (.sqlite message)
      | none =>
          if noClash : ∀ other ∈ store.memories.findSlot (slotOf written), other.id = written.id then
            .ok { store with
              memories := store.memories.replace written noClash
              archivedMemories :=
                store.archivedMemories.filter (fun archived => archived.row.id ≠ row.id) ++
                  [⟨existing, "federation_merge", env.chrono.toRfc3339 now⟩] }
          else .error (.sqlite "UNIQUE constraint failed: memories.title, memories.namespace")

/-- A stored identifier merges field by field; any other row takes the conflict clause. -/
def mergeInbound (store : Store) (inbound : Memory) (now : env.chrono.Instant) (skewSecs : Int) :
    Except WriteError (Store × String) :=
  match store.memories.find inbound.id with
  | some existing =>
      let prepared := prepareInbound env.chrono inbound (env.chrono.toRfc3339 now) skewSecs
      let merged := mergeMemory existing prepared
      (overwriteFullRowById env store merged now).map fun written => (written, merged.id)
  | none => insertIfNewer env store inbound now

end Receive
end AiMemory.Storage
