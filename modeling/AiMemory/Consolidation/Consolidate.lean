import AiMemory.Consolidation.Trust
import AiMemory.Machine.Numbers
import AiMemory.Storage.PendingActions
import Mathlib.Data.List.Dedup
import Mathlib.Data.List.Sort

/-
This file embeds the consolidation of several memories into one.
-/

namespace AiMemory.Consolidation
open AiMemory.Crdt AiMemory.Library AiMemory.Machine AiMemory.Storage

/-- The revision log can refuse its leaf for a source. -/
structure ConsolidateEnvironment extends WriterEnvironment where
  lineageDagEnabled : Bool
  appendOnlyEnabled : Bool
  emitConsolidateLeaf : Memory → Option String

/-- The arguments of one call, the identifier that it draws, its clock and the flag of the source disposition. -/
structure ConsolidateCall (env : ConsolidateEnvironment) where
  ids : List String
  title : String
  summary : String
  «namespace» : String
  tier : Tier
  source : String
  consolidatorAgentId : String
  newId : String
  now : env.chrono.Instant
  tombstoneSources : Bool

section Metadata

/-- The entries of a source win over the earlier ones, and the author of the source is left out. -/
def overlay (merged source : Json) : Json :=
  match merged, source with
  | .object mergedKeys mergedVals, .object sourceKeys sourceVals =>
      .object (mergedKeys ∪ sourceKeys.erase "agent_id") fun key =>
        if inSource : key.1 ∈ sourceKeys.erase "agent_id" then
          sourceVals ⟨key.1, Finset.mem_of_mem_erase inSource⟩
        else mergedVals ⟨key.1, (Finset.mem_union.mp key.2).resolve_right inSource⟩
  | merged, _ => merged

def jsonTexts (texts : List String) : Json := .array texts.length fun index => .string (texts.get index)

/-- Each author is listed once, in the order of the sources. -/
def sourceAgentIds (sources : List Memory) : List String :=
  sources.foldl (fun authors row => match (row.metadata.get "agent_id").bind Json.asStr with
    | some author => if author ∈ authors then authors else authors ++ [author]
    | none => authors) []

def mergedMetadata (sources : List Memory) : Json :=
  sources.foldl (fun merged row => overlay merged row.metadata) Json.empty

/-- The stamps of the call come after the merge of the sources. -/
def stampedMetadata (lineageDag : Bool) (ids : List String) (consolidatorAgentId : String)
    (sources : List Memory) : Json :=
  let derived := (mergedMetadata sources).insert "derived_from" (jsonTexts ids)
  let owned := derived.insert "agent_id" (.string consolidatorAgentId)
  let authored :=
    if (sourceAgentIds sources).isEmpty then owned
    else owned.insert "consolidated_from_agents" (jsonTexts (sourceAgentIds sources))
  if lineageDag then
    (authored.insert "derived_from_cids" (jsonTexts (sources.filterMap (·.cid)))).insert "propagated_trust"
      (.string (TrustTier.minOver (sources.map fun row => TrustTier.ofMetadata row.metadata)).asStr)
  else authored

end Metadata

section Body

variable {env : ConsolidateEnvironment} (call : ConsolidateCall env)

/-- The sources come back in the order of the call. -/
def readSources (db : Database) : List String → Except StorageError (List Memory)
  | [] => .ok []
  | id :: rest =>
      match db.memories.find id with
      | none => .error (.memoryNotFound id none)
      | some row => (readSources db rest).map fun rows => row :: rows

/-- The row that the hook sees, with the confidence of an engine. -/
def candidate (sources : List Memory) : Memory where
  id := call.newId
  tier := call.tier
  «namespace» := call.namespace
  title := call.title
  content := call.summary
  tags := ((sources.flatMap (·.tags)).insertionSort (· ≤ ·)).dedup
  priority := (sources.map (·.priority)).foldl max 5
  confidence := ⟨0x3FF0000000000000⟩
  source := call.source
  accessCount := (sources.map (·.accessCount)).foldl saturatingAdd 0
  createdAt := env.chrono.toRfc3339 call.now
  updatedAt := env.chrono.toRfc3339 call.now
  lastAccessedAt := none
  expiresAt := none
  metadata := stampedMetadata env.lineageDagEnabled call.ids call.consolidatorAgentId sources
  reflectionDepth := 0
  memoryKind := .observation
  entityId := none
  personaVersion := none
  citations := []
  sourceUri := none
  sourceSpan := none
  confidenceSource := .curatorDerived
  confidenceSignals := none
  confidenceDecayedAt := none
  version := 1
  lifecycleState := .open
  cid := none

/-- The statement binds the candidate with its expiry and its content address; it masks nothing. -/
def insertedRow (sources : List Memory) : Memory :=
  { candidate call sources with
    expiresAt := effectiveExpiresAt env.chrono call.now (candidate call sources)
    cid := some (env.stampMemoryCid (candidate call sources)) }

def consolidateTombstoneSourcesEnabled : Bool := env.lineageDagEnabled && call.tombstoneSources

def consolidateLeafEnabled : Bool := env.appendOnlyEnabled || consolidateTombstoneSourcesEnabled call

/-- The raw insertion names the index that it violates. -/
def rawInsertClash (db : Database) : StorageError :=
  if (db.memories.findSlot (call.title, call.namespace)).isSome then
    .write (.sqlite "UNIQUE constraint failed: memories.title, memories.namespace")
  else .write (.sqlite "UNIQUE constraint failed: memories.id")

def tombstone (now : String) (row : Memory) : Memory :=
  { row with lifecycleState := .tombstoned, updatedAt := now }

/-- A retained source is linked before it is taken out of the recall. -/
def retireSource (db : Database) (id : String) : Except StorageError Database := do
  let linked ← createLink env.toWriterEnvironment db call.newId id "derived_from" call.now
  .ok { linked with
    toStore := rewriteRow linked.toStore id (tombstone (env.chrono.toRfc3339 call.now)) (fun _ => rfl)
      fun _ => rfl }

def dropSource (db : Database) (id : String) : Except StorageError Database :=
  (delete db id).2.map fun _ => (delete db id).1

/-- A step that fails leaves what the steps before it wrote. -/
def disposeSources (dispose : Database → String → Except StorageError Database) :
    Database → List String → Database × Except StorageError Unit
  | db, [] => (db, .ok ())
  | db, id :: rest =>
      match dispose db id with
      | .error error => (db, .error error)
      | .ok next => disposeSources dispose next rest

def emitLeaves (sources : List Memory) : Except StorageError Unit :=
  match if consolidateLeafEnabled call then sources.findSome? env.emitConsolidateLeaf else none with
  | some reason => .error (.write (.sqlite reason))
  | none => .ok ()

/-- The body of the transaction, with what it has written when it stops. -/
def consolidateBody (db : Database) : Database × Except StorageError String :=
  match readSources db call.ids with
  | .error error => (db, .error error)
  | .ok sources =>
      if env.metadataIsValid (candidate call sources).metadata = false then
        (db, .error (.invalidArgument "merged metadata exceeds size limit"))
      else
        match consultGovernancePreWrite env.toEnvironment (candidate call sources) with
        | .error error => (db, .error error)
        | .ok () =>
            match plainInsert db.toStore (insertedRow call sources) (rawInsertClash call db) with
            | .error error => (db, .error error)
            | .ok (inserted, _) =>
                let minted := { db with toStore := inserted }
                match emitLeaves call sources with
                | .error error => (minted, .error error)
                | .ok () =>
                    let dispose :=
                      if consolidateTombstoneSourcesEnabled call then retireSource call else dropSource
                    let (disposed, result) := disposeSources dispose minted call.ids
                    (disposed, result.map fun () => call.newId)

/-- The gate comes before the transaction, and an error in its body rolls it back. -/
def consolidate (db : Database) : Database × Except StorageError String :=
  match gateStorageConn db.toStore with
  | .error error => (db, .error error)
  | .ok () =>
      match consolidateBody call db with
      | (written, .ok id) => (written, .ok id)
      | (_, .error error) => (db, .error error)

end Body
end AiMemory.Consolidation
