import AiMemory.Federation.SyncPush
import AiMemory.Links.CycleCheck
import AiMemory.Permissions.Evaluate

/-
This file embeds the checks before a new link and the calls that move links.
-/

namespace AiMemory.Links
open AiMemory.Crdt AiMemory.Federation AiMemory.Library AiMemory.Machine AiMemory.Permissions AiMemory.Storage
open Relation

section Relations

inductive MemoryLinkRelation where
  | relatedTo | supersedes | contradicts | derivedFrom | reflectsOn | derivesFrom | decomposesInto | dependsOn
  | advances
  deriving DecidableEq, Repr

def MemoryLinkRelation.asStr : MemoryLinkRelation → String
  | relatedTo => "related_to"
  | supersedes => "supersedes"
  | contradicts => "contradicts"
  | derivedFrom => "derived_from"
  | reflectsOn => "reflects_on"
  | derivesFrom => "derives_from"
  | decomposesInto => "decomposes_into"
  | dependsOn => "depends_on"
  | advances => "advances"

def MemoryLinkRelation.fromStr : String → Option MemoryLinkRelation
  | "related_to" => some relatedTo
  | "supersedes" => some supersedes
  | "contradicts" => some contradicts
  | "derived_from" => some derivedFrom
  | "reflects_on" => some reflectsOn
  | "derives_from" => some derivesFrom
  | "decomposes_into" => some decomposesInto
  | "depends_on" => some dependsOn
  | "advances" => some advances
  | _ => none

def MemoryLinkRelation.isLineage : MemoryLinkRelation → Bool
  | derivedFrom | reflectsOn | derivesFrom => true
  | _ => false

theorem MemoryLinkRelation.fromStr_asStr (relation : MemoryLinkRelation) : fromStr relation.asStr = some relation := by
  cases relation <;> rfl

def isReflection (relation : String) : Bool := relation = MemoryLinkRelation.reflectsOn.asStr

/-- A text outside of the vocabulary is no lineage relation. -/
def isLineage (relation : String) : Bool := (MemoryLinkRelation.fromStr relation).any MemoryLinkRelation.isLineage

end Relations

section Model

/-- The process also has its lineage switch and its permission rules. -/
structure LinkEnvironment extends ReceiverEnvironment where
  lineageDagEnabled : Bool
  plainChar : Char → Bool
  permissionRules : List PermissionRule
  permissionsMode : PermissionsMode

variable (env : LinkEnvironment) (db : Database)

def readCreatedAt (id : String) : Option String := (db.memories.find id).map (·.createdAt)

/-- A lineage edge points from the newer memory to the older one; what cannot be read proves nothing. -/
def lineageEdgeIsForward (chrono : Chrono) (readCreatedAt : String → Option String) (sourceId targetId : String) :
    Bool :=
  match readCreatedAt sourceId, readCreatedAt targetId with
  | some sourceAt, some targetAt =>
      match chrono.parseFromRfc3339 sourceAt, chrono.parseFromRfc3339 targetAt with
      | some source, some target => chrono.later target source
      | _, _ => false
  | _, _ => false

def forwardNeighbors (node : String) : Except Empty (List String) :=
  .ok ((db.memoryLinks.filter fun link => link.sourceId = node ∧ isReflection link.relation).map (·.targetId))

/-- The storage layer has no channel for a question. -/
def evaluateLinkPermission (linkNs sourceId targetId relation agentId : String) : Option String :=
  let payload : Json := ((Json.empty.insert "source_id" (.string sourceId)).insert "target_id"
    (.string targetId)).insert "relation" (.string relation)
  match evaluateWith env.plainChar ⟨.memoryLink, linkNs, agentId, payload⟩ [] env.permissionRules
      env.permissionsMode with
  | .allow | .modify _ => none
  | .deny reason => some ("link denied by permission rule: " ++ reason)
  | .ask prompt => some ("link denied by permission rule: ask deferred to storage layer (" ++ prompt ++ ")")

def linkReflectionCycle (sourceId targetId : String) : String :=
  "link refused: reflection cycle: " ++ sourceId ++ " --reflects_on--> " ++ targetId ++ " would close a cycle"

/-- The namespace of the source governs a link; a missing source falls back to the default namespace. -/
def linkNamespace (sourceId : String) : String := ((db.memories.find sourceId).map (·.namespace)).getD "global"

/-- The walk over the live reflections fails closed. -/
def closesReflectionCycle (sourceId targetId : String) : Bool :=
  let maxDepth := ((env.resolveGovernancePolicy db (linkNamespace db sourceId)).getD
    .default).effectiveMaxReflectionDepth
  match wouldCreateReflectionCycleWith sourceId targetId (forwardNeighbors db) maxDepth with
  | .ok result => result.wouldCycle

/-- The age of the ends is asked for local links only, and the walk runs for reflections only. -/
def validateLinkPreCreate (sourceId targetId relation agentId : String)
    (skipGovernance isFederationImport : Bool) : Option String :=
  if !isFederationImport && env.lineageDagEnabled && isLineage relation &&
      lineageEdgeIsForward env.chrono (readCreatedAt db) sourceId targetId then
    some (linkReflectionCycle sourceId targetId)
  else if isReflection relation && closesReflectionCycle env db sourceId targetId then
    some (linkReflectionCycle sourceId targetId)
  else if skipGovernance then none
  else evaluateLinkPermission env (linkNamespace db sourceId) sourceId targetId relation agentId

/-- A local link is checked for the agent of its key. -/
def localGate (agentId : String) : WriterEnvironment :=
  { env.toWriterEnvironment with
    validateLinkPreCreate := fun _ _ link =>
      validateLinkPreCreate env db link.sourceId link.targetId link.relation agentId false false }

/-- An attested link of a peer is not asked for a permission. -/
def inboundGate : ReceiverEnvironment :=
  { env.toReceiverEnvironment with
    validateInboundLink := fun db link level =>
      validateLinkPreCreate env db link.sourceId link.targetId link.relation (link.observedBy.getD "system")
        (level = "peer_attested") true }

/-- The calls that a graph of links goes through. -/
inductive LinkCall where
  | insert (row : Memory) (now : env.chrono.Instant)
  | delete (id : String)
  | createLinkSigned (sourceId targetId relation agentId : String) (now : env.chrono.Instant)
  | createLinkInbound (link : MemoryLink) (attestLevel : String) (now : env.chrono.Instant)
  | archive (id : String) (reason : Option String) (now : env.chrono.Instant)
  | restore (id : String) (now : env.chrono.Instant)

/-- A refused call leaves the database as it was, except for the standards that a failed deletion has dropped. -/
def linkStep : LinkCall env → Database
  | .insert row now =>
      ((insert env.toWriterEnvironment db.toStore row now).map fun (written, _) =>
        { db with toStore := written }).toOption.getD db
  | .delete id => (delete db id).1
  | .createLinkSigned sourceId targetId relation agentId now =>
      (createLinkSigned (localGate env db agentId) db sourceId targetId relation now).toOption.getD db
  | .createLinkInbound link attestLevel now =>
      (createLinkInbound (inboundGate env) db link attestLevel (env.chrono.toRfc3339 now)).toOption.getD db
  | .archive id reason now => ((archiveMemory env.chrono db id reason now).map (·.1)).toOption.getD db
  | .restore id now => ((restoreArchived env.toWriterEnvironment db id now).map (·.1)).toOption.getD db

end Model
end AiMemory.Links
