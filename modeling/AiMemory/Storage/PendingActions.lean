import AiMemory.Storage.Removal

/-
This file embeds the actions that wait for an approval, and what an approved action does.
-/

namespace AiMemory.Storage
open AiMemory.Crdt AiMemory.Library AiMemory.Machine

structure Approval where
  agentId : String
  approvedAt : String
  deriving DecidableEq, Repr

structure PendingAction where
  id : String
  actionType : String
  memoryId : Option String
  «namespace» : String
  payload : Json
  requestedBy : String
  requestedAt : String
  status : String
  decidedBy : Option String
  decidedAt : Option String
  approvals : List Approval

inductive ApproverType where
  | human
  | agent (required : String)
  | consensus (quorum : Nat)
  deriving DecidableEq, Repr

structure GovernancePolicy where
  approver : ApproverType
  effectiveMaxReflectionDepth : Nat
  deriving DecidableEq, Repr

/-- The compiled policy asks a human and caps the reflections at depth three. -/
def GovernancePolicy.default : GovernancePolicy := ⟨.human, 3⟩

/-- The database with its table of pending actions. -/
structure GovernedDatabase extends Database where
  pendingActions : List PendingAction

structure ReflectInput where
  sourceIds : List String
  title : String
  content : String
  «namespace» : Option String
  tier : Tier
  tags : List String
  priority : Int
  confidence : F64
  source : String
  agentId : String
  metadata : Json

/-- Each check names what is wrong with its field. -/
structure Validators where
  validateId : String → Option String
  validateTitle : String → Option String
  validateContent : String → Option String
  validateNamespace : String → Option String
  validateSource : String → Option String
  validateTags : List String → Option String
  validatePriority : Int → Option String
  validateConfidence : F64 → Option String
  validateAgentId : String → Option String
  validateMetadata : Json → Option String
  validateCitations : List Citation → Option String
  validateSourceUri : String → Option String
  validateSourceSpan : SourceSpan → Option String
  validateLink : String → String → String → Option String

/-- An approval reads the policy of a namespace; its payload becomes a row or a reflection. -/
structure GovernanceEnvironment extends WriterEnvironment, Validators where
  resolveGovernancePolicy : Database → String → Option GovernancePolicy
  memoryFromValue : Json → Option Memory
  asF64 : Number → F64
  decorrelationWriteGate : Database → String → ReflectInput → Option String

inductive ReflectError where
  | validation (reason : String)
  | sourceNotFound (id : String)
  | depthExceeded (attempted cap : Nat) («namespace» : String)
  | decorrelationRefused (reason : String)
  | database (error : StorageError)

inductive PendingActionError where
  | storage (error : StorageError)
  | reflect (error : ReflectError)
  | notFound (pendingId : String)
  | stateInvalid (pendingId status : String)
  | approverLaundering (pendingId claimed requester : String)

section Validate

variable (validators : Validators)

/-- The first check that fails gives the message. -/
def firstFailure (checks : List (Option String)) : Option String := checks.findSome? id

def validateMemory (chrono : Chrono) (row : Memory) : Option String :=
  let dated (field text : String) : Option String :=
    if (chrono.parseFromRfc3339 text).isSome then none else some (field ++ " is not valid RFC3339")
  firstFailure [validators.validateId row.id, validators.validateTitle row.title,
    validators.validateContent row.content, validators.validateNamespace row.namespace,
    validators.validateSource row.source, validators.validateTags row.tags,
    validators.validatePriority row.priority, validators.validateConfidence row.confidence,
    if row.accessCount < 0 then some "access_count cannot be negative" else none,
    dated "created_at" row.createdAt, dated "updated_at" row.updatedAt,
    row.lastAccessedAt.bind (dated "last_accessed_at"), row.expiresAt.bind (dated "expires_at"),
    validators.validateMetadata row.metadata, validators.validateCitations row.citations,
    row.sourceUri.bind validators.validateSourceUri, row.sourceSpan.bind validators.validateSourceSpan]

/-- The sources are checked one by one, and a repeated one is refused. -/
def validateSourceIds : Nat → List String → List String → Option String
  | _, _, [] => none
  | index, seen, id :: rest =>
      let place := "source_ids[" ++ toString index ++ "]: "
      match validators.validateId id with
      | some reason => some (place ++ reason)
      | none =>
          if id ∈ seen then some (place ++ "duplicate id '" ++ id ++ "'")
          else validateSourceIds (index + 1) (id :: seen) rest

def validateReflectInput (input : ReflectInput) : Option String :=
  firstFailure [validators.validateTitle input.title, validators.validateContent input.content,
    validators.validateTags input.tags, validators.validatePriority input.priority,
    validators.validateConfidence input.confidence, validators.validateSource input.source,
    validators.validateAgentId input.agentId,
    if input.sourceIds.isEmpty then
      some "source_ids cannot be empty — a reflection must reflect on at least one source memory"
    else none,
    validateSourceIds validators 0 [] input.sourceIds, input.namespace.bind validators.validateNamespace,
    validators.validateMetadata input.metadata]

end Validate

section Standards

/-- The part of a text before the last mark. -/
def beforeLast (mark : Char) (text : String) : Option String :=
  match text.toList.reverse.dropWhile fun char => char ≠ mark with
  | [] => none
  | _ :: front => some (String.ofList front.reverse)

def getNamespaceStandard (db : Database) («namespace» : String) : Option String :=
  (db.namespaceMeta.find? fun entry => entry.namespace = «namespace»).bind NamespaceMeta.standardId

/-- Every round shortens the candidate. -/
def autoDetectParentLoop (db : Database) : Nat → String → Option String
  | 0, _ => none
  | rounds + 1, candidate =>
      match beforeLast '-' candidate with
      | none => none
      | some shorter =>
          if shorter.isEmpty then none
          else if (getNamespaceStandard db shorter).isSome then some shorter
          else autoDetectParentLoop db rounds shorter

def autoDetectParent (db : Database) («namespace» : String) : Option String :=
  autoDetectParentLoop db «namespace».length «namespace»

/-- The namespace is the primary key of the standards. -/
def upsertNamespaceMeta (table : List NamespaceMeta) (entry : NamespaceMeta) : List NamespaceMeta :=
  if table.any fun other => other.namespace = entry.namespace then
    table.map fun other => if other.namespace = entry.namespace then entry else other
  else table ++ [entry]

/-- The standard memory may live in any namespace. -/
def setNamespaceStandard (db : Database) («namespace» standardId : String) (parent : Option String)
    (now : String) : Except StorageError Database :=
  if db.memories.find standardId = none then .error (.memoryNotFound standardId none)
  else if parent = some «namespace» then
    .error (.invalidArgument "namespace cannot be its own parent")
  else
    let entry := ⟨«namespace», some standardId, parent.or (autoDetectParent db «namespace»), now⟩
    .ok { db with namespaceMeta := upsertNamespaceMeta db.namespaceMeta entry }

def clearNamespaceStandard (db : Database) («namespace» : String) : Database × Bool :=
  ({ db with namespaceMeta := db.namespaceMeta.filter fun entry => entry.namespace ≠ «namespace» },
    db.namespaceMeta.any fun entry => entry.namespace = «namespace»)

end Standards

section Promote

variable (env : WriterEnvironment)

def namespaceParent («namespace» : String) : Option String := beforeLast '/' «namespace»

def namespaceAncestorsLoop : Nat → String → List String
  | 0, _ => []
  | rounds + 1, current =>
      current :: match namespaceParent current with
        | none => []
        | some parent => if parent.isEmpty then [] else namespaceAncestorsLoop rounds parent

/-- The ancestors of a namespace start with itself. -/
def namespaceAncestors («namespace» : String) : List String :=
  if «namespace».isEmpty then [] else namespaceAncestorsLoop «namespace».length «namespace»

/-- The link funnel without a key. -/
def createLink (db : Database) (sourceId targetId relation : String) (now : env.chrono.Instant) :
    Except StorageError Database :=
  createLinkSigned { env with signLink := fun _ => none } db sourceId targetId relation now

def promotedClone (source : Memory) (toNamespace newId now : String) : Memory :=
  { source with
    id := newId
    «namespace» := toNamespace
    accessCount := 0
    createdAt := now
    updatedAt := now
    lastAccessedAt := none
    cid := none
    entityId := none
    personaVersion := none
    citations := []
    sourceUri := none
    sourceSpan := none
    confidenceSource := .callerProvided
    confidenceSignals := none
    confidenceDecayedAt := none
    version := 1
    lifecycleState := .open }

/-- The clone stays when its link is refused. -/
def promoteToNamespace (db : Database) (sourceId toNamespace newId : String) (now : env.chrono.Instant) :
    Database × Except StorageError String :=
  if toNamespace.isEmpty then (db, .error (.invalidArgument "to_namespace cannot be empty"))
  else
    match db.memories.find sourceId with
    | none => (db, .error (.memoryNotFound sourceId (some .source)))
    | some source =>
        if toNamespace = source.namespace then
          (db, .error (.invalidArgument
            ("to_namespace must be a proper ancestor of the memory's namespace (got self: " ++
              source.namespace ++ ")")))
        else if toNamespace ∉ namespaceAncestors source.namespace then
          (db, .error (.invalidArgument ("to_namespace '" ++ toNamespace ++ "' is not an ancestor of '" ++
            source.namespace ++ "'")))
        else
          match insert env db.toStore (promotedClone source toNamespace newId (env.chrono.toRfc3339 now)) now with
          | .error error => (db, .error error)
          | .ok (inserted, actualId) =>
              let cloned := { db with toStore := inserted }
              match createLink env cloned actualId sourceId "derived_from" now with
              | .error error => (cloned, .error error)
              | .ok linked => (linked, .ok actualId)

end Promote

section Reflect

variable (env : GovernanceEnvironment)

/-- The sources come back in the order of the request. -/
def loadSources (db : Database) : List String → Except ReflectError (List Memory)
  | [] => .ok []
  | id :: rest =>
      match db.memories.find id with
      | none => .error (.sourceNotFound id)
      | some row => (loadSources db rest).map fun rows => row :: rows

/-- The depth stops at the end of its machine integers. -/
def reflectionDepth (sources : List Memory) : Int :=
  min (max ((sources.map (·.reflectionDepth)).foldl max 0) 0 + 1) 2147483647

/-- The metadata of the caller wins over the block of the system. -/
def reflectionMetadata (input : ReflectInput) (depth : Int) (now : String) : Json :=
  let named := (if input.metadata.isObject then input.metadata else Json.empty).insert "agent_id"
    (.string input.agentId)
  let block := ((Json.empty.insert "reflected_on_source_ids"
    (.array input.sourceIds.length fun index => .string (input.sourceIds.get index))).insert "reflection_depth"
      (.number (.posInt depth.toNat))).insert "reflection_created_at" (.string now)
  if (named.get "reflection_metadata").isSome then named else named.insert "reflection_metadata" block

def clampConfidence (confidence : F64) : F64 :=
  if confidence < ⟨0⟩ then ⟨0⟩
  else if (⟨0x3FF0000000000000⟩ : F64) < confidence then ⟨0x3FF0000000000000⟩
  else confidence

def reflectionRow (input : ReflectInput) (target : String) (depth : Int) (newId now : String) : Memory where
  id := newId
  tier := input.tier
  «namespace» := target
  title := input.title
  content := input.content
  tags := input.tags
  priority := max 1 (min input.priority 10)
  confidence := clampConfidence input.confidence
  source := input.source
  accessCount := 0
  createdAt := now
  updatedAt := now
  lastAccessedAt := none
  expiresAt := none
  metadata := reflectionMetadata input depth now
  reflectionDepth := depth
  memoryKind := .reflection
  entityId := none
  personaVersion := none
  citations := []
  sourceUri := none
  sourceSpan := none
  confidenceSource := .callerProvided
  confidenceSignals := none
  confidenceDecayedAt := none
  version := 1
  cid := none
  lifecycleState := .open

/-- The links of a reflection go to its sources one by one. -/
def linkSources (actualId : String) (now : env.chrono.Instant) (db : Database) (sourceIds : List String) :
    Except ReflectError Database :=
  sourceIds.foldlM (fun db sourceId =>
    match env.validateLink actualId sourceId "reflects_on" with
    | some reason => .error (.validation reason)
    | none => (createLink env.toWriterEnvironment db actualId sourceId "reflects_on" now).mapError .database) db

/-- A title that is taken counts as a mistake of the caller. -/
def insertionFailure : StorageError → ReflectError
  | .conflict existingId title «namespace» => .validation
      ("reflection title collides with an existing memory in the same namespace: CONFLICT: memory with title '" ++
        title ++ "' already exists in namespace '" ++ «namespace» ++ "' (existing id: " ++ existingId ++ ")")
  | error => .database error

/-- The row and its links share one transaction. -/
def reflect (db : Database) (input : ReflectInput) (newId : String) (now : env.chrono.Instant) :
    Except ReflectError (Database × String) := do
  match validateReflectInput env.toValidators input with
  | some reason => .error (.validation reason)
  | none =>
      let sources ← loadSources db input.sourceIds
      let depth := reflectionDepth sources
      let target := input.namespace.getD ((sources.head?.map (·.namespace)).getD "")
      let cap := ((env.resolveGovernancePolicy db target).getD .default).effectiveMaxReflectionDepth
      if cap < depth.toNat then .error (.depthExceeded depth.toNat cap target)
      else
        match env.decorrelationWriteGate db target input with
        | some reason => .error (.decorrelationRefused reason)
        | none =>
            let row := reflectionRow input target depth newId (env.chrono.toRfc3339 now)
            match env.validateMetadata row.metadata with
            | some reason => .error (.validation reason)
            | none =>
                let (inserted, actualId) ←
                  (insertWithConflict env.toWriterEnvironment db.toStore row now .error).mapError
                    insertionFailure
                let linked ← linkSources env actualId now { db with toStore := inserted } input.sourceIds
                .ok (linked, actualId)

end Reflect

section Decide

/-- The identifier of the originator is the key, and a replay takes its row as it is. -/
def upsertPendingAction (table : List PendingAction) (action : PendingAction) : List PendingAction :=
  if table.any fun other => other.id = action.id then
    table.map fun other => if other.id = action.id then action else other
  else table ++ [action]

def getPendingAction (table : List PendingAction) (id : String) : Option PendingAction :=
  table.find? fun action => action.id = id

/-- Only a pending action changes its status. -/
def decidePendingAction (table : List PendingAction) (id : String) (approve : Bool) (decidedBy now : String) :
    List PendingAction × Bool :=
  (table.map fun action =>
      if action.id = id ∧ action.status = "pending" then
        { action with
          status := if approve then "approved" else "rejected"
          decidedBy := some decidedBy
          decidedAt := some now }
      else action,
    table.any fun action => action.id = id ∧ action.status = "pending")

def recordApprovals (table : List PendingAction) (id : String) (approvals : List Approval) : List PendingAction :=
  table.map fun action =>
    if action.id = id ∧ action.status = "pending" then { action with approvals := approvals } else action

def agentsNamespace : String := "_agents"

def agentRegistrationTitle (agentId : String) : String := "agent:" ++ agentId

def isRegisteredAgent (store : Store) (agentId : String) : Bool :=
  (store.memories.findSlot (agentRegistrationTitle agentId, agentsNamespace)).isSome

inductive ApproveOutcome where
  | notFound
  | rejected (reason : String)
  | pending (votes quorum : Nat)
  | approved
  deriving DecidableEq, Repr

/-- The local surface asks for a second agent only where its operator opted in. -/
inductive ApproveSurface where
  | http
  | localOperator (optedIn : Bool)
  deriving DecidableEq, Repr

def ApproveSurface.enforcesHumanGate : ApproveSurface → Bool
  | .http => true
  | .localOperator optedIn => optedIn

variable (resolveGovernancePolicy : Database → String → Option GovernancePolicy)

/-- The status is written after the check of the approver. -/
def settleApproval (db : GovernedDatabase) (pendingId decider now failure : String) :
    GovernedDatabase × ApproveOutcome :=
  let (table, decided) := decidePendingAction db.pendingActions pendingId true decider now
  ({ db with pendingActions := table }, if decided then .approved else .rejected failure)

def approveWithApproverType (db : GovernedDatabase) (pendingId approver now : String) (surface : ApproveSurface) :
    GovernedDatabase × ApproveOutcome :=
  match getPendingAction db.pendingActions pendingId with
  | none => (db, .notFound)
  | some action =>
      if action.status ≠ "pending" then (db, .rejected ("already decided: status=" ++ action.status))
      else
        match ((resolveGovernancePolicy db.toDatabase action.namespace).map (·.approver)).getD .human with
        | .human =>
            if surface.enforcesHumanGate ∧ approver = action.requestedBy then
              (db, .rejected "self-approval refused: the requester cannot approve their own Human-gated pending action")
            else if surface.enforcesHumanGate ∧ isRegisteredAgent db.toStore approver = false then
              (db, .rejected ("Human approver '" ++ approver ++ "' is not a registered agent"))
            else settleApproval db pendingId approver now "decision write failed"
        | .agent required =>
            if approver ≠ required then
              (db, .rejected ("designated approver is '" ++ required ++ "'; got '" ++ approver ++ "'"))
            else settleApproval db pendingId approver now "decision write failed"
        | .consensus quorum =>
            if isRegisteredAgent db.toStore approver = false then
              (db, .rejected ("consensus voter '" ++ approver ++ "' is not a registered agent"))
            else if action.approvals.any fun approval => approval.agentId.toLower = approver.toLower then
              (db, .pending action.approvals.length quorum)
            else
              let approvals := action.approvals ++ [⟨approver.toLower, now⟩]
              let voted := { db with
                pendingActions := recordApprovals db.pendingActions pendingId approvals }
              if quorum ≤ approvals.length then
                settleApproval voted pendingId approver.toLower now
                  "decision write failed at consensus threshold"
              else (voted, .pending approvals.length quorum)

end Decide

section Execute

variable (env : GovernanceEnvironment)

/-- The payload names its agent at the top or in its metadata. -/
def payloadAgentId (payload : Json) : Option String :=
  ((payload.get "agent_id").bind Json.asStr).or
    ((payload.get "metadata").bind fun metadata => (metadata.get "agent_id").bind Json.asStr)

def verifyPayloadAgentId (action : PendingAction) : Except PendingActionError Unit :=
  match payloadAgentId action.payload with
  | none => .ok ()
  | some claimed =>
      if claimed = action.requestedBy then .ok ()
      else .error (.approverLaundering action.id claimed action.requestedBy)

def payloadStr (payload : Json) (key : String) : Option String := (payload.get key).bind Json.asStr

def asNumber : Json → Option Number
  | .number value => some value
  | _ => none

/-- A number without a fraction that fits in 64 bits. -/
def asI64 : Number → Option Int
  | .posInt value => if value < 2 ^ 63 then some value else none
  | .negInt value => some value
  | .float _ => none

def toI32 (value : Int) : Option Int := if -2 ^ 31 ≤ value ∧ value < 2 ^ 31 then some value else none

def payloadStrings (payload : Json) (key : String) : List String :=
  match payload.get key with
  | some (.array _ items) => (List.ofFn items).filterMap Json.asStr
  | _ => []

def Tier.fromStr : String → Option Tier
  | "short" => some .short
  | "mid" => some .mid
  | "long" => some .long
  | _ => none

/-- The title and the content must be there, and every other field has a default. -/
def reflectInputOf (action : PendingAction) : Except PendingActionError ReflectInput :=
  let payload := action.payload
  let sourceIds := payloadStrings payload "source_ids"
  if sourceIds.isEmpty then
    .error (.storage (.invalidArgument "invalid reflect payload: source_ids missing or empty"))
  else
    match payloadStr payload "title", payloadStr payload "content" with
    | none, _ => .error (.storage (.invalidArgument "invalid reflect payload: title missing"))
    | some _, none => .error (.storage (.invalidArgument "invalid reflect payload: content missing"))
    | some title, some content => .ok
        { sourceIds := sourceIds
          title := title
          content := content
          «namespace» := (payloadStr payload "namespace").or (some action.namespace)
          tier := ((payloadStr payload "tier").bind Tier.fromStr).getD .mid
          tags := payloadStrings payload "tags"
          priority := (toI32 ((((payload.get "priority").bind asNumber).bind asI64).getD 5)).getD 5
          confidence := (((payload.get "confidence").bind asNumber).map env.asF64).getD ⟨0x3FF0000000000000⟩
          source := "nhi"
          agentId := (payloadStr payload "agent_id").getD action.requestedBy
          metadata := (payload.get "metadata").getD Json.empty }

/-- The approved row is stored under a fresh identifier and the time of the execution. -/
def storedAfresh (row : Memory) (newId now : String) : Memory :=
  { row with id := newId, createdAt := now, updatedAt := now, accessCount := 0 }

/-- The patch of a promotion without a target. -/
def promotionPatch : Patch where
  title := none
  content := none
  tier := some .long
  «namespace» := none
  tags := none
  priority := none
  confidence := none
  expiresAt := some ""
  metadata := none
  sourceUri := none

/-- The effect of an action on the database; a refused effect can leave a part of it. -/
def performAction (db : Database) (action : PendingAction) (newId : String) (now : env.chrono.Instant) :
    Database × Except PendingActionError (Option String) :=
  let stamp := env.chrono.toRfc3339 now
  match action.actionType with
  | "store" =>
      match env.memoryFromValue action.payload with
      | none => (db, .error (.storage (.invalidArgument "invalid store payload")))
      | some row =>
          match insert env.toWriterEnvironment db.toStore (storedAfresh row newId stamp) now with
          | .error error => (db, .error (.storage error))
          | .ok (inserted, actualId) => ({ db with toStore := inserted }, .ok (some actualId))
  | "delete" =>
      match action.memoryId with
      | none => (db, .ok none)
      | some id =>
          match delete db id with
          | (left, .error error) => (left, .error (.storage error))
          | (deleted, .ok _) => (deleted, .ok (some id))
  | "promote" =>
      match action.memoryId with
      | none => (db, .ok none)
      | some id =>
          match payloadStr action.payload "to_namespace" with
          | some toNamespace =>
              let (promoted, result) := promoteToNamespace env.toWriterEnvironment db id toNamespace newId now
              (promoted, (result.mapError .storage).map some)
          | none =>
              match updateWithExpectedVersion env.toWriterEnvironment db.toStore id promotionPatch none now with
              | .error error => (db, .error (.storage error))
              | .ok (updated, _) => ({ db with toStore := updated }, .ok (some id))
  | "reflect" =>
      match reflectInputOf env action with
      | .error error => (db, .error error)
      | .ok input =>
          match reflect env db input newId now with
          | .error error => (db, .error (.reflect error))
          | .ok (reflected, actualId) => (reflected, .ok (some actualId))
  | other => (db, .error (.storage (.invalidArgument ("unknown action_type: " ++ other))))

/-- Only an approved action is performed, and its payload must name its requester. -/
def executePendingAction (db : GovernedDatabase) (pendingId newId : String) (now : env.chrono.Instant) :
    GovernedDatabase × Except PendingActionError (Option String) :=
  match getPendingAction db.pendingActions pendingId with
  | none => (db, .error (.notFound pendingId))
  | some action =>
      if action.status ≠ "approved" then (db, .error (.stateInvalid pendingId action.status))
      else
        match verifyPayloadAgentId action with
        | .error error => (db, .error error)
        | .ok () =>
            let (performed, result) := performAction env db.toDatabase action newId now
            ({ db with toDatabase := performed }, result)

end Execute
end AiMemory.Storage
