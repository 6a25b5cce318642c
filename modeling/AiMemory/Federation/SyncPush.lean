import AiMemory.Federation.Attribution
import AiMemory.Storage.PendingActions

/-
This file embeds the receiver of a push: its preflight checks and the lanes that write memories and standards.
-/

namespace AiMemory.Federation
open AiMemory.Attestation AiMemory.Crdt AiMemory.Library AiMemory.Lineage AiMemory.Machine AiMemory.Storage

structure PendingDecision where
  id : String
  approved : Bool
  decider : String
  deriving DecidableEq, Repr

structure NamespaceMetaEntry where
  «namespace» : String
  standardId : String
  parentNamespace : Option String
  deriving DecidableEq, Repr

/-- The lanes over other tables count only towards the caps. -/
structure SyncPushBody where
  senderAgentId : String
  senderPolicySeq : Option Int
  memories : List Memory
  embeddings : Nat
  deletions : List String
  archives : List String
  restores : List String
  links : List MemoryLink
  pendings : List PendingAction
  pendingDecisions : List PendingDecision
  signals : Nat
  actionTransitions : Nat
  checkpoints : Nat
  namespaceMeta : List NamespaceMetaEntry
  namespaceMetaClears : List String
  dryRun : Bool

/-- The request before its checks: the verdict on its signature, the body if it parses, and the identity that the
receiver takes from the headers. -/
structure PushRequest where
  peerHeader : Option String
  signatureRejected : Bool
  body : Option SyncPushBody
  localAgentId : Option String

/-- The ledger accepts a charge, is full, or cannot be read. -/
inductive Charged (Ledger : Type) where
  | ok (ledger : Ledger)
  | exceeded
  | unreadable

/-- The receiver's allowlist, switches, keys and accounts. -/
structure ReceiverEnvironment extends GovernanceEnvironment where
  lineage : Lineage.Environment
  config : PeerAttestationConfig
  syncTrustPeerBypass : Bool
  trustBodyAgentIdBypass : Bool
  requirePolicyCurrent : Bool
  localPolicySeq : Option Int
  requireWriteSig : Bool
  quarantineUnattributed : Bool
  maxPageSize : Nat
  skewSecs : Int
  agentPubkey : Store → String → Option String
  peerPublicKey : String → Option (MemoryLink → Bytes → Bool)
  validateInboundLink : Database → MemoryLink → String → Option String
  metadataBytes : Json → Nat
  Ledger : Type
  checkAndRecordStorageOnly : Ledger → String → String → Nat → Charged Ledger
  refundOp : Ledger → String → String → Nat → Ledger

structure Receiver (env : ReceiverEnvironment) extends GovernedDatabase where
  ledger : env.Ledger

/-- The instant and the fresh identifier that an element takes. -/
structure Stamp (chrono : Chrono) where
  now : chrono.Instant
  freshId : String

inductive Counter where
  | applied | deleted | archived | restored | linksApplied | pendingsApplied | pendingDecisionsApplied
  | namespaceMetaApplied | namespaceMetaCleared | noop | skipped | quotaRefused
  deriving DecidableEq, Repr

variable (env : ReceiverEnvironment)

section Memories

/-- Only a quarantined row is opened. -/
def dequarantineRow (now : String) (row : Memory) : Memory :=
  if row.lifecycleState = .quarantined then
    { row with lifecycleState := .open, updatedAt := now, version := row.version + 1 }
  else row

@[simp] theorem id_dequarantineRow (now : String) (row : Memory) : (dequarantineRow now row).id = row.id := by
  unfold dequarantineRow
  split_ifs <;> rfl

theorem slotOf_dequarantineRow (now : String) (row : Memory) : slotOf (dequarantineRow now row) = slotOf row := by
  unfold dequarantineRow
  split_ifs <;> rfl

def dequarantine (store : Store) (id now : String) : Store :=
  rewriteRow store id (dequarantineRow now) (id_dequarantineRow now) (slotOf_dequarantineRow now)

/-- What the receiver reads for an inbound row. -/
def receivePolicy (db : Database) : ReceivePolicy where
  config := env.config
  agentPubkey := env.agentPubkey db.toStore
  requireWriteSig := env.requireWriteSig
  quarantineUnattributed := env.quarantineUnattributed
  effectiveMaxReflectionDepth «namespace» :=
    ((env.resolveGovernancePolicy db «namespace»).getD .default).effectiveMaxReflectionDepth

/-- The estimate counts the bytes of the title, of the content and of the printed metadata. -/
def bytesEstimate (row : Memory) : Nat :=
  row.title.utf8ByteSize + row.content.utf8ByteSize + env.metadataBytes row.metadata

/-- A merged row loses its quarantine when its author attests it. -/
def mergeReceived (store : Store) (received : Memory) (now : env.chrono.Instant) :
    Except WriteError (Store × String) :=
  (mergeInbound env.toEnvironment store received now env.skewSecs).map fun (merged, actualId) =>
    (if rowIsAgentAttested received then dequarantine merged actualId (env.chrono.toRfc3339 now) else merged,
      actualId)

/-- One iteration of the receive loop. -/
def pushMemory (peerHeader : Option String) (senderAgentId : String) (receiver : Receiver env) (row : Memory)
    (now : env.chrono.Instant) : Receiver env × Counter :=
  match receiveRow env.lineage (receivePolicy env receiver.toDatabase) peerHeader senderAgentId row with
  | .error _ => (receiver, .skipped)
  | .ok (received, agent) =>
      match env.checkAndRecordStorageOnly receiver.ledger agent row.namespace (bytesEstimate env received) with
      | .exceeded => (receiver, .quotaRefused)
      | .unreadable => (receiver, .skipped)
      | .ok charged =>
          match mergeReceived env receiver.toStore received now with
          | .ok (merged, _) => ({ receiver with toStore := merged, ledger := charged }, .applied)
          | .error _ =>
              ({ receiver with
                ledger := env.refundOp charged agent row.namespace (bytesEstimate env received) }, .skipped)

end Memories

section Lanes

/-- A deletion asks the scope of the peer for the row that is there. -/
def pushDeletion (peerHeader : Option String) (receiver : Receiver env) (id : String) : Receiver env × Counter :=
  match receiver.memories.find id with
  | none => (receiver, .noop)
  | some row =>
      if namespaceAllowed peerHeader row.namespace env.config env.syncTrustPeerBypass = false then
        (receiver, .skipped)
      else
        match delete receiver.toDatabase id with
        | (db, .ok true) => ({ receiver with toDatabase := db }, .deleted)
        | (db, .ok false) => ({ receiver with toDatabase := db }, .noop)
        | (db, .error _) => ({ receiver with toDatabase := db }, .skipped)

def pushArchive (receiver : Receiver env) (id : String) (now : env.chrono.Instant) : Receiver env × Counter :=
  match archiveMemory env.chrono receiver.toDatabase id (some "sync_push") now with
  | .ok (db, true) => ({ receiver with toDatabase := db }, .archived)
  | .ok (db, false) => ({ receiver with toDatabase := db }, .noop)
  | .error _ => (receiver, .skipped)

/-- A peer cannot restore what was forgotten here. -/
def pushRestore (receiver : Receiver env) (id : String) (now : env.chrono.Instant) : Receiver env × Counter :=
  if id ∈ receiver.forgetTombstones then (receiver, .noop)
  else
    match restoreArchived env.toWriterEnvironment receiver.toDatabase id now with
    | .ok (db, true) => ({ receiver with toDatabase := db }, .restored)
    | .ok (db, false) => ({ receiver with toDatabase := db }, .noop)
    | .error _ => (receiver, .skipped)

/-- A link whose signature fails under an enrolled key has no level. -/
def inboundLinkLevel (link : MemoryLink) : Option String :=
  match link.signature, link.observedBy with
  | some signature, some observedBy =>
      match env.peerPublicKey observedBy with
      | some verifies => if verifies link signature then some "peer_attested" else none
      | none => some "unsigned"
  | _, _ => some "unsigned"

def createLinkInbound (db : Database) (link : MemoryLink) (attestLevel now : String) :
    Except StorageError Database :=
  match env.validateInboundLink db link attestLevel with
  | some reason => .error (.linkRefused reason)
  | none =>
      if db.memories.find link.sourceId = none then .error (.memoryNotFound link.sourceId (some .source))
      else if db.memories.find link.targetId = none then .error (.memoryNotFound link.targetId (some .target))
      else
        let landed := { link with
          createdAt := if link.createdAt.isEmpty then now else link.createdAt
          validFrom := some (link.validFrom.getD now)
          attestLevel := attestLevel }
        .ok { db with memoryLinks :=
          if db.memoryLinks.any fun other => other.key = link.key then db.memoryLinks
          else db.memoryLinks ++ [landed] }

def pushLink (receiver : Receiver env) (link : MemoryLink) (now : env.chrono.Instant) : Receiver env × Counter :=
  match inboundLinkLevel env link with
  | none => (receiver, .skipped)
  | some level =>
      match createLinkInbound env receiver.toDatabase link level (env.chrono.toRfc3339 now) with
      | .ok db => ({ receiver with toDatabase := db }, .linksApplied)
      | .error _ => (receiver, .skipped)

/-- Under an allowlist a peer queues actions only for itself and for the authors of its scope. -/
def pendingAuthorAuthorized (action : PendingAction) (senderAgentId : String) (config : PeerAttestationConfig)
    (peerId : Option String) : Bool :=
  let authorized (claimed : String) : Bool := claimed = senderAgentId || config.authorizes peerId claimed
  !config.hasAllowlist || authorized action.requestedBy &&
    ((action.payload.get "metadata").bind fun metadata => (metadata.get "agent_id").bind Json.asStr).all authorized

def pushPending (peerHeader : Option String) (senderAgentId : String) (receiver : Receiver env)
    (action : PendingAction) : Receiver env × Counter :=
  if pendingAuthorAuthorized action senderAgentId env.config peerHeader then
    ({ receiver with pendingActions := upsertPendingAction receiver.pendingActions action }, .pendingsApplied)
  else (receiver, .skipped)

/-- An approval passes the gate of the web surface and runs its action; a rejection is taken as it is. -/
def pushDecision (receiver : Receiver env) (decision : PendingDecision) (stamp : Stamp env.chrono) :
    Receiver env × Counter :=
  let now := env.chrono.toRfc3339 stamp.now
  if decision.approved then
    match approveWithApproverType env.resolveGovernancePolicy receiver.toGovernedDatabase decision.id
        decision.decider now .http with
    | (approved, .approved) =>
        let executed := (executePendingAction env.toGovernanceEnvironment approved decision.id stamp.freshId
          stamp.now).1
        ({ receiver with toGovernedDatabase := executed }, .pendingDecisionsApplied)
    | (voted, .pending _ _) => ({ receiver with toGovernedDatabase := voted }, .pendingDecisionsApplied)
    | (_, .notFound) => (receiver, .noop)
    | (_, .rejected _) => (receiver, .skipped)
  else
    match decidePendingAction receiver.pendingActions decision.id false decision.decider now with
    | (table, true) => ({ receiver with pendingActions := table }, .pendingDecisionsApplied)
    | (_, false) => (receiver, .noop)

def pushNamespaceMeta (receiver : Receiver env) (entry : NamespaceMetaEntry) (now : env.chrono.Instant) :
    Receiver env × Counter :=
  match setNamespaceStandard receiver.toDatabase entry.namespace entry.standardId entry.parentNamespace
      (env.chrono.toRfc3339 now) with
  | .ok db => ({ receiver with toDatabase := db }, .namespaceMetaApplied)
  | .error _ => (receiver, .skipped)

def pushNamespaceMetaClear (receiver : Receiver env) («namespace» : String) : Receiver env × Counter :=
  match clearNamespaceStandard receiver.toDatabase «namespace» with
  | (db, true) => ({ receiver with toDatabase := db }, .namespaceMetaCleared)
  | (_, false) => (receiver, .noop)

end Lanes

section Push

inductive Element where
  | memory (row : Memory)
  | deletion (id : String)
  | archive (id : String)
  | restore (id : String)
  | link (link : MemoryLink)
  | pending (action : PendingAction)
  | decision (decision : PendingDecision)
  | namespaceMeta (entry : NamespaceMetaEntry)
  | namespaceMetaClear («namespace» : String)

/-- The handler takes the lanes one after the other. -/
def SyncPushBody.elements (body : SyncPushBody) : List Element :=
  body.memories.map .memory ++ body.deletions.map .deletion ++ body.archives.map .archive ++
    body.restores.map .restore ++ body.links.map .link ++ body.pendings.map .pending ++
    body.pendingDecisions.map .decision ++ body.namespaceMeta.map .namespaceMeta ++
    body.namespaceMetaClears.map .namespaceMetaClear

/-- A malformed element is skipped before anything else. -/
def wellFormed : Element → Bool
  | .memory row => (validateMemory env.toValidators env.chrono row).isNone
  | .deletion id => (env.validateId id).isNone
  | .archive id => (env.validateId id).isNone
  | .restore id => (env.validateId id).isNone
  | .link link => (env.validateLink link.sourceId link.targetId link.relation).isNone
  | .pending action => (env.validateId action.id).isNone
  | .decision decision => (env.validateId decision.id).isNone
  | .namespaceMeta entry =>
      (env.validateNamespace entry.namespace).isNone && (env.validateId entry.standardId).isNone
  | .namespaceMetaClear «namespace» => (env.validateNamespace «namespace»).isNone

def applyElement (peerHeader : Option String) (senderAgentId : String) (receiver : Receiver env)
    (stamp : Stamp env.chrono) : Element → Receiver env × Counter
  | .memory row => pushMemory env peerHeader senderAgentId receiver row stamp.now
  | .deletion id => pushDeletion env peerHeader receiver id
  | .archive id => pushArchive env receiver id stamp.now
  | .restore id => pushRestore env receiver id stamp.now
  | .link link => pushLink env receiver link stamp.now
  | .pending action => pushPending env peerHeader senderAgentId receiver action
  | .decision decision => pushDecision env receiver decision stamp
  | .namespaceMeta entry => pushNamespaceMeta env receiver entry stamp.now
  | .namespaceMetaClear «namespace» => pushNamespaceMetaClear env receiver «namespace»

/-- The push so far. -/
structure PushProgress where
  receiver : Receiver env
  counted : List Counter

/-- The first refusal of the ledger ends the push. -/
def PushProgress.refused {env : ReceiverEnvironment} (progress : PushProgress env) : Bool :=
  Counter.quotaRefused ∈ progress.counted

def takeElement (peerHeader : Option String) (body : SyncPushBody) (progress : PushProgress env)
    (taken : Element × Stamp env.chrono) : PushProgress env :=
  if progress.refused then progress
  else if wellFormed env taken.1 = false then { progress with counted := progress.counted ++ [.skipped] }
  else if body.dryRun then { progress with counted := progress.counted ++ [.noop] }
  else
    let (receiver, counter) := applyElement env peerHeader body.senderAgentId progress.receiver taken.2 taken.1
    ⟨receiver, progress.counted ++ [counter]⟩

/-- Every collection has the same cap. -/
def exceedsPage (body : SyncPushBody) : Bool :=
  [body.memories.length, body.embeddings, body.deletions.length, body.archives.length, body.restores.length,
    body.pendings.length, body.signals, body.actionTransitions, body.checkpoints, body.pendingDecisions.length,
    body.namespaceMeta.length, body.namespaceMetaClears.length, body.links.length].any fun size =>
      env.maxPageSize < size

/-- A sender whose policy is known to be behind is stale. -/
def stalePolicy (body : SyncPushBody) : Bool :=
  env.requirePolicyCurrent &&
    match body.senderPolicySeq, env.localPolicySeq with
    | some senderSeq, some localSeq => senderSeq < localSeq
    | _, _ => false

/-- The checks of a parsed body, with the status of their refusal. -/
def checkBody (request : PushRequest) (body : SyncPushBody) : Except Nat SyncPushBody :=
  if !env.trustBodyAgentIdBypass &&
      !(attestSender request.peerHeader (some body.senderAgentId) env.config).isOk then .error 403
  else if stalePolicy env body then .error 409
  else if (env.validateAgentId body.senderAgentId).isSome then .error 400
  else if exceedsPage env body then .error 400
  else if request.localAgentId.isNone then .error 400
  else .ok body

/-- The checks before the first write. -/
def preflight (request : PushRequest) : Except Nat SyncPushBody :=
  if request.peerHeader.any fun peer => env.config.hasAllowlist && (env.config.scopeFor peer).isNone then .error 401
  else if request.signatureRejected then .error 401
  else
    match request.body with
    | none => .error 400
    | some body => checkBody env request body

inductive PushResponse where
  | refused (status : Nat)
  | tooManyRequests (appliedBeforeRefusal : Nat)
  | ok (counted : Counter → Nat) (dryRun : Bool)

def PushResponse.status : PushResponse → Nat
  | .refused status => status
  | .tooManyRequests _ => 429
  | .ok _ _ => 200

/-- The elements with the stamps that they take. -/
def stampedElements (stamps : Nat → Stamp env.chrono) (body : SyncPushBody) : List (Element × Stamp env.chrono) :=
  body.elements.zipIdx.map fun (element, index) => (element, stamps index)

/-- The answer counts the elements and never names one. -/
def syncPush (request : PushRequest) (stamps : Nat → Stamp env.chrono) (receiver : Receiver env) :
    Receiver env × PushResponse :=
  match preflight env request with
  | .error status => (receiver, .refused status)
  | .ok body =>
      let pushed := run (takeElement env request.peerHeader body) ⟨receiver, []⟩ (stampedElements env stamps body)
      (pushed.receiver,
        if pushed.refused then .tooManyRequests (pushed.counted.count .applied)
        else .ok (fun counter => pushed.counted.count counter) body.dryRun)

end Push

section Samples

/-- This receiver accepts every text, binds no key and has room for every charge. -/
def openReceiver (config : PeerAttestationConfig) : ReceiverEnvironment where
  toWriterEnvironment := openWriterEnvironment
  validateId _ := none
  validateTitle _ := none
  validateContent _ := none
  validateNamespace _ := none
  validateSource _ := none
  validateTags _ := none
  validatePriority _ := none
  validateConfidence _ := none
  validateAgentId _ := none
  validateMetadata _ := none
  validateCitations _ := none
  validateSourceUri _ := none
  validateSourceSpan _ := none
  validateLink _ _ _ := none
  resolveGovernancePolicy _ _ := none
  memoryFromValue _ := none
  asF64 _ := ⟨0⟩
  decorrelationWriteGate _ _ _ := none
  lineage :=
    { sha256 := digestOfTable []
      intoWriter := fun _ => none
      fromReader := fun _ => none
      urlSafeNoPadDecode := fun _ => none
      standardDecode := fun _ => none
      verifyingKeyFromBytes := fun _ => none
      chrono := openEnvironment.chrono }
  config := config
  syncTrustPeerBypass := false
  trustBodyAgentIdBypass := false
  requirePolicyCurrent := true
  localPolicySeq := none
  requireWriteSig := true
  quarantineUnattributed := false
  maxPageSize := 1000
  skewSecs := 300
  agentPubkey _ _ := none
  peerPublicKey _ := none
  validateInboundLink _ _ _ := none
  metadataBytes _ := 2
  Ledger := Unit
  checkAndRecordStorageOnly ledger _ _ _ := .ok ledger
  refundOp ledger _ _ _ := ledger

def emptyBody (senderAgentId : String) : SyncPushBody :=
  ⟨senderAgentId, none, [], 0, [], [], [], [], [], [], 0, 0, 0, [], [], false⟩

/-- The request of an enrolled peer for itself. -/
def peerRequest (peer : String) (body : SyncPushBody) : PushRequest := ⟨some peer, false, some body, some "receiver"⟩

end Samples
end AiMemory.Federation
