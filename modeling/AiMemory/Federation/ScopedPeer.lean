import AiMemory.Federation.LaneEffects
import AiMemory.Storage.Footprint

/-
This file decides when a push changes only the namespaces of its peer.
-/

namespace AiMemory.Federation
open AiMemory.Attestation AiMemory.Crdt AiMemory.Library AiMemory.Lineage AiMemory.Machine AiMemory.Storage

section Scope

variable (env : ReceiverEnvironment) (peerHeader : Option String)

/-- The receiver does not accept the namespace from the peer. -/
def OutsideScope («namespace» : String) : Prop :=
  namespaceAllowed peerHeader «namespace» env.config env.syncTrustPeerBypass = false

instance («namespace» : String) : Decidable (OutsideScope env peerHeader «namespace») :=
  inferInstanceAs (Decidable (_ = _))

/-- An element that the receiver takes and the storage accepts writes only inside the scope. -/
def ElementInside (senderAgentId : String) (receiver : Receiver env) (stamp : Stamp env.chrono) : Element → Prop
  | .memory row => ∀ received agent ledger,
      receiveRow env.lineage (receivePolicy env receiver.toDatabase) peerHeader senderAgentId row =
        .ok (received, agent) →
      env.checkAndRecordStorageOnly receiver.ledger agent row.namespace (bytesEstimate env received) =
        .ok ledger →
      (mergeInbound env.toEnvironment receiver.toStore received stamp.now env.skewSecs).isOk →
      MergeInside (OutsideScope env peerHeader) env.toEnvironment receiver.toStore received stamp.now env.skewSecs
  | .deletion id => ∀ row ∈ receiver.memories.find id, ¬ OutsideScope env peerHeader row.namespace →
      receiver.recordStop = none →
      ∀ entry ∈ receiver.namespaceMeta, entry.standardId = some id → ¬ OutsideScope env peerHeader entry.namespace
  | .archive id => (archiveMemory env.chrono receiver.toDatabase id (some "sync_push") stamp.now).isOk →
      receiver.memories.find id ≠ none → RemovalInside (OutsideScope env peerHeader) receiver.toDatabase id ∧
        ∀ entry ∈ receiver.archivedMemories, entry.row.id = id → ¬ OutsideScope env peerHeader entry.row.namespace
  | .restore id => id ∉ receiver.forgetTombstones →
      (restoreArchived env.toWriterEnvironment receiver.toDatabase id stamp.now).isOk →
      ∀ entry ∈ receiver.archivedMemories, entry.row.id = id → ¬ OutsideScope env peerHeader entry.row.namespace
  | .link _ => True
  | .pending _ => True
  | .decision decision => decision.approved → ∀ approved,
      approveWithApproverType env.resolveGovernancePolicy receiver.toGovernedDatabase decision.id decision.decider
        (env.chrono.toRfc3339 stamp.now) .http = (approved, .approved) →
      ∀ action ∈ getPendingAction approved.pendingActions decision.id, verifyPayloadAgentId action = .ok () →
        ActionInside (OutsideScope env peerHeader) env.toGovernanceEnvironment receiver.toDatabase action
          stamp.freshId stamp.now
  | .namespaceMeta entry =>
      (setNamespaceStandard receiver.toDatabase entry.namespace entry.standardId entry.parentNamespace
        (env.chrono.toRfc3339 stamp.now)).isOk → ¬ OutsideScope env peerHeader entry.namespace
  | .namespaceMetaClear «namespace» =>
      ∀ entry ∈ receiver.namespaceMeta, entry.namespace = «namespace» → ¬ OutsideScope env peerHeader «namespace»

/-- A push goes wrong only at a well-formed element before the first refusal. -/
def TakenInside (body : SyncPushBody) (progress : PushProgress env) (taken : Element × Stamp env.chrono) : Prop :=
  progress.refused = false → wellFormed env taken.1 → body.dryRun = false →
    ElementInside env peerHeader body.senderAgentId progress.receiver taken.2 taken.1

end Scope

section Lanes

variable {env : ReceiverEnvironment} {peerHeader : Option String} {senderAgentId : String}
  {receiver : Receiver env} {stamp : Stamp env.chrono}

/-- A pushed memory inside the scope touches nothing outside it. -/
theorem untouched_pushMemory {row : Memory}
    (inside : ElementInside env peerHeader senderAgentId receiver stamp (.memory row)) :
    Untouched (OutsideScope env peerHeader) receiver.toDatabase
      (pushMemory env peerHeader senderAgentId receiver row stamp.now).1.toDatabase := by
  rcases @toDatabase_pushMemory env peerHeader senderAgentId receiver row stamp.now with
    same | ⟨received, agent, ledger, written, actualId, accepted, charged, merged, same⟩
  · rw [same]
    exact .refl _
  · obtain ⟨untouched, landed⟩ := untouched_mergeInbound merged
      (inside received agent ledger accepted charged (by rw [merged]; rfl))
    rw [same]
    refine UntouchedRows.lift ?_
    split
    · exact untouched.trans (untouched_rewriteRow _ _ _ _ _ landed)
    · exact untouched

/-- A pushed deletion inside the scope touches nothing outside it. -/
theorem untouched_pushDeletion {id : String}
    (inside : ElementInside env peerHeader senderAgentId receiver stamp (.deletion id)) :
    Untouched (OutsideScope env peerHeader) receiver.toDatabase
      (pushDeletion env peerHeader receiver id).1.toDatabase := by
  rcases @toDatabase_pushDeletion env peerHeader receiver id with same | ⟨row, found, allowed, same⟩
  · rw [same]
    exact .refl _
  · rw [same]
    refine untouched_delete fun running => ⟨fun _ other isRow => ?_, inside row found allowed running⟩
    rw [found] at isRow
    obtain rfl := Option.some.inj isRow
    exact allowed

/-- A pushed archival inside the scope touches nothing outside it. -/
theorem untouched_pushArchive {id : String}
    (inside : ElementInside env peerHeader senderAgentId receiver stamp (.archive id)) :
    Untouched (OutsideScope env peerHeader) receiver.toDatabase
      (pushArchive env receiver id stamp.now).1.toDatabase := by
  rcases @toDatabase_pushArchive env receiver id stamp.now with same | ⟨moved, archived⟩
  · rw [same]
    exact .refl _
  · exact untouched_archiveMemoryNoTx archived (inside (by rw [archived]; rfl))

/-- A pushed restoration inside the scope touches nothing outside it. -/
theorem untouched_pushRestore {id : String}
    (inside : ElementInside env peerHeader senderAgentId receiver stamp (.restore id)) :
    Untouched (OutsideScope env peerHeader) receiver.toDatabase
      (pushRestore env receiver id stamp.now).1.toDatabase := by
  rcases @toDatabase_pushRestore env receiver id stamp.now with same | ⟨forgotten, moved, restored⟩
  · rw [same]
    exact .refl _
  · exact untouched_restoreArchived restored (inside forgotten (by rw [restored]; rfl))

theorem untouched_pushLink {link : MemoryLink} :
    Untouched (OutsideScope env peerHeader) receiver.toDatabase
      (pushLink env receiver link stamp.now).1.toDatabase := by
  obtain ⟨links, same⟩ := @toDatabase_pushLink env receiver link stamp.now
  rw [same]
  exact ⟨.refl _, .refl _ _⟩

/-- A pushed decision inside the scope touches nothing outside it. -/
theorem untouched_pushDecision {decision : PendingDecision}
    (inside : ElementInside env peerHeader senderAgentId receiver stamp (.decision decision)) :
    Untouched (OutsideScope env peerHeader) receiver.toDatabase
      (pushDecision env receiver decision stamp).1.toDatabase := by
  rcases @toDatabase_pushDecision env receiver stamp decision with
    same | ⟨approves, approved, action, decided, found, verified, same⟩
  · rw [same]
    exact .refl _
  · rw [same]
    exact untouched_performAction (inside approves approved decided action found verified)

theorem untouched_pushPending {action : PendingAction} :
    Untouched (OutsideScope env peerHeader) receiver.toDatabase
      (pushPending env peerHeader senderAgentId receiver action).1.toDatabase := by
  rw [toDatabase_pushPending]
  exact .refl _

/-- A pushed standard inside the scope touches nothing outside it. -/
theorem untouched_pushNamespaceMeta {entry : NamespaceMetaEntry}
    (inside : ElementInside env peerHeader senderAgentId receiver stamp (.namespaceMeta entry)) :
    Untouched (OutsideScope env peerHeader) receiver.toDatabase
      (pushNamespaceMeta env receiver entry stamp.now).1.toDatabase := by
  rcases @toDatabase_pushNamespaceMeta env receiver entry stamp.now with same | standard
  · rw [same]
    exact .refl _
  · exact untouched_setNamespaceStandard standard (inside (by rw [standard]; rfl))

theorem untouched_pushNamespaceMetaClear {«namespace» : String}
    (inside : ElementInside env peerHeader senderAgentId receiver stamp (.namespaceMetaClear «namespace»)) :
    Untouched (OutsideScope env peerHeader) receiver.toDatabase
      (pushNamespaceMetaClear env receiver «namespace»).1.toDatabase := by
  rcases @toDatabase_pushNamespaceMetaClear env receiver «namespace» with same | same
  · rw [same]
    exact .refl _
  · rw [same]
    exact untouched_clearNamespaceStandard inside

/-- Every element inside the scope touches nothing outside it. -/
theorem untouched_applyElement {element : Element}
    (inside : ElementInside env peerHeader senderAgentId receiver stamp element) :
    Untouched (OutsideScope env peerHeader) receiver.toDatabase
      (applyElement env peerHeader senderAgentId receiver stamp element).1.toDatabase := by
  cases element with
  | memory row => exact untouched_pushMemory inside
  | deletion id => exact untouched_pushDeletion inside
  | archive id => exact untouched_pushArchive inside
  | restore id => exact untouched_pushRestore inside
  | link link => exact untouched_pushLink
  | pending action => exact untouched_pushPending
  | decision decision => exact untouched_pushDecision inside
  | namespaceMeta entry => exact untouched_pushNamespaceMeta inside
  | namespaceMetaClear «namespace» => exact untouched_pushNamespaceMetaClear inside

end Lanes

section Push

variable {env : ReceiverEnvironment}

/-- An element that is taken inside the scope touches nothing outside it. -/
theorem untouched_takeElement {peerHeader : Option String} {body : SyncPushBody} {progress : PushProgress env}
    {taken : Element × Stamp env.chrono} (inside : TakenInside env peerHeader body progress taken) :
    Untouched (OutsideScope env peerHeader) progress.receiver.toDatabase
      (takeElement env peerHeader body progress taken).receiver.toDatabase := by
  unfold takeElement
  split_ifs with refused malformed preview
  · exact .refl _
  · exact .refl _
  · exact .refl _
  · exact untouched_applyElement (inside (Bool.eq_false_of_not_eq_true refused)
      (Bool.eq_true_of_not_eq_false malformed) (Bool.eq_false_of_not_eq_true preview))

/-- A push whose elements all stay inside the scope of its peer leaves every row and every standard outside it. -/
theorem syncPush_leaves_outside (request : PushRequest) (stamps : Nat → Stamp env.chrono) (receiver : Receiver env)
    (inside : ∀ body, preflight env request = .ok body →
      EveryStep (takeElement env request.peerHeader body) (TakenInside env request.peerHeader body) ⟨receiver, []⟩
        (stampedElements env stamps body)) :
    Untouched (OutsideScope env request.peerHeader) receiver.toDatabase
      (syncPush env request stamps receiver).1.toDatabase := by
  unfold syncPush
  split
  · exact .refl _
  · rename_i body checked
    have step (progress : PushProgress env) (taken : Element × Stamp env.chrono)
        (here : TakenInside env request.peerHeader body progress taken)
        (before : Untouched (OutsideScope env request.peerHeader) receiver.toDatabase
          progress.receiver.toDatabase) :
        Untouched (OutsideScope env request.peerHeader) receiver.toDatabase
          (takeElement env request.peerHeader body progress taken).receiver.toDatabase :=
      before.trans (untouched_takeElement here)
    exact run_invariant step (inside body checked) (.refl _)

end Push

section Samples

/-- The operator lets the peer into the public namespaces. -/
def scopedReceiver : ReceiverEnvironment := openReceiver ⟨[("p", ⟨[], ["public/*"]⟩)]⟩

def secretRow : Memory := { Memory.base "secret" "2026-06-16T10:00:00+00:00" with «namespace» := "secure/ops" }

def publicRow : Memory := { Memory.base "public" "2026-06-16T10:00:00+00:00" with «namespace» := "public/a" }

def guardedReceiver : Receiver scopedReceiver where
  memories := ⟨[secretRow, publicRow], by decide, by decide⟩
  archivedMemories := []
  forgetTombstones := []
  recordStop := none
  memoryLinks := []
  archivedMemoryLinks := []
  namespaceMeta := []
  atomOf _ := none
  archivedAtomOf _ := none
  pendingActions := []
  ledger := ()

def noonStamps (_ : Nat) : Stamp scopedReceiver.chrono := ⟨(0 : Int), "fresh"⟩

/-- The peer archives one row. -/
def archivePush (id : String) : PushRequest := peerRequest "p" { emptyBody "p" with archives := [id] }

theorem scoped_namespaces : OutsideScope scopedReceiver (some "p") "secure/ops" ∧
    ¬ OutsideScope scopedReceiver (some "p") "public/a" := by decide +kernel

/-- The archive of a public row leaves the secret one. -/
theorem publicArchive_leaves_outside :
    (syncPush scopedReceiver (archivePush "public") noonStamps guardedReceiver).2.status = 200 ∧
      Untouched (OutsideScope scopedReceiver (some "p")) guardedReceiver.toDatabase
        (syncPush scopedReceiver (archivePush "public") noonStamps guardedReceiver).1.toDatabase := by
  refine ⟨rfl, syncPush_leaves_outside (archivePush "public") noonStamps guardedReceiver ?_⟩
  intro body checked
  obtain rfl := Except.ok.inj checked
  refine ⟨fun _ _ _ _ _ => ⟨⟨?_, fun entry absent => nomatch absent⟩, fun entry absent => nomatch absent⟩, trivial⟩
  intro _ row found
  obtain rfl : publicRow = row := Option.some.inj found
  exact scoped_namespaces.2

/-- The archive of a secret row is applied like any other. -/
theorem secretArchive_crosses_scope :
    scopedReceiver.config.scopeFor "p" = some ⟨[], ["public/*"]⟩ ∧
      (syncPush scopedReceiver (archivePush "secret") noonStamps guardedReceiver).2.status = 200 ∧
      OutsideScope scopedReceiver (some "p") secretRow.namespace ∧ secretRow ∈ guardedReceiver.memories.rows ∧
      secretRow ∉ (syncPush scopedReceiver (archivePush "secret") noonStamps guardedReceiver).1.memories.rows ∧
      ¬ Untouched (OutsideScope scopedReceiver (some "p")) guardedReceiver.toDatabase
        (syncPush scopedReceiver (archivePush "secret") noonStamps guardedReceiver).1.toDatabase := by
  have present : secretRow ∈ guardedReceiver.memories.rows := List.mem_cons_self
  have gone : secretRow ∉
      (syncPush scopedReceiver (archivePush "secret") noonStamps guardedReceiver).1.memories.rows := by
    intro kept
    have ids : "secret" ∈ ["public"] := List.mem_map_of_mem (f := fun row : Memory => row.id) kept
    exact absurd ids (by decide)
  refine ⟨rfl, rfl, scoped_namespaces.1, present, gone, fun untouched => ?_⟩
  exact gone ((untouched.rows.live secretRow scoped_namespaces.1).mpr present)

end Samples
end AiMemory.Federation
