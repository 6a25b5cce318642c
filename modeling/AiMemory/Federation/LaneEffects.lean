import AiMemory.Federation.SyncPush

/-
This file says what each lane of a push does to the database of the receiver.
-/

namespace AiMemory.Federation
open AiMemory.Attestation AiMemory.Crdt AiMemory.Library AiMemory.Machine AiMemory.Storage

variable {env : ReceiverEnvironment} {peerHeader : Option String} {senderAgentId : String}
  {receiver : Receiver env} {stamp : Stamp env.chrono}

/-- A pushed row that is accepted and charged is merged, and an attested one leaves its quarantine. -/
theorem toDatabase_pushMemory (row : Memory) (now : env.chrono.Instant) :
    (pushMemory env peerHeader senderAgentId receiver row now).1.toDatabase = receiver.toDatabase ∨
      ∃ received agent ledger written actualId,
        receiveRow env.lineage (receivePolicy env receiver.toDatabase) peerHeader senderAgentId row =
          .ok (received, agent) ∧
        env.checkAndRecordStorageOnly receiver.ledger agent row.namespace (bytesEstimate env received) = .ok ledger ∧
        mergeInbound env.toEnvironment receiver.toStore received now env.skewSecs = .ok (written, actualId) ∧
        (pushMemory env peerHeader senderAgentId receiver row now).1.toDatabase = { receiver.toDatabase with
          toStore := if rowIsAgentAttested received then dequarantine written actualId (env.chrono.toRfc3339 now)
            else written } := by
  unfold pushMemory
  split
  · exact .inl rfl
  · rename_i received agent accepted
    split
    · exact .inl rfl
    · exact .inl rfl
    · rename_i ledger charged
      split
      · rename_i merged actualId mergedOk
        obtain ⟨⟨written, writtenId⟩, writtenOk, same⟩ := map_eq_ok.mp mergedOk
        obtain ⟨rfl, rfl⟩ := Prod.mk.inj same
        exact .inr ⟨received, agent, ledger, written, writtenId, accepted, charged, writtenOk, rfl⟩
      · exact .inl rfl

/-- A deletion inside of the scope runs, whether it succeeds or not. -/
theorem toDatabase_pushDeletion (id : String) :
    (pushDeletion env peerHeader receiver id).1.toDatabase = receiver.toDatabase ∨
      ∃ row, receiver.memories.find id = some row ∧
        ¬ namespaceAllowed peerHeader row.namespace env.config env.syncTrustPeerBypass = false ∧
        (pushDeletion env peerHeader receiver id).1.toDatabase = (delete receiver.toDatabase id).1 := by
  unfold pushDeletion
  split
  · exact .inl rfl
  · rename_i row found
    split_ifs with refused
    · exact .inl rfl
    · refine .inr ⟨row, found, refused, ?_⟩
      split <;> rename_i done <;> rw [done]

/-- The archive lane asks no scope. -/
theorem toDatabase_pushArchive (id : String) (now : env.chrono.Instant) :
    (pushArchive env receiver id now).1.toDatabase = receiver.toDatabase ∨
      ∃ moved, archiveMemory env.chrono receiver.toDatabase id (some "sync_push") now =
        .ok ((pushArchive env receiver id now).1.toDatabase, moved) := by
  unfold pushArchive
  split
  · exact .inr ⟨_, ‹_›⟩
  · exact .inr ⟨_, ‹_›⟩
  · exact .inl rfl

/-- The tombstone is asked before the archive. -/
theorem toDatabase_pushRestore (id : String) (now : env.chrono.Instant) :
    (pushRestore env receiver id now).1.toDatabase = receiver.toDatabase ∨
      id ∉ receiver.forgetTombstones ∧ ∃ moved, restoreArchived env.toWriterEnvironment receiver.toDatabase id now =
        .ok ((pushRestore env receiver id now).1.toDatabase, moved) := by
  unfold pushRestore
  split_ifs with forgotten
  · exact .inl rfl
  · split
    · exact .inr ⟨forgotten, _, ‹_›⟩
    · exact .inr ⟨forgotten, _, ‹_›⟩
    · exact .inl rfl

/-- A pushed link changes the links only. -/
theorem toDatabase_pushLink (link : MemoryLink) (now : env.chrono.Instant) :
    ∃ links, (pushLink env receiver link now).1.toDatabase = { receiver.toDatabase with memoryLinks := links } := by
  unfold pushLink
  split
  · exact ⟨receiver.memoryLinks, rfl⟩
  · split
    · rename_i linked
      unfold createLinkInbound at linked
      split at linked
      · contradiction
      · split_ifs at linked
        all_goals
          obtain rfl := Except.ok.inj linked
          exact ⟨_, rfl⟩
    · exact ⟨receiver.memoryLinks, rfl⟩

/-- A pushed action changes no memory. -/
theorem toDatabase_pushPending (action : PendingAction) :
    (pushPending env peerHeader senderAgentId receiver action).1.toDatabase = receiver.toDatabase := by
  unfold pushPending
  split_ifs <;> rfl

/-- An approval writes only the table of pending actions. -/
theorem toDatabase_approve {db approved : GovernedDatabase} {outcome : ApproveOutcome}
    {resolve : Database → String → Option GovernancePolicy} {pendingId approver now : String}
    {surface : ApproveSurface}
    (decided : approveWithApproverType resolve db pendingId approver now surface = (approved, outcome)) :
    approved.toDatabase = db.toDatabase := by
  have kept : approved = (approveWithApproverType resolve db pendingId approver now surface).1 := by rw [decided]
  rw [kept]
  unfold approveWithApproverType settleApproval
  split
  · rfl
  · split
    · rfl
    · split
      · split
        · rfl
        · split <;> rfl
      · split <;> rfl
      · split
        · rfl
        · split
          · rfl
          · dsimp only
            split <;> rfl

/-- A decision performs its action when it approves it and the payload names the requester. -/
theorem toDatabase_pushDecision (decision : PendingDecision) :
    (pushDecision env receiver decision stamp).1.toDatabase = receiver.toDatabase ∨
      decision.approved = true ∧ ∃ approved action,
        approveWithApproverType env.resolveGovernancePolicy receiver.toGovernedDatabase decision.id decision.decider
          (env.chrono.toRfc3339 stamp.now) .http = (approved, .approved) ∧
        getPendingAction approved.pendingActions decision.id = some action ∧ verifyPayloadAgentId action = .ok () ∧
        (pushDecision env receiver decision stamp).1.toDatabase =
          (performAction env.toGovernanceEnvironment receiver.toDatabase action stamp.freshId stamp.now).1 := by
  unfold pushDecision
  dsimp only
  split_ifs with approves
  · split
    · rename_i approved decided
      have same := toDatabase_approve decided
      unfold executePendingAction
      split
      · exact .inl same
      · rename_i action found
        split_ifs
        · exact .inl same
        · split
          · exact .inl same
          · rename_i verified
            refine .inr ⟨approves, approved, action, decided, found, verified, ?_⟩
            dsimp only
            rw [same]
    · rename_i decided
      exact .inl (toDatabase_approve decided)
    · exact .inl rfl
    · exact .inl rfl
  · split
    · exact .inl rfl
    · exact .inl rfl

/-- A pushed standard sets the standard of its namespace or nothing. -/
theorem toDatabase_pushNamespaceMeta (entry : NamespaceMetaEntry) (now : env.chrono.Instant) :
    (pushNamespaceMeta env receiver entry now).1.toDatabase = receiver.toDatabase ∨
      setNamespaceStandard receiver.toDatabase entry.namespace entry.standardId entry.parentNamespace
        (env.chrono.toRfc3339 now) = .ok (pushNamespaceMeta env receiver entry now).1.toDatabase := by
  unfold pushNamespaceMeta
  split
  · exact .inr ‹_›
  · exact .inl rfl

/-- A pushed clearance clears the standard of its namespace or nothing. -/
theorem toDatabase_pushNamespaceMetaClear («namespace» : String) :
    (pushNamespaceMetaClear env receiver «namespace»).1.toDatabase = receiver.toDatabase ∨
      (pushNamespaceMetaClear env receiver «namespace»).1.toDatabase =
        (clearNamespaceStandard receiver.toDatabase «namespace»).1 := by
  unfold pushNamespaceMetaClear
  split
  · rename_i removed
    exact .inr (by rw [removed])
  · exact .inl rfl

end AiMemory.Federation
