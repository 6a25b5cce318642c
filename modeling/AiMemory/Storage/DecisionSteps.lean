import AiMemory.Library.Interleaving
import AiMemory.Storage.PendingActions

/-
This file embeds the decisions over pending actions one statement at a time.
-/

namespace AiMemory.Storage
open AiMemory.Library AiMemory.Machine

section Table

variable {table : List PendingAction} {id : String}

theorem id_of_getPendingAction {action : PendingAction} (found : getPendingAction table id = some action) :
    action.id = id := by
  simpa using List.find?_some found

/-- A rewrite that keeps the identifiers rewrites the row that is found. -/
theorem getPendingAction_map (change : PendingAction → PendingAction)
    (keepsId : ∀ action, (change action).id = action.id) :
    getPendingAction (table.map change) id = (getPendingAction table id).map change := by
  unfold getPendingAction
  rw [List.find?_map]
  congr 2
  funext action
  simp only [Function.comp_apply, keepsId]

/-- A relayed action replaces the stored one. -/
theorem getPendingAction_upsert (action : PendingAction) :
    getPendingAction (upsertPendingAction table action) id =
      if id = action.id then some action else getPendingAction table id := by
  unfold upsertPendingAction
  split_ifs with known same same
  · subst same
    obtain ⟨other, present, sameId⟩ := List.any_eq_true.mp known
    have keepsId (other : PendingAction) :
        (if other.id = action.id then action else other).id = other.id := by
      split_ifs with same
      · exact same.symm
      · rfl
    rw [getPendingAction_map _ keepsId]
    cases found : getPendingAction table action.id with
    | none => exact absurd sameId (List.find?_eq_none.mp found other present)
    | some row => rw [Option.map_some, if_pos (id_of_getPendingAction found)]
  · have keepsId (other : PendingAction) :
        (if other.id = action.id then action else other).id = other.id := by
      split_ifs with same
      · exact same.symm
      · rfl
    rw [getPendingAction_map _ keepsId]
    cases found : getPendingAction table id with
    | none => rfl
    | some row =>
        have other : row.id ≠ action.id := id_of_getPendingAction found ▸ same
        rw [Option.map_some, if_neg other]
  · subst same
    have absent : table.find? (fun other => other.id = action.id) = none := by
      simpa [List.find?_eq_none] using known
    rw [getPendingAction, List.find?_append, absent]
    simp
  · rw [getPendingAction, List.find?_append, List.find?_singleton, getPendingAction]
    simp [Ne.symm same]

/-- A decision settles the row when it waits. -/
theorem getPendingAction_decide (pendingId decidedBy now : String) (approve : Bool) :
    getPendingAction (decidePendingAction table pendingId approve decidedBy now).1 id =
      (getPendingAction table id).map fun action =>
        if id = pendingId ∧ action.status = "pending" then
          { action with
            status := if approve then "approved" else "rejected"
            decidedBy := some decidedBy
            decidedAt := some now }
        else action := by
  unfold decidePendingAction
  dsimp only
  rw [getPendingAction_map _ fun action => by split_ifs <;> rfl]
  refine Option.map_congr fun action found => ?_
  rw [id_of_getPendingAction found]

/-- The recorded votes replace those of their action. -/
theorem getPendingAction_recordApprovals (pendingId : String) (approvals : List Approval) :
    getPendingAction (recordApprovals table pendingId approvals) id =
      (getPendingAction table id).map fun action =>
        if id = pendingId ∧ action.status = "pending" then { action with approvals := approvals } else action := by
  unfold recordApprovals
  rw [getPendingAction_map _ fun action => by split_ifs <;> rfl]
  refine Option.map_congr fun action found => ?_
  rw [id_of_getPendingAction found]

/-- The identifier is the primary key of the table. -/
def UniqueIds (table : List PendingAction) : Prop := (table.map (·.id)).Nodup

theorem UniqueIds.map (unique : UniqueIds table) (change : PendingAction → PendingAction)
    (keepsId : ∀ action, (change action).id = action.id) : UniqueIds (table.map change) := by
  have same : (table.map change).map (·.id) = table.map (·.id) := by
    rw [List.map_map]
    exact List.map_congr_left fun action _ => keepsId action
  rw [UniqueIds, same]
  exact unique

/-- A relayed action keeps the identifiers unique. -/
theorem UniqueIds.upsert (unique : UniqueIds table) (action : PendingAction) :
    UniqueIds (upsertPendingAction table action) := by
  unfold upsertPendingAction
  split_ifs with known
  · refine unique.map _ fun other => ?_
    split_ifs with same
    · exact same.symm
    · rfl
  · rw [UniqueIds, List.map_append]
    refine List.nodup_append.mpr ⟨unique, List.nodup_singleton _, ?_⟩
    intro present among fresh isNew same
    obtain ⟨other, inTable, rfl⟩ := List.mem_map.mp among
    rw [List.map_singleton, List.mem_singleton] at isNew
    exact known (List.any_eq_true.mpr ⟨other, inTable, decide_eq_true (same.trans isNew)⟩)

/-- A decision keeps the identifiers unique. -/
theorem UniqueIds.decide (unique : UniqueIds table) (pendingId decidedBy now : String) (approve : Bool) :
    UniqueIds (decidePendingAction table pendingId approve decidedBy now).1 :=
  unique.map _ fun action => by split_ifs <;> rfl

/-- A recorded vote keeps the identifiers unique. -/
theorem UniqueIds.recordApprovals (unique : UniqueIds table) (pendingId : String) (approvals : List Approval) :
    UniqueIds (recordApprovals table pendingId approvals) :=
  unique.map _ fun action => by split_ifs <;> rfl

/-- A decision lands exactly when the row of the identifier waits. -/
theorem decided_iff (unique : UniqueIds table) (pendingId decidedBy now : String) (approve : Bool) :
    (decidePendingAction table pendingId approve decidedBy now).2 = true ↔
      ∃ action ∈ getPendingAction table pendingId, action.status = "pending" := by
  have any : (decidePendingAction table pendingId approve decidedBy now).2 = true ↔
      ∃ action ∈ table, action.id = pendingId ∧ action.status = "pending" := by simp [decidePendingAction]
  rw [any]
  constructor
  · rintro ⟨action, present, rfl, waits⟩
    cases found : getPendingAction table action.id with
    | none => exact absurd (decide_eq_true rfl) (List.find?_eq_none.mp found action present)
    | some other =>
        have same := List.inj_on_of_nodup_map unique (List.mem_of_find?_eq_some found) present
          (id_of_getPendingAction found)
        exact ⟨other, rfl, same ▸ waits⟩
  · rintro ⟨action, found, waits⟩
    exact ⟨action, List.mem_of_find?_eq_some found, id_of_getPendingAction found, waits⟩

end Table

/-- The row of the identifier has a status. -/
def HasStatus (table : List PendingAction) (status id : String) : Prop :=
  ∃ action ∈ getPendingAction table id, action.status = status

/-- What a decision reads and writes. A namespace without a policy asks a human. -/
structure DecisionDesk where
  pendingActions : List PendingAction
  primaryKey : UniqueIds pendingActions
  approverOf : String → ApproverType
  isRegistered : String → Bool

/-- An approval holds the row that it has selected until its next statement; the human gate asks for no quorum. -/
inductive ApproveCall where
  | resolving (action : PendingAction) (approver now : String) (surface : ApproveSurface)
  | checking (action : PendingAction) (approver now : String) (quorum : Option Nat)
  | voting (action : PendingAction) (approver now : String) (quorum : Nat)
  | deciding (pendingId decider now failure : String)
  | answered (outcome : ApproveOutcome)

section Statements

variable (desk : DecisionDesk)

/-- The first statement selects the row. -/
def selectForApproval (pendingId approver now : String) (surface : ApproveSurface) : ApproveCall :=
  match getPendingAction desk.pendingActions pendingId with
  | none => .answered .notFound
  | some action =>
      if action.status ≠ "pending" then .answered (.rejected ("already decided: status=" ++ action.status))
      else .resolving action approver now surface

/-- The policy of the selected row picks the check. -/
def resolveApprover (action : PendingAction) (approver now : String) (surface : ApproveSurface) : ApproveCall :=
  match desk.approverOf action.namespace with
  | .human =>
      if surface.enforcesHumanGate then
        if approver = action.requestedBy then
          .answered (.rejected
            "self-approval refused: the requester cannot approve their own Human-gated pending action")
        else .checking action approver now none
      else .deciding action.id approver now "decision write failed"
  | .agent required =>
      if approver ≠ required then
        .answered (.rejected ("designated approver is '" ++ required ++ "'; got '" ++ approver ++ "'"))
      else .deciding action.id approver now "decision write failed"
  | .consensus quorum => .checking action approver now (some quorum)

/-- A repeated vote answers from the selected row. -/
def checkRegistered (action : PendingAction) (approver now : String) (quorum : Option Nat) : ApproveCall :=
  match quorum with
  | none =>
      if desk.isRegistered approver = false then
        .answered (.rejected ("Human approver '" ++ approver ++ "' is not a registered agent"))
      else .deciding action.id approver now "decision write failed"
  | some quorum =>
      if desk.isRegistered approver = false then
        .answered (.rejected ("consensus voter '" ++ approver ++ "' is not a registered agent"))
      else if action.approvals.any fun approval => approval.agentId.toLower = approver.toLower then
        .answered (.pending action.approvals.length quorum)
      else .voting action approver now quorum

def votesWith (action : PendingAction) (approver now : String) : List Approval :=
  action.approvals ++ [⟨approver.toLower, now⟩]

/-- The statement of a call. A vote writes back the selected votes with its own one. -/
def ApproveCall.statement (desk : DecisionDesk) : ApproveCall → DecisionDesk × ApproveCall
  | .resolving action approver now surface => (desk, resolveApprover desk action approver now surface)
  | .checking action approver now quorum => (desk, checkRegistered desk action approver now quorum)
  | .voting action approver now quorum =>
      let votes := votesWith action approver now
      ({ desk with
          pendingActions := recordApprovals desk.pendingActions action.id votes
          primaryKey := desk.primaryKey.recordApprovals action.id votes },
        if quorum ≤ votes.length then
          .deciding action.id approver.toLower now "decision write failed at consensus threshold"
        else .answered (.pending votes.length quorum))
  | .deciding pendingId decider now failure =>
      let settled := decidePendingAction desk.pendingActions pendingId true decider now
      ({ desk with
          pendingActions := settled.1
          primaryKey := desk.primaryKey.decide pendingId decider now true },
        .answered (if settled.2 then .approved else .rejected failure))
  | .answered outcome => (desk, .answered outcome)

end Statements

section Alone

variable {resolveGovernancePolicy : Database → String → Option GovernancePolicy}

/-- The desk of a database whose policies and agents nobody changes. -/
def GovernedDatabase.desk (resolveGovernancePolicy : Database → String → Option GovernancePolicy)
    (db : GovernedDatabase) (primaryKey : UniqueIds db.pendingActions) : DecisionDesk where
  pendingActions := db.pendingActions
  primaryKey := primaryKey
  approverOf «namespace» := ((resolveGovernancePolicy db.toDatabase «namespace»).map (·.approver)).getD .human
  isRegistered := isRegisteredAgent db.toStore

/-- A call that nothing interrupts. -/
def ApproveCall.alone (rounds : Nat) (state : DecisionDesk × ApproveCall) : DecisionDesk × ApproveCall :=
  (fun state : DecisionDesk × ApproveCall => state.2.statement state.1)^[rounds] state

theorem alone_succ (rounds : Nat) (desk : DecisionDesk) (call : ApproveCall) :
    ApproveCall.alone (rounds + 1) (desk, call) = ApproveCall.alone rounds (call.statement desk) := rfl

/-- An answered call stays answered. -/
theorem alone_answered (rounds : Nat) (desk : DecisionDesk) (outcome : ApproveOutcome) :
    ApproveCall.alone rounds (desk, .answered outcome) = (desk, .answered outcome) :=
  Function.iterate_fixed rfl rounds

/-- An uninterrupted decision settles the approval. -/
theorem alone_deciding (rounds : Nat) (db : GovernedDatabase) {desk : DecisionDesk}
    (same : desk.pendingActions = db.pendingActions) (pendingId decider now failure : String) :
    ∃ settled outcome,
      ApproveCall.alone (rounds + 1) (desk, .deciding pendingId decider now failure) = (settled, .answered outcome) ∧
      settleApproval db pendingId decider now failure =
        ({ db with pendingActions := settled.pendingActions }, outcome) := by
  refine ⟨_, _, (alone_succ ..).trans (alone_answered ..), ?_⟩
  rw [settleApproval, ← same]

/-- The statements of an uninterrupted call are the call. -/
theorem approve_alone (db : GovernedDatabase) (primaryKey : UniqueIds db.pendingActions)
    (pendingId approver now : String) (surface : ApproveSurface) :
    ∃ settled outcome,
      ApproveCall.alone 4 (db.desk resolveGovernancePolicy primaryKey,
          selectForApproval (db.desk resolveGovernancePolicy primaryKey) pendingId approver now surface) =
        (settled, .answered outcome) ∧
      approveWithApproverType resolveGovernancePolicy db pendingId approver now surface =
        ({ db with pendingActions := settled.pendingActions }, outcome) := by
  have refused (rounds : Nat) (outcome : ApproveOutcome) : ∃ settled answer,
      ApproveCall.alone rounds (db.desk resolveGovernancePolicy primaryKey, .answered outcome) =
        (settled, .answered answer) ∧
      (db, outcome) = ({ db with pendingActions := settled.pendingActions }, answer) :=
    ⟨_, outcome, alone_answered .., rfl⟩
  unfold selectForApproval approveWithApproverType
  rw [show (db.desk resolveGovernancePolicy primaryKey).pendingActions = db.pendingActions from rfl]
  cases found : getPendingAction db.pendingActions pendingId with
  | none => exact refused 4 _
  | some action =>
      obtain rfl : action.id = pendingId := id_of_getPendingAction found
      dsimp only
      by_cases waits : action.status ≠ "pending"
      · rw [if_pos waits, if_pos waits]
        exact refused 4 _
      rw [if_neg waits, if_neg waits, alone_succ, ApproveCall.statement, resolveApprover]
      rw [show (db.desk resolveGovernancePolicy primaryKey).approverOf action.namespace =
        ((resolveGovernancePolicy db.toDatabase action.namespace).map (·.approver)).getD .human from rfl]
      cases ((resolveGovernancePolicy db.toDatabase action.namespace).map (·.approver)).getD .human with
      | human =>
          dsimp only
          by_cases gated : surface.enforcesHumanGate
          · simp only [gated, true_and, if_true]
            by_cases own : approver = action.requestedBy
            · rw [if_pos own, if_pos own]
              exact refused 3 _
            · rw [if_neg own, if_neg own, alone_succ, ApproveCall.statement, checkRegistered]
              rw [show (db.desk resolveGovernancePolicy primaryKey).isRegistered approver =
                isRegisteredAgent db.toStore approver from rfl]
              split_ifs
              · exact refused 2 _
              · exact alone_deciding 1 db rfl ..
          · simp only [gated, false_and, if_false, Bool.false_eq_true]
            exact alone_deciding 2 db rfl ..
      | agent required =>
          dsimp only
          split_ifs
          · exact refused 3 _
          · exact alone_deciding 2 db rfl ..
      | consensus quorum =>
          rw [alone_succ, ApproveCall.statement, checkRegistered]
          rw [show (db.desk resolveGovernancePolicy primaryKey).isRegistered approver =
            isRegisteredAgent db.toStore approver from rfl]
          dsimp only
          by_cases known : isRegisteredAgent db.toStore approver = false
          · rw [if_pos known, if_pos known]
            exact refused 2 _
          rw [if_neg known, if_neg known]
          by_cases voted : (action.approvals.any fun approval =>
              approval.agentId.toLower = approver.toLower) = true
          · rw [if_pos voted, if_pos voted]
            exact refused 2 _
          rw [if_neg voted, if_neg voted, alone_succ, ApproveCall.statement]
          simp only [← show votesWith action approver now = action.approvals ++ [⟨approver.toLower, now⟩] from rfl]
          by_cases enough : quorum ≤ (votesWith action approver now).length
          · simp only [if_pos enough]
            exact alone_deciding 0 { db with
              pendingActions := recordApprovals db.pendingActions action.id (votesWith action approver now) } rfl ..
          · simp only [if_neg enough]
            exact ⟨_, _, rfl, rfl⟩

end Alone

section Execution

/-- The action that an execution performs. -/
def selectForExecution (table : List PendingAction) (pendingId : String) : Except PendingActionError PendingAction :=
  match getPendingAction table pendingId with
  | none => .error (.notFound pendingId)
  | some action =>
      if action.status ≠ "approved" then .error (.stateInvalid pendingId action.status)
      else (verifyPayloadAgentId action).map fun _ => action

/-- An execution is its selection followed by its action. -/
theorem executePendingAction_eq (env : GovernanceEnvironment) (db : GovernedDatabase) (pendingId newId : String)
    (now : env.chrono.Instant) :
    executePendingAction env db pendingId newId now =
      match selectForExecution db.pendingActions pendingId with
      | .error error => (db, .error error)
      | .ok action =>
          let performed := performAction env db.toDatabase action newId now
          ({ db with toDatabase := performed.1 }, performed.2) := by
  unfold executePendingAction selectForExecution
  cases getPendingAction db.pendingActions pendingId with
  | none => rfl
  | some action =>
      dsimp only
      split_ifs
      · rfl
      · cases verifyPayloadAgentId action <;> rfl

/-- What is selected for execution is approved. -/
theorem approved_of_selectForExecution {table : List PendingAction} {pendingId : String} {action : PendingAction}
    (selected : selectForExecution table pendingId = .ok action) :
    getPendingAction table pendingId = some action ∧ action.status = "approved" := by
  unfold selectForExecution at selected
  cases found : getPendingAction table pendingId with
  | none => simp [found] at selected
  | some other =>
      simp only [found] at selected
      split_ifs at selected with waits
      obtain ⟨_, _, rfl⟩ := map_eq_ok.mp selected
      exact ⟨rfl, not_not.mp waits⟩

end Execution
end AiMemory.Storage
