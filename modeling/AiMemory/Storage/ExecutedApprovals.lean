import AiMemory.Library.Run
import AiMemory.Storage.ActionEffect
import AiMemory.Storage.DecisionSteps

/-
This file decides which executions of an approved action change rows, and where.
-/

namespace AiMemory.Storage
open AiMemory.Crdt AiMemory.Library AiMemory.Machine

/-- The run remembers the namespace whose policy an approval asked, and the actions that have succeeded. -/
structure ApprovalState extends GovernedDatabase where
  consulted : List (String × String)
  succeeded : List String

/-- A queued action is an upsert under a fresh identifier; the other writers may change the database in any way. -/
inductive ApprovalStep (env : GovernanceEnvironment) where
  | upsert (action : PendingAction)
  | approve (pendingId approver now : String) (surface : ApproveSurface)
  | execute (pendingId newId : String) (now : env.chrono.Instant)
  | store (change : Database → Database)

section Step

variable (env : GovernanceEnvironment)

def upsertState (state : ApprovalState) (action : PendingAction) : ApprovalState :=
  { state with pendingActions := upsertPendingAction state.pendingActions action }

/-- An approval that lands has asked the policy of the row's namespace. -/
def approveState (state : ApprovalState) (pendingId approver now : String) (surface : ApproveSurface) :
    ApprovalState :=
  let settled := approveWithApproverType env.resolveGovernancePolicy state.toGovernedDatabase pendingId approver now
    surface
  let asked := (getPendingAction state.pendingActions pendingId).map fun action => (pendingId, action.namespace)
  { state with
    toGovernedDatabase := settled.1
    consulted := if settled.2 = .approved then asked.toList ++ state.consulted else state.consulted }

def executeState (state : ApprovalState) (pendingId newId : String) (now : env.chrono.Instant) : ApprovalState :=
  let executed := executePendingAction env state.toGovernedDatabase pendingId newId now
  { state with
    toGovernedDatabase := executed.1
    succeeded := if executed.2.isOk then pendingId :: state.succeeded else state.succeeded }

def approvalStep (state : ApprovalState) : ApprovalStep env → ApprovalState
  | .upsert action => upsertState state action
  | .approve pendingId approver now surface => approveState env state pendingId approver now surface
  | .execute pendingId newId now => executeState env state pendingId newId now
  | .store change => { state with toDatabase := change state.toDatabase }

end Step

section Once

variable {env : GovernanceEnvironment} {db : Database} {action : PendingAction} {newId : String}
  {now : env.chrono.Instant} {«namespace» : String}

/-- The clone of a vertical promotion is stored and its link to the source is refused. -/
def CloneUnlinked (env : GovernanceEnvironment) (db : Database) (action : PendingAction) (newId : String)
    (now : env.chrono.Instant) : Prop :=
  action.actionType = "promote" ∧ ∃ id ∈ action.memoryId, ∃ toNamespace,
    payloadStr action.payload "to_namespace" = some toNamespace ∧ ∃ source ∈ db.memories.find id,
      ∃ inserted actualId,
        insert env.toWriterEnvironment db.toStore
          (promotedClone source toNamespace newId (env.chrono.toRfc3339 now)) now = .ok (inserted, actualId) ∧
        ¬ LinkAccepted env.toWriterEnvironment inserted db.memoryLinks actualId id "derived_from" now

/-- What an action of a vertical promotion leaves unlinked is the clone that its payload names. -/
theorem cloneUnlinked_iff {id toNamespace : String} (kind : action.actionType = "promote")
    (named : action.memoryId = some id) (given : payloadStr action.payload "to_namespace" = some toNamespace) :
    CloneUnlinked env db action newId now ↔ ∃ source ∈ db.memories.find id, ∃ inserted actualId,
      insert env.toWriterEnvironment db.toStore
        (promotedClone source toNamespace newId (env.chrono.toRfc3339 now)) now = .ok (inserted, actualId) ∧
      ¬ LinkAccepted env.toWriterEnvironment inserted db.memoryLinks actualId id "derived_from" now := by
  constructor
  · rintro ⟨_, other, otherNamed, target, otherGiven, rest⟩
    obtain rfl := Option.some.inj (given.symm.trans otherGiven)
    obtain rfl := Option.some.inj (named.symm.trans otherNamed)
    exact rest
  · intro rest
    exact ⟨kind, id, named, toNamespace, given, rest⟩

/-- A vertical promotion succeeds when the link of its clone does. -/
theorem promoteToNamespace_isOk_iff {env : WriterEnvironment} {sourceId toNamespace : String}
    {now : env.chrono.Instant} (promotes : Promotes env db sourceId toNamespace newId now) :
    (promoteToNamespace env db sourceId toNamespace newId now).2.isOk = true ↔
      ¬ ∃ source ∈ db.memories.find sourceId, ∃ inserted actualId,
        insert env db.toStore (promotedClone source toNamespace newId (env.chrono.toRfc3339 now)) now =
          .ok (inserted, actualId) ∧ ¬ LinkAccepted env inserted db.memoryLinks actualId sourceId
              "derived_from" now := by
  obtain ⟨named, source, found, differs, ancestor, insertable⟩ := promotes
  obtain ⟨written, actualId, inserted, _⟩ := insert_ok insertable
  rw [promoteToNamespace_eq found named differs ancestor inserted]
  cases linked : createLink env { db with toStore := written } actualId sourceId "derived_from" now with
  | error error =>
      refine iff_of_false Bool.false_ne_true (not_not.mpr ?_)
      refine ⟨source, found, written, actualId, inserted, fun accepted => ?_⟩
      cases linked.symm.trans (createLink_eq_ok.mpr ⟨accepted, rfl⟩)
  | ok linkedDb =>
      refine iff_of_true rfl ?_
      rintro ⟨other, otherFound, otherStore, otherId, otherInserted, refused⟩
      obtain rfl := Option.some.inj ((Option.mem_def.mp found).symm.trans (Option.mem_def.mp otherFound))
      obtain ⟨rfl, rfl⟩ := Prod.mk.inj (Except.ok.inj (inserted.symm.trans otherInserted))
      exact refused (createLink_eq_ok.mp linked).1

/-- An action that changes rows succeeds, unless it leaves a clone without its link. -/
theorem performAction_isOk_iff (acts : ActsAt env db action newId now «namespace») :
    (performAction env db action newId now).2.isOk = true ↔ ¬ CloneUnlinked env db action newId now := by
  have other (kind : String) (is : action.actionType = kind) (isOther : kind ≠ "promote") :
      ¬ CloneUnlinked env db action newId now := fun unlinked => isOther (is.symm.trans unlinked.1)
  have changed := performAction_acts acts
  rcases performAction_cases env db action newId now with
    same | ⟨_, _, _, kind, _, _, done⟩ | ⟨id, kind, named, done⟩ | ⟨id, toNamespace, kind, named, given, done⟩ |
      ⟨_, _, _, _, _, absent, _, done⟩ | ⟨_, _, _, kind, _, _, done⟩
  · rw [same] at changed
    exact absurd (.refl _ _) changed.changes
  · rw [done]
    exact iff_of_true rfl (other "store" kind (by decide))
  · unfold ActsAt at acts
    simp only [kind] at acts
    obtain ⟨target, targetNamed, row, found, _, running, removes⟩ := acts
    obtain rfl := Option.some.inj (named.symm.trans targetNamed)
    obtain ⟨deleted, deletedOk, _⟩ := delete_ok running found removes
    rw [done, deletedOk]
    exact iff_of_true rfl (other "delete" kind (by decide))
  · unfold ActsAt at acts
    simp only [kind, given] at acts
    obtain ⟨other, otherNamed, _, promotes⟩ := acts
    obtain rfl := Option.some.inj (named.symm.trans otherNamed)
    rw [cloneUnlinked_iff kind named given, ← promoteToNamespace_isOk_iff promotes, done]
    dsimp only
    cases (promoteToNamespace env.toWriterEnvironment db id toNamespace newId now).2 <;> rfl
  · rw [done]
    refine iff_of_true rfl ?_
    rintro ⟨_, _, _, _, present, _⟩
    exact absurd (absent.symm.trans present) (by simp)
  · rw [done]
    exact iff_of_true rfl (other "reflect" kind (by decide))

/-- The rows and the links stay. -/
def LeavesAlone (before after : Database) : Prop :=
  after.memories = before.memories ∧ after.memoryLinks = before.memoryLinks

/-- An execution acts nowhere, or it is the first success and its clone is linked. -/
def SpendsOnce (env : GovernanceEnvironment) (state : ApprovalState) : ApprovalStep env → Prop
  | .execute pendingId newId now => ∀ action, selectForExecution state.pendingActions pendingId = .ok action →
      (∀ «namespace», ¬ ActsAt env state.toDatabase action newId now «namespace») ∨
        pendingId ∉ state.succeeded ∧ ¬ CloneUnlinked env state.toDatabase action newId now
  | _ => True

/-- An execution leaves the rows and the links alone, or it is the first success. -/
def ChangesOnce (env : GovernanceEnvironment) (state : ApprovalState) : ApprovalStep env → Prop
  | .execute pendingId newId now =>
      LeavesAlone state.toDatabase (executeState env state pendingId newId now).toDatabase ∨
        pendingId ∉ state.succeeded ∧ pendingId ∈ (executeState env state pendingId newId now).succeeded
  | _ => True

/-- An execution spends its approval once exactly when it changes the rows and the links once. -/
theorem changesOnce_iff (env : GovernanceEnvironment) (state : ApprovalState) (step : ApprovalStep env) :
    SpendsOnce env state step ↔ ChangesOnce env state step := by
  cases step with
  | upsert => exact Iff.rfl
  | approve => exact Iff.rfl
  | store => exact Iff.rfl
  | execute pendingId newId now =>
      unfold SpendsOnce ChangesOnce executeState
      dsimp only
      rw [executePendingAction_eq]
      cases selected : selectForExecution state.pendingActions pendingId with
      | error error => exact iff_of_true (fun _ absent => by cases absent) (.inl ⟨rfl, rfl⟩)
      | ok action =>
          dsimp only
          by_cases idle : ∀ «namespace», ¬ ActsAt env state.toDatabase action newId now «namespace»
          · refine iff_of_true (fun other same => .inl ?_) (.inl (performAction_idle idle))
            obtain rfl := Except.ok.inj same
            exact idle
          · obtain ⟨«namespace», acts⟩ := not_forall_not.mp idle
            have changed := (performAction_acts acts).ne
            rw [or_iff_right fun same : LeavesAlone _ _ => changed same.1]
            have succeeds := performAction_isOk_iff acts
            constructor
            · intro spends
              obtain ⟨first, linked⟩ := (spends action rfl).resolve_left idle
              refine ⟨first, ?_⟩
              rw [if_pos (succeeds.mpr linked)]
              exact List.mem_cons_self
            · rintro ⟨first, success⟩ other same
              obtain rfl := Except.ok.inj same
              refine .inr ⟨first, succeeds.mp ?_⟩
              by_contra failed
              rw [if_neg failed] at success
              exact first success

/-- An approval is spent once over a run exactly when each of its executions acts nowhere or is the first success. -/
theorem approval_spent_once_iff (env : GovernanceEnvironment) (start : ApprovalState)
    (steps : List (ApprovalStep env)) :
    EveryStep (approvalStep env) (SpendsOnce env) start steps ↔
      EveryStep (approvalStep env) (ChangesOnce env) start steps :=
  @EveryStep.congr_of_invariant _ _ _ _ _ (fun _ => True) (fun state step _ => changesOnce_iff env state step)
    (fun _ _ _ _ => trivial) start steps trivial

end Once

section Place

variable {env : GovernanceEnvironment} {db : Database} {action : PendingAction} {newId : String}
  {now : env.chrono.Instant}

/-- The namespace whose policy approved the action, or its own one when no approval was asked. -/
def governingNamespace (state : ApprovalState) (action : PendingAction) : String :=
  (state.consulted.lookup action.id).getD action.namespace

/-- The vertical promotion of the action goes to the namespace. -/
def PromotesTo (action : PendingAction) («namespace» : String) : Prop :=
  action.actionType = "promote" ∧ payloadStr action.payload "to_namespace" = some «namespace»

/-- Neither the approved namespace nor the target of a vertical promotion. -/
def OutsideApproval (state : ApprovalState) (action : PendingAction) («namespace» : String) : Prop :=
  «namespace» ≠ governingNamespace state action ∧ ¬ PromotesTo action «namespace»

/-- The rows that an executed action reaches are in the namespace that approved it. -/
def ReachesApproved (env : GovernanceEnvironment) (state : ApprovalState) : ApprovalStep env → Prop
  | .execute pendingId newId now => ∀ action, selectForExecution state.pendingActions pendingId = .ok action →
      ∀ «namespace», ActsAt env state.toDatabase action newId now «namespace» →
        «namespace» = governingNamespace state action ∨ PromotesTo action «namespace»
  | _ => True

/-- An execution changes, creates and deletes no row outside the approved namespace. -/
def StaysApproved (env : GovernanceEnvironment) (state : ApprovalState) : ApprovalStep env → Prop
  | .execute pendingId newId now => ∀ action ∈ getPendingAction state.pendingActions pendingId,
      SameRows (fun row : Memory => OutsideApproval state action row.namespace) state.memories.rows
        (executeState env state pendingId newId now).memories.rows
  | _ => True

/-- A change of one namespace keeps the rows outside exactly when that namespace is not outside. -/
theorem ChangesOnly.sameRows_iff {before after : MemoryTable} {«namespace» : String} {outside : String → Prop}
    (changed : ChangesOnly «namespace» before after) :
    SameRows (fun row : Memory => outside row.namespace) before.rows after.rows ↔ ¬ outside «namespace» := by
  constructor
  · intro same isOutside
    refine changed.changes fun row (placed : row.namespace = «namespace») => same row ?_
    show outside row.namespace
    rw [placed]
    exact isOutside
  · intro inside row isOutside
    refine changed.others row fun placed => inside ?_
    rw [← placed]
    exact isOutside

/-- An execution reaches approved namespaces only exactly when it stays within the approval. -/
theorem staysApproved_iff (env : GovernanceEnvironment) (state : ApprovalState) (step : ApprovalStep env) :
    ReachesApproved env state step ↔ StaysApproved env state step := by
  cases step with
  | upsert => exact Iff.rfl
  | approve => exact Iff.rfl
  | store => exact Iff.rfl
  | execute pendingId newId now =>
      unfold ReachesApproved StaysApproved executeState
      dsimp only
      rw [executePendingAction_eq]
      cases selected : selectForExecution state.pendingActions pendingId with
      | error error => exact iff_of_true (fun _ absent => by cases absent) fun _ _ => .refl _ _
      | ok action =>
          obtain ⟨found, _⟩ := approved_of_selectForExecution selected
          have inside («namespace» : String) :
              («namespace» = governingNamespace state action ∨ PromotesTo action «namespace») ↔
                ¬ OutsideApproval state action «namespace» := by
            rw [OutsideApproval, not_and_or, not_not, not_not]
          rw [found]
          dsimp only
          constructor
          · intro reaches other same
            obtain rfl := Option.some.inj same
            by_cases idle : ∀ «namespace», ¬ ActsAt env state.toDatabase action newId now «namespace»
            · rw [(performAction_idle idle).1]
              exact .refl _ _
            · obtain ⟨«namespace», acts⟩ := not_forall_not.mp idle
              exact (performAction_acts acts).sameRows_iff.mpr ((inside _).mp (reaches action rfl _ acts))
          · intro stays other same «namespace» acts
            obtain rfl := Except.ok.inj same
            exact (inside _).mpr ((performAction_acts acts).sameRows_iff.mp (stays action rfl))

/-- Executions stay in the approved namespaces over a run exactly when each of them reaches only rows of the
namespace that approved it. -/
theorem execution_stays_approved_iff (env : GovernanceEnvironment) (start : ApprovalState)
    (steps : List (ApprovalStep env)) :
    EveryStep (approvalStep env) (ReachesApproved env) start steps ↔
      EveryStep (approvalStep env) (StaysApproved env) start steps :=
  @EveryStep.congr_of_invariant _ _ _ _ _ (fun _ => True) (fun state step _ => staysApproved_iff env state step)
    (fun _ _ _ _ => trivial) start steps trivial

end Place

section Samples

/-- A node without hooks and policies. -/
def openGovernance : GovernanceEnvironment where
  toWriterEnvironment := openWriterEnvironment
  validateId _ := none
  validateTitle _ := none
  validateContent _ := none
  validateNamespace _ := none
  validateSource _ := none
  validateTags _ := none
  validatePriority _ := none
  validateConfidence _ := none
  validateAgentId _ := none
  validateMetadata _ := none
  validateCitations _ := none
  validateSourceUri _ := none
  validateSourceSpan _ := none
  validateLink _ _ _ := none
  resolveGovernancePolicy _ _ := none
  memoryFromValue _ := none
  asF64 _ := ⟨0⟩
  decorrelationWriteGate _ _ _ := none

def financeRow : Memory := { Memory.base "m1" "2026-06-16T10:00:00+00:00" with «namespace» := "finance" }

/-- The row of another namespace is named by an action of the team. -/
def teamAction (actionType : String) : PendingAction where
  id := "p1"
  actionType := actionType
  memoryId := some "m1"
  «namespace» := "team"
  payload := Json.empty
  requestedBy := "alice"
  requestedAt := "2026-06-16T11:00:00+00:00"
  status := "pending"
  decidedBy := none
  decidedAt := none
  approvals := []

def teamState (actionType : String) : ApprovalState where
  memories := ⟨[financeRow], by decide, by decide⟩
  archivedMemories := []
  forgetTombstones := []
  recordStop := none
  memoryLinks := []
  archivedMemoryLinks := []
  namespaceMeta := []
  atomOf _ := none
  archivedAtomOf _ := none
  pendingActions := [teamAction actionType]
  consulted := []
  succeeded := []

def approvesTeam : ApprovalStep openGovernance :=
  .approve "p1" "bob" "2026-06-16T11:30:00+00:00" (.localOperator false)

def executesTeam (newId : String) : ApprovalStep openGovernance := .execute "p1" newId (0 : Int)

/-- The second execution of a promotion writes its row again. -/
theorem promotion_executes_twice :
    ¬ EveryStep (approvalStep openGovernance) (ChangesOnce openGovernance) (teamState "promote")
      [approvesTeam, executesTeam "n1", executesTeam "n2"] := by
  rintro ⟨_, _, second, _⟩
  rcases second with alone | first
  · have versions := congrArg (fun table : MemoryTable => table.rows.map (·.version)) alone.1
    exact absurd versions (by decide)
  · exact first.1 (by decide)

/-- An action that the team approved deletes a row of another namespace. -/
theorem team_deletes_finance :
    ¬ EveryStep (approvalStep openGovernance) (StaysApproved openGovernance) (teamState "delete")
      [approvesTeam, executesTeam "n1"] := by
  rintro ⟨_, stays, _⟩
  have same := (stays _ rfl financeRow ⟨by decide, fun promotes => absurd promotes.1 (by decide)⟩).mpr
    List.mem_cons_self
  exact absurd (List.mem_map_of_mem (f := fun row : Memory => row.id) same) (by decide)

end Samples
end AiMemory.Storage
