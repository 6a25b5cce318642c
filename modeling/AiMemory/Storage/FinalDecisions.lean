import AiMemory.Storage.DecisionSteps

/-
This file decides when a decision is final and when its audit tells the truth.
-/

namespace AiMemory.Storage
open AiMemory.Crdt AiMemory.Library AiMemory.Machine

/-- An audit row carries the row that was read for it. -/
structure DecisionAudit where
  eventType : String
  action : PendingAction
  decidedBy : Option String

structure AuditedDesk extends DecisionDesk where
  audits : List DecisionAudit

/-- A started call waits for its next statement; the sweeper audits its candidates one by one. -/
inductive DecisionCall where
  | approving (call : ApproveCall)
  | denied (pendingId decidedBy : String)
  | expiring (candidates : List String)
  | timedOut (candidates : List String)
  | auditing (eventType : String) (action : PendingAction) (decidedBy : Option String) (candidates : List String)
  | finished

/-- The sweeper takes any test of age; a policy or a registration may change at any time. -/
inductive DecisionRequest where
  | upsert (action : PendingAction)
  | decide (pendingId : String) (approve : Bool) (decidedBy now : String)
  | approve (pendingId approver now : String) (surface : ApproveSurface)
  | sweep (overdue : PendingAction → Bool)
  | govern (approverOf : String → ApproverType) (isRegistered : String → Bool)

section Statements

def deniedEvent : String := "pending_action.denied"
def timedOutEvent : String := "pending_action.timed_out"

/-- The first statement of a call. -/
def enterDecision (request : DecisionRequest) (desk : AuditedDesk) : AuditedDesk × DecisionCall :=
  match request with
  | .upsert action =>
      ({ desk with
          pendingActions := upsertPendingAction desk.pendingActions action
          primaryKey := desk.primaryKey.upsert action }, .finished)
  | .decide pendingId approve decidedBy now =>
      let settled := decidePendingAction desk.pendingActions pendingId approve decidedBy now
      ({ desk with
          pendingActions := settled.1
          primaryKey := desk.primaryKey.decide pendingId decidedBy now approve },
        if settled.2 && !approve then .denied pendingId decidedBy else .finished)
  | .approve pendingId approver now surface =>
      (desk, .approving (selectForApproval desk.toDecisionDesk pendingId approver now surface))
  | .sweep overdue =>
      (desk, .expiring ((desk.pendingActions.filter fun action =>
        action.status = "pending" && overdue action).map (·.id)))
  | .govern approverOf isRegistered =>
      ({ desk with approverOf := approverOf, isRegistered := isRegistered }, .finished)

/-- The sweeper flips the candidates that still wait. -/
def expireCandidates (table : List PendingAction) (candidates : List String) : List PendingAction :=
  table.map fun action =>
    if action.id ∈ candidates ∧ action.status = "pending" then { action with status := "expired" } else action

/-- The row of an audit is read again, and a missing row is passed over. -/
def DecisionCall.statement (call : DecisionCall) (desk : AuditedDesk) : AuditedDesk × DecisionCall :=
  match call with
  | .approving call =>
      let (decided, next) := call.statement desk.toDecisionDesk
      ({ desk with toDecisionDesk := decided }, .approving next)
  | .denied pendingId decidedBy =>
      (desk, match getPendingAction desk.pendingActions pendingId with
        | some action => .auditing deniedEvent action (some decidedBy) []
        | none => .finished)
  | .expiring candidates =>
      ({ desk with
          pendingActions := expireCandidates desk.pendingActions candidates
          primaryKey := desk.primaryKey.map _ fun action => by split_ifs <;> rfl }, .timedOut candidates)
  | .timedOut [] => (desk, .finished)
  | .timedOut (pendingId :: candidates) =>
      (desk, match getPendingAction desk.pendingActions pendingId with
        | some action => .auditing timedOutEvent action none candidates
        | none => .timedOut candidates)
  | .auditing eventType action decidedBy candidates =>
      ({ desk with audits := desk.audits ++ [⟨eventType, action, decidedBy⟩] }, .timedOut candidates)
  | .finished => (desk, .finished)

def decisionStep (session : Session AuditedDesk DecisionCall) (turn : Turn DecisionRequest) :
    Session AuditedDesk DecisionCall :=
  session.next enterDecision DecisionCall.statement turn

end Statements

section Finality

/-- The columns of a decided row. -/
structure SameDecision (before after : PendingAction) : Prop where
  status : after.status = before.status
  decidedBy : after.decidedBy = before.decidedBy
  payload : after.payload = before.payload
  «namespace» : after.namespace = before.namespace
  requestedBy : after.requestedBy = before.requestedBy

/-- Every decided row stays as it was decided. -/
def KeepsDecisions (before after : List PendingAction) : Prop :=
  ∀ id, ∀ action ∈ getPendingAction before id, action.status ≠ "pending" →
    ∃ later ∈ getPendingAction after id, SameDecision action later

variable {table after : List PendingAction} {id status : String}

theorem SameDecision.refl (action : PendingAction) : SameDecision action action := ⟨rfl, rfl, rfl, rfl, rfl⟩

theorem KeepsDecisions.refl (table : List PendingAction) : KeepsDecisions table table :=
  fun _ action found _ => ⟨action, found, .refl action⟩

/-- A decided status stays. -/
theorem HasStatus.kept (has : HasStatus table status id) (decided : status ≠ "pending")
    (keeps : KeepsDecisions table after) : HasStatus after status id := by
  obtain ⟨action, found, rfl⟩ := has
  obtain ⟨later, laterFound, same⟩ := keeps id action found decided
  exact ⟨later, laterFound, same.status⟩

/-- A rewrite of the waiting rows keeps the decided ones. -/
theorem keepsDecisions_of_map {change : String → PendingAction → PendingAction}
    (lookups : ∀ id, getPendingAction after id = (getPendingAction table id).map (change id))
    (leaves : ∀ id action, action.status ≠ "pending" → change id action = action) : KeepsDecisions table after := by
  intro id action found decided
  refine ⟨action, ?_, .refl action⟩
  rw [Option.mem_def, lookups, found, Option.map_some, leaves id action decided]

/-- A guarded decision keeps every decision that was made. -/
theorem keepsDecisions_decide (pendingId decidedBy now : String) (approve : Bool) :
    KeepsDecisions table (decidePendingAction table pendingId approve decidedBy now).1 :=
  keepsDecisions_of_map (fun _ => getPendingAction_decide ..) fun _ _ decided => if_neg fun both => decided both.2

/-- A recorded vote keeps every decision that was made. -/
theorem keepsDecisions_recordApprovals (pendingId : String) (approvals : List Approval) :
    KeepsDecisions table (recordApprovals table pendingId approvals) :=
  keepsDecisions_of_map (fun _ => getPendingAction_recordApprovals ..) fun _ _ decided =>
    if_neg fun both => decided both.2

/-- The sweep expires the listed candidates that still wait. -/
theorem getPendingAction_expire (candidates : List String) :
    getPendingAction (expireCandidates table candidates) id =
      (getPendingAction table id).map fun action =>
        if id ∈ candidates ∧ action.status = "pending" then { action with status := "expired" } else action := by
  unfold expireCandidates
  rw [getPendingAction_map _ fun action => by split_ifs <;> rfl]
  refine Option.map_congr fun action found => ?_
  rw [id_of_getPendingAction found]

/-- The sweep keeps every decision that was made. -/
theorem keepsDecisions_expire (candidates : List String) :
    KeepsDecisions table (expireCandidates table candidates) :=
  keepsDecisions_of_map (fun _ => getPendingAction_expire candidates) fun _ _ decided =>
    if_neg fun both => decided both.2

/-- A replayed row keeps the decisions exactly when it agrees with the decided row that it overwrites. -/
theorem keepsDecisions_upsert_iff (action : PendingAction) :
    KeepsDecisions table (upsertPendingAction table action) ↔
      ∀ stored ∈ getPendingAction table action.id, stored.status ≠ "pending" → SameDecision stored action := by
  constructor
  · intro keeps stored found decided
    obtain ⟨later, laterFound, same⟩ := keeps action.id stored found decided
    rw [getPendingAction_upsert, if_pos rfl] at laterFound
    exact Option.some.inj laterFound ▸ same
  · intro agrees id stored found decided
    rw [getPendingAction_upsert]
    split_ifs with own
    · exact ⟨action, rfl, agrees stored (own ▸ found) decided⟩
    · exact ⟨stored, found, .refl stored⟩

end Finality

section Conditions

/-- A replayed row agrees with the decided row that it overwrites. -/
def ReplaysDecision (session : Session AuditedDesk DecisionCall) : Turn DecisionRequest → Prop
  | .start (.upsert action) =>
      ∀ stored ∈ getPendingAction session.shared.pendingActions action.id, stored.status ≠ "pending" →
        SameDecision stored action
  | _ => True

/-- The candidates of a sweep still wait, or are expired already, when it flips them. -/
def ExpiresWaiting (session : Session AuditedDesk DecisionCall) (turn : Turn DecisionRequest) : Prop :=
  match session.resumed turn with
  | some (.expiring candidates) => ∀ id ∈ candidates,
      HasStatus session.shared.pendingActions "pending" id ∨ HasStatus session.shared.pendingActions "expired" id
  | _ => True

/-- The status that an audit tells. -/
def auditedStatus (eventType : String) : String := if eventType = timedOutEvent then "expired" else "rejected"

/-- Every audit was appended for a row of the audited status, and the row still has it. -/
def AuditsTrue (desk : AuditedDesk) : Prop :=
  ∀ audit ∈ desk.audits, audit.action.status = auditedStatus audit.eventType ∧
    HasStatus desk.pendingActions (auditedStatus audit.eventType) audit.action.id

/-- What a started call relies on. -/
def DecisionCall.Relies (desk : AuditedDesk) : DecisionCall → Prop
  | .denied pendingId _ => HasStatus desk.pendingActions "rejected" pendingId
  | .timedOut candidates => ∀ id ∈ candidates, HasStatus desk.pendingActions "expired" id
  | .auditing eventType action _ candidates =>
      (action.status = auditedStatus eventType ∧
          HasStatus desk.pendingActions (auditedStatus eventType) action.id) ∧
        ∀ id ∈ candidates, HasStatus desk.pendingActions "expired" id
  | _ => True

theorem auditedStatus_ne_pending (eventType : String) : auditedStatus eventType ≠ "pending" := by
  unfold auditedStatus
  split_ifs <;> decide

end Conditions

section Steps

variable {desk : AuditedDesk} {session : Session AuditedDesk DecisionCall} {turn : Turn DecisionRequest}

/-- Every statement of an approval keeps the decisions that were made. -/
theorem keepsDecisions_approve (call : ApproveCall) (desk : DecisionDesk) :
    KeepsDecisions desk.pendingActions (call.statement desk).1.pendingActions := by
  cases call with
  | resolving => exact .refl _
  | checking => exact .refl _
  | voting action approver now quorum => exact keepsDecisions_recordApprovals _ _
  | deciding pendingId decider now failure => exact keepsDecisions_decide _ _ _ _
  | answered => exact .refl _

/-- No statement of a started call changes a decision. -/
theorem keepsDecisions_statement (call : DecisionCall) (desk : AuditedDesk) :
    KeepsDecisions desk.pendingActions (call.statement desk).1.pendingActions := by
  cases call with
  | approving call => exact keepsDecisions_approve call desk.toDecisionDesk
  | denied => exact .refl _
  | expiring candidates => exact keepsDecisions_expire candidates
  | timedOut candidates => cases candidates <;> exact .refl _
  | auditing => exact .refl _
  | finished => exact .refl _

/-- A turn keeps the decisions exactly when it replays the decided row that it overwrites. -/
theorem keepsDecisions_step_iff :
    ReplaysDecision session turn ↔
      KeepsDecisions session.shared.pendingActions (decisionStep session turn).shared.pendingActions := by
  cases turn with
  | start request =>
      cases request with
      | upsert action => exact (keepsDecisions_upsert_iff action).symm
      | decide pendingId approve decidedBy now => exact iff_of_true trivial (keepsDecisions_decide _ _ _ _)
      | approve => exact iff_of_true trivial (.refl _)
      | sweep => exact iff_of_true trivial (.refl _)
      | govern => exact iff_of_true trivial (.refl _)
  | resume index =>
      refine iff_of_true trivial ?_
      cases held : session.calls[index]? with
      | none =>
          rw [decisionStep, Session.next_of_idle held]
          exact .refl _
      | some call =>
          rw [decisionStep, Session.shared_resume held]
          exact keepsDecisions_statement call session.shared

/-- What a call relies on survives a turn that keeps the decisions. -/
theorem DecisionCall.Relies.kept {call : DecisionCall} {after : AuditedDesk} (relies : call.Relies desk)
    (keeps : KeepsDecisions desk.pendingActions after.pendingActions) : call.Relies after := by
  have expired (id : String) (has : HasStatus desk.pendingActions "expired" id) :
      HasStatus after.pendingActions "expired" id := has.kept (by decide) keeps
  cases call with
  | denied pendingId decidedBy => exact HasStatus.kept relies (by decide) keeps
  | timedOut candidates => exact fun id among => expired id (relies id among)
  | auditing eventType action decidedBy candidates =>
      exact ⟨⟨relies.1.1, relies.1.2.kept (auditedStatus_ne_pending eventType) keeps⟩,
        fun id among => expired id (relies.2 id among)⟩
  | approving => trivial
  | expiring => trivial
  | finished => trivial

theorem AuditsTrue.kept {after : AuditedDesk} (audited : AuditsTrue desk) (same : after.audits = desk.audits)
    (keeps : KeepsDecisions desk.pendingActions after.pendingActions) : AuditsTrue after := by
  intro audit present
  rw [same] at present
  obtain ⟨status, has⟩ := audited audit present
  exact ⟨status, has.kept (auditedStatus_ne_pending _) keeps⟩

/-- A decision that lands leaves its status. -/
theorem hasStatus_decide (table : DecisionDesk) {pendingId decidedBy now : String}
    (landed : (decidePendingAction table.pendingActions pendingId false decidedBy now).2 = true) :
    HasStatus (decidePendingAction table.pendingActions pendingId false decidedBy now).1 "rejected" pendingId := by
  obtain ⟨action, found, waits⟩ := (decided_iff table.primaryKey _ _ _ _).mp landed
  rw [HasStatus, getPendingAction_decide, show getPendingAction table.pendingActions pendingId = some action from found]
  exact ⟨_, congrArg some (if_pos ⟨rfl, waits⟩), rfl⟩

/-- The flipped candidates are expired. -/
theorem hasStatus_expire {table : List PendingAction} {candidates : List String} {id : String}
    (among : id ∈ candidates) (waits : HasStatus table "pending" id ∨ HasStatus table "expired" id) :
    HasStatus (expireCandidates table candidates) "expired" id := by
  rcases waits with ⟨action, found, waits⟩ | expired
  · rw [HasStatus, getPendingAction_expire, show getPendingAction table id = some action from found]
    exact ⟨_, congrArg some (if_pos ⟨among, waits⟩), rfl⟩
  · exact expired.kept (by decide) (keepsDecisions_expire candidates)

/-- An entered call keeps the audits and relies on what it has written. -/
theorem enterDecision_keeps (audited : AuditsTrue desk) (request : DecisionRequest)
    (keeps : KeepsDecisions desk.pendingActions (enterDecision request desk).1.pendingActions) :
    Session.Keeps AuditsTrue (fun desk call => call.Relies desk) desk (enterDecision request desk) where
  store := by
    refine audited.kept ?_ keeps
    cases request <;> rfl
  own := by
    cases request with
    | decide pendingId approve decidedBy now =>
        show DecisionCall.Relies _ (if _ then _ else _)
        split_ifs with denied
        · rw [Bool.and_eq_true, Bool.not_eq_true'] at denied
          obtain ⟨landed, rfl⟩ := denied
          exact hasStatus_decide desk.toDecisionDesk landed
        · trivial
    | upsert => trivial
    | approve => trivial
    | sweep => trivial
    | govern => trivial
  others call relies := relies.kept keeps

/-- A statement keeps the audits and relies on what it has read. -/
theorem statement_keeps (audited : AuditsTrue desk) {call : DecisionCall} (relies : call.Relies desk)
    (expires : ∀ candidates, call = .expiring candidates → ∀ id ∈ candidates,
      HasStatus desk.pendingActions "pending" id ∨ HasStatus desk.pendingActions "expired" id) :
    Session.Keeps AuditsTrue (fun desk call => call.Relies desk) desk (call.statement desk) := by
  have keeps := keepsDecisions_statement call desk
  have others (other : DecisionCall) (relies : other.Relies desk) : other.Relies (call.statement desk).1 :=
    relies.kept keeps
  cases call with
  | approving call => exact ⟨audited.kept rfl keeps, trivial, others⟩
  | denied pendingId decidedBy =>
      refine ⟨audited, ?_, others⟩
      obtain ⟨action, found, status⟩ := relies
      simp only [DecisionCall.statement, Option.mem_def.mp found]
      have sameId := id_of_getPendingAction found
      exact ⟨⟨status, action, sameId ▸ found, status⟩, fun _ none => absurd none List.not_mem_nil⟩
  | expiring candidates =>
      refine ⟨audited.kept rfl keeps, fun id among => ?_, others⟩
      exact hasStatus_expire among (expires candidates rfl id among)
  | timedOut candidates =>
      cases candidates with
      | nil => exact ⟨audited, trivial, others⟩
      | cons pendingId candidates =>
          refine ⟨audited, ?_, others⟩
          obtain ⟨action, found, status⟩ := relies pendingId List.mem_cons_self
          have rest (id : String) (among : id ∈ candidates) : HasStatus desk.pendingActions "expired" id :=
            relies id (List.mem_cons_of_mem _ among)
          simp only [DecisionCall.statement, Option.mem_def.mp found]
          have sameId := id_of_getPendingAction found
          exact ⟨⟨status, action, sameId ▸ found, status⟩, rest⟩
  | auditing eventType action decidedBy candidates =>
      refine ⟨fun audit present => ?_, relies.2, others⟩
      rcases List.mem_append.mp present with earlier | new
      · exact audited audit earlier
      · rw [List.mem_singleton.mp new]
        exact relies.1
  | finished => exact ⟨audited, trivial, others⟩

end Steps

section Runs

/-- Every decision is final over a run exactly when the replayed rows agree with the decided ones, and then the
audits are true whenever the sweeps flip only waiting rows. -/
theorem decisions_final (start : AuditedDesk) (clean : start.audits = []) (turns : List (Turn DecisionRequest)) :
    (EveryStep decisionStep ReplaysDecision ⟨start, []⟩ turns ↔
      EveryStep decisionStep
        (fun session turn =>
          KeepsDecisions session.shared.pendingActions (decisionStep session turn).shared.pendingActions)
        ⟨start, []⟩ turns) ∧
    (EveryStep decisionStep (fun session turn => ReplaysDecision session turn ∧ ExpiresWaiting session turn)
        ⟨start, []⟩ turns →
      ∀ taken rest, turns = taken ++ rest → AuditsTrue (run decisionStep ⟨start, []⟩ taken).shared) := by
  constructor
  · exact @EveryStep.congr_of_invariant _ _ _ _ _ (fun _ => True) (fun _ _ _ => keepsDecisions_step_iff)
      (fun _ _ _ _ => trivial) _ turns trivial
  · rintro every taken rest rfl
    have preserved (session : Session AuditedDesk DecisionCall) (turn : Turn DecisionRequest)
        (meets : ReplaysDecision session turn ∧ ExpiresWaiting session turn)
        (outlined : session.Outlined AuditsTrue fun desk call => call.Relies desk) :
        (decisionStep session turn).Outlined AuditsTrue fun desk call => call.Relies desk := by
      refine Session.outlined_next outlined (fun request begins => ?_) fun call held relies => ?_
      · subst begins
        exact enterDecision_keeps outlined.store request (keepsDecisions_step_iff.mp meets.1)
      · refine statement_keeps outlined.store relies fun candidates isSweep => ?_
        have waits := meets.2
        rw [ExpiresWaiting, held, isSweep] at waits
        exact waits
    have nothing : AuditsTrue start := by
      rw [AuditsTrue, clean]
      exact fun _ none => absurd none List.not_mem_nil
    exact (run_invariant preserved (EveryStep.append_iff.mp every).1 ⟨nothing, fun _ none => by cases none⟩).store

def waitingDelete : PendingAction where
  id := "p1"
  actionType := "delete"
  memoryId := some "m1"
  «namespace» := "team"
  payload := Json.empty
  requestedBy := "alice"
  requestedAt := "2026-01-01T00:00:00+00:00"
  status := "pending"
  decidedBy := none
  decidedAt := none
  approvals := []

def waitingDesk : AuditedDesk where
  pendingActions := [waitingDelete]
  primaryKey := List.nodup_singleton _
  approverOf _ := .human
  isRegistered _ := true
  audits := []

def sweptInTime : List (Turn DecisionRequest) :=
  [.start (.sweep fun _ => true), .resume 0, .resume 0, .resume 0]

theorem sweptInTime_true : AuditsTrue (run decisionStep ⟨waitingDesk, []⟩ sweptInTime).shared := by
  refine (decisions_final waitingDesk rfl sweptInTime).2 ?_ sweptInTime [] rfl
  refine ⟨⟨trivial, trivial⟩, ⟨trivial, ?_⟩, ⟨trivial, trivial⟩, ⟨trivial, trivial⟩, trivial⟩
  intro id among
  rw [List.mem_singleton.mp (show id ∈ ["p1"] from among)]
  exact .inl ⟨waitingDelete, rfl, rfl⟩

/-- The row is approved between the two statements of the sweep. -/
def approvedInSweep : List (Turn DecisionRequest) :=
  [.start (.sweep fun _ => true), .start (.decide "p1" true "bob" "2026-01-02T00:00:00+00:00"), .resume 0, .resume 0,
    .resume 0]

/-- A peer replays the row that it still holds as pending. -/
def replayedPending : List (Turn DecisionRequest) :=
  [.start (.decide "p1" true "bob" "2026-01-02T00:00:00+00:00"), .start (.upsert waitingDelete)]

theorem approvedInSweep_audited :
    ¬ AuditsTrue (run decisionStep ⟨waitingDesk, []⟩ approvedInSweep).shared ∧
    ¬ EveryStep decisionStep
      (fun session turn =>
        KeepsDecisions session.shared.pendingActions (decisionStep session turn).shared.pendingActions)
      ⟨waitingDesk, []⟩ replayedPending := by
  constructor
  · intro audited
    have told : ∃ audit ∈ (run decisionStep ⟨waitingDesk, []⟩ approvedInSweep).shared.audits,
        audit.action.status = "approved" ∧ auditedStatus audit.eventType = "expired" :=
      ⟨_, List.mem_cons_self, rfl, rfl⟩
    obtain ⟨audit, present, approved, expired⟩ := told
    have same := (audited audit present).1
    rw [approved, expired] at same
    exact absurd same (by decide)
  · rintro ⟨_, keeps, _⟩
    obtain ⟨later, found, same⟩ := keeps "p1"
      { waitingDelete with
        status := "approved"
        decidedBy := some "bob"
        decidedAt := some "2026-01-02T00:00:00+00:00" } rfl (by decide)
    have isPending : later = waitingDelete := (Option.some.inj found).symm
    rw [isPending] at same
    exact absurd same.status (by decide)

end Runs
end AiMemory.Storage
