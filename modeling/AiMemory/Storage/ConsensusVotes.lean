import AiMemory.Library.Quorum
import AiMemory.Storage.DecisionSteps
import Mathlib

/-
This file decides when a consensus is backed by its votes and when no vote is lost.
-/

namespace AiMemory.Storage
open AiMemory.Crdt AiMemory.Library AiMemory.Machine

/-- A ballot is an agent with the waiting row that it was shown. -/
structure Ballot where
  agent : String
  action : PendingAction

/-- The desk remembers who was asked, who was answered and which actions ran. -/
structure PollingDesk extends DecisionDesk where
  asked : List Ballot
  answered : List Ballot
  ran : List PendingAction

inductive PollCall where
  | polling (ballot : Ballot) (call : ApproveCall)
  | done

inductive PollRequest where
  | approve (pendingId approver now : String) (surface : ApproveSurface)
  | upsert (action : PendingAction)
  | execute (pendingId : String)

section Statements

/-- A vote counts for its agent when the answer is no refusal. -/
def ApproveOutcome.counts : ApproveOutcome → Bool
  | .pending _ _ => true
  | .approved => true
  | _ => false

def enterPoll (request : PollRequest) (desk : PollingDesk) : PollingDesk × PollCall :=
  match request with
  | .approve pendingId approver now surface =>
      match selectForApproval desk.toDecisionDesk pendingId approver now surface with
      | .resolving action approver now surface =>
          ({ desk with asked := desk.asked ++ [⟨approver, action⟩] },
            .polling ⟨approver, action⟩ (.resolving action approver now surface))
      | _ => (desk, .done)
  | .upsert action =>
      ({ desk with
          pendingActions := upsertPendingAction desk.pendingActions action
          primaryKey := desk.primaryKey.upsert action }, .done)
  | .execute pendingId =>
      match selectForExecution desk.pendingActions pendingId with
      | .ok action => ({ desk with ran := desk.ran ++ [action] }, .done)
      | .error _ => (desk, .done)

def PollCall.statement (call : PollCall) (desk : PollingDesk) : PollingDesk × PollCall :=
  match call with
  | .polling ballot call =>
      match call.statement desk.toDecisionDesk with
      | (decided, .answered outcome) =>
          ({ desk with
              toDecisionDesk := decided
              answered := if outcome.counts then desk.answered ++ [ballot] else desk.answered }, .done)
      | (decided, next) => ({ desk with toDecisionDesk := decided }, .polling ballot next)
  | .done => (desk, .done)

def pollStep (session : Session PollingDesk PollCall) (turn : Turn PollRequest) : Session PollingDesk PollCall :=
  session.next enterPoll PollCall.statement turn

end Statements

section Votes

/-- Agents are told apart without regard to case. -/
def agents (approvals : List Approval) : List String := approvals.map fun approval => approval.agentId.toLower

/-- A registered agent cast one of the ballots on the payload. -/
def Voted (isRegistered : String → Bool) (ballots : List Ballot) (pendingId : String) (payload : Json)
    (voter : String) : Prop :=
  ∃ ballot ∈ ballots, ballot.agent.toLower = voter ∧ isRegistered ballot.agent = true ∧
    ballot.action.id = pendingId ∧ ballot.action.payload = payload

/-- What ran was asked of a quorum. -/
def RanOnQuorum (pendingId : String) (quorum : Nat) (desk : PollingDesk) : Prop :=
  ∀ action ∈ desk.ran, action.id = pendingId →
    DistinctQuorum quorum (Voted desk.isRegistered desk.asked pendingId action.payload)

/-- A quorum that was answered has approved the row. -/
def AnsweredQuorumApproves (pendingId : String) (quorum : Nat) (desk : PollingDesk) : Prop :=
  ∀ payload, DistinctQuorum (max 1 quorum) (Voted desk.isRegistered desk.answered pendingId payload) →
    HasStatus desk.pendingActions "approved" pendingId

/-- A row that opens a vote of the namespace, or one that never votes. -/
structure Opens («namespace» : String) (action : PendingAction) : Prop where
  «namespace» : action.namespace = «namespace»
  undecided : action.status ≠ "approved"
  unvoted : action.status = "pending" → action.approvals = []

structure SameVotes (stored action : PendingAction) : Prop where
  status : action.status = stored.status
  payload : action.payload = stored.payload
  «namespace» : action.namespace = stored.namespace
  approvals : action.approvals = stored.approvals

/-- A relayed row opens the vote, or tells the stored one. -/
def RelaysVotes (pendingId «namespace» : String) (session : Session PollingDesk PollCall) :
    Turn PollRequest → Prop
  | .start (.upsert action) => action.id = pendingId →
      match getPendingAction session.shared.pendingActions pendingId with
      | none => Opens «namespace» action
      | some stored => SameVotes stored action
  | _ => True

/-- The votes that a call has read are still the stored ones when it writes, and a repeated vote is told so before
the quorum is there. -/
def VoteLands (quorum : Nat) (desk : PollingDesk) : ApproveCall → Prop
  | .voting action _ _ _ =>
      ∀ stored ∈ getPendingAction desk.pendingActions action.id, stored.status = "pending" →
        stored.approvals = action.approvals
  | .checking action approver _ _ =>
      desk.isRegistered approver = true → approver.toLower ∈ agents action.approvals →
        action.approvals.length < quorum
  | _ => True

/-- The condition concerns the votes on one row. -/
def CountsVote (pendingId : String) (quorum : Nat) (session : Session PollingDesk PollCall)
    (turn : Turn PollRequest) : Prop :=
  match session.resumed turn with
  | some (.polling ballot call) => ballot.action.id = pendingId → VoteLands quorum session.shared call
  | _ => True

end Votes

section Invariant

/-- A row that takes votes, or took enough of them. -/
def Live (row : PendingAction) : Prop := row.status = "pending" ∨ row.status = "approved"

/-- The votes of a row come from distinct agents that were asked about its payload. -/
structure RowCounted (desk : PollingDesk) («namespace» : String) (quorum : Nat) (row : PendingAction) : Prop where
  «namespace» : row.namespace = «namespace»
  distinct : Live row → (agents row.approvals).Nodup
  asked : Live row → ∀ voter ∈ agents row.approvals, Voted desk.isRegistered desk.asked row.id row.payload voter
  enough : row.status = "approved" → quorum ≤ row.approvals.length

/-- An answered agent voted before the last vote that was needed, unless the row is approved. -/
def AnswerCounted (desk : PollingDesk) (quorum : Nat) (ballot : Ballot) : Prop :=
  ∃ row ∈ getPendingAction desk.pendingActions ballot.action.id,
    row.status = "approved" ∨
      row.status = "pending" ∧ ballot.agent.toLower ∈ (agents row.approvals).take (quorum - 1)

structure Counted (pendingId «namespace» : String) (quorum : Nat) (desk : PollingDesk) : Prop where
  governed : desk.approverOf «namespace» = .consensus quorum
  row : ∀ row ∈ getPendingAction desk.pendingActions pendingId, RowCounted desk «namespace» quorum row
  answered : ∀ ballot ∈ desk.answered, ballot.action.id = pendingId → AnswerCounted desk quorum ballot
  ran : RanOnQuorum pendingId quorum desk

/-- The row has kept its payload and gained votes since a ballot was shown it. -/
def Since (desk : PollingDesk) (shown : PendingAction) : Prop :=
  ∃ row ∈ getPendingAction desk.pendingActions shown.id,
    Live row ∧ row.payload = shown.payload ∧ shown.approvals <+: row.approvals

/-- A call speaks for its ballot. -/
def Speaks (ballot : Ballot) : ApproveCall → Prop
  | .resolving action approver _ _ => action = ballot.action ∧ approver = ballot.agent
  | .checking action approver _ _ => action = ballot.action ∧ approver = ballot.agent
  | .voting action approver _ _ => action = ballot.action ∧ approver = ballot.agent
  | .deciding pendingId _ _ _ => pendingId = ballot.action.id
  | .answered _ => True

/-- What a call on the row has checked. -/
def Checked (quorum : Nat) (desk : PollingDesk) (ballot : Ballot) : ApproveCall → Prop
  | .checking _ _ _ asked => asked = some quorum
  | .voting _ _ _ asked => asked = quorum ∧ desk.isRegistered ballot.agent = true ∧
      ballot.agent.toLower ∉ agents ballot.action.approvals
  | .deciding _ _ _ _ => ∃ row ∈ getPendingAction desk.pendingActions ballot.action.id,
      Live row ∧ quorum ≤ row.approvals.length
  | .answered outcome => outcome.counts = true → AnswerCounted desk quorum ballot
  | .resolving _ _ _ _ => True

def PollCall.Relies (pendingId «namespace» : String) (quorum : Nat) (desk : PollingDesk) : PollCall → Prop
  | .done => True
  | .polling ballot call => Speaks ballot call ∧
      (ballot.action.id = pendingId →
        ballot ∈ desk.asked ∧ ballot.action.namespace = «namespace» ∧ Since desk ballot.action ∧
          Checked quorum desk ballot call)

end Invariant

section Growth

variable {pendingId «namespace» : String} {quorum : Nat} {before after desk : PollingDesk}

/-- Ballots and votes are added, and an approval stays. -/
structure Grows (pendingId : String) (before after : PollingDesk) : Prop where
  registered : after.isRegistered = before.isRegistered
  governed : after.approverOf = before.approverOf
  asked : before.asked ⊆ after.asked
  row : ∀ row ∈ getPendingAction before.pendingActions pendingId,
    ∃ later ∈ getPendingAction after.pendingActions pendingId, later.payload = row.payload ∧
      (Live row → Live later ∧ row.approvals <+: later.approvals) ∧
      (row.status = "approved" → later.status = "approved")

/-- A step that leaves the row alone lets the desk grow. -/
theorem Grows.of_same_row (registered : after.isRegistered = before.isRegistered)
    (governed : after.approverOf = before.approverOf) (asked : before.asked ⊆ after.asked)
    (same : getPendingAction after.pendingActions pendingId = getPendingAction before.pendingActions pendingId) :
    Grows pendingId before after where
  registered := registered
  governed := governed
  asked := asked
  row row found := ⟨row, same ▸ found, rfl, fun live => ⟨live, List.prefix_refl _⟩, id⟩

/-- A vote stays cast while the ballots grow. -/
theorem Voted.mono {isRegistered : String → Bool} {ballots more : List Ballot} {payload : Json} {voter : String}
    (voted : Voted isRegistered ballots pendingId payload voter) (within : ballots ⊆ more) :
    Voted isRegistered more pendingId payload voter := by
  obtain ⟨ballot, cast, tells⟩ := voted
  exact ⟨ballot, within cast, tells⟩

theorem agents_front {first second : List Approval} (front : first <+: second) : agents first <+: agents second :=
  front.map _

/-- The first votes stay the first votes. -/
theorem mem_take_of_prefix {first second : List String} (front : first <+: second) {count : Nat} {voter : String}
    (early : voter ∈ first.take count) : voter ∈ second.take count := by
  obtain ⟨more, rfl⟩ := front
  rw [List.take_append]
  exact List.mem_append_left _ early

/-- What was shown stays true while the votes grow. -/
theorem Since.kept {shown : PendingAction} (since : Since before shown) (grows : Grows shown.id before after) :
    Since after shown := by
  obtain ⟨row, found, live, payload, front⟩ := since
  obtain ⟨later, laterFound, samePayload, grown, _⟩ := grows.row row found
  exact ⟨later, laterFound, (grown live).1, samePayload.trans payload, front.trans (grown live).2⟩

/-- A counted answer stays counted while the votes grow. -/
theorem AnswerCounted.kept {ballot : Ballot} (counted : AnswerCounted before quorum ballot)
    (grows : Grows ballot.action.id before after) : AnswerCounted after quorum ballot := by
  obtain ⟨row, found, approved | ⟨waits, early⟩⟩ := counted
  · obtain ⟨later, laterFound, _, _, stays⟩ := grows.row row found
    exact ⟨later, laterFound, .inl (stays approved)⟩
  · obtain ⟨later, laterFound, _, grown, _⟩ := grows.row row found
    obtain ⟨live, front⟩ := grown (.inl waits)
    refine ⟨later, laterFound, live.symm.imp_right fun waits => ⟨waits, ?_⟩⟩
    exact mem_take_of_prefix (agents_front front) early

/-- A checked ballot stays checked while the votes grow. -/
theorem Checked.kept {ballot : Ballot} {call : ApproveCall} (checked : Checked quorum before ballot call)
    (grows : Grows ballot.action.id before after) : Checked quorum after ballot call := by
  cases call with
  | voting action approver now asked => exact ⟨checked.1, grows.registered ▸ checked.2.1, checked.2.2⟩
  | deciding id decider now failure =>
      obtain ⟨row, found, live, enough⟩ := checked
      obtain ⟨later, laterFound, _, grown, _⟩ := grows.row row found
      exact ⟨later, laterFound, (grown live).1, enough.trans (grown live).2.length_le⟩
  | checking => exact checked
  | resolving => trivial
  | answered outcome => exact fun counts => (checked counts).kept grows

/-- What a call relies on survives a growing desk. -/
theorem PollCall.Relies.kept {call : PollCall} (relies : call.Relies pendingId «namespace» quorum before)
    (grows : Grows pendingId before after) : call.Relies pendingId «namespace» quorum after := by
  cases call with
  | done => trivial
  | polling ballot call =>
      refine ⟨relies.1, fun own => ?_⟩
      subst own
      obtain ⟨cast, placed, since, checked⟩ := relies.2 rfl
      exact ⟨grows.asked cast, placed, since.kept grows, checked.kept grows⟩

/-- A counted row stays counted while the votes grow. -/
theorem RowCounted.kept {row : PendingAction} (counted : RowCounted before «namespace» quorum row)
    (grows : Grows pendingId before after) : RowCounted after «namespace» quorum row where
  «namespace» := counted.namespace
  distinct := counted.distinct
  asked live voter present := grows.registered ▸ (counted.asked live voter present).mono grows.asked
  enough := counted.enough

/-- A growing desk stays counted when its row, its new answers and its new runs are. -/
theorem Counted.next (counted : Counted pendingId «namespace» quorum before) (grows : Grows pendingId before after)
    (row : ∀ row ∈ getPendingAction after.pendingActions pendingId, RowCounted after «namespace» quorum row)
    (answered : ∀ ballot ∈ after.answered, ballot.action.id = pendingId →
      ballot ∈ before.answered ∨ AnswerCounted after quorum ballot)
    (ran : ∀ action ∈ after.ran, action.id = pendingId → action ∈ before.ran ∨
      DistinctQuorum quorum (Voted after.isRegistered after.asked pendingId action.payload)) :
    Counted pendingId «namespace» quorum after where
  governed := grows.governed ▸ counted.governed
  row := row
  answered ballot among own := by
    rcases answered ballot among own with earlier | new
    · exact (counted.answered ballot earlier own).kept (own ▸ grows)
    · exact new
  ran action among own := by
    rcases ran action among own with earlier | new
    · exact (counted.ran action earlier own).mono fun voter voted => grows.registered ▸ voted.mono grows.asked
    · exact new

/-- A desk whose row, answers and runs stay is counted as before. -/
theorem Counted.next_of_same_row (counted : Counted pendingId «namespace» quorum before)
    (grows : Grows pendingId before after)
    (same : getPendingAction after.pendingActions pendingId = getPendingAction before.pendingActions pendingId)
    (answered : after.answered = before.answered) (ran : after.ran = before.ran) :
    Counted pendingId «namespace» quorum after :=
  counted.next grows (fun row found => (counted.row row (same ▸ found)).kept grows)
    (fun _ among _ => .inl (answered ▸ among)) fun _ among _ => .inl (ran ▸ among)

/-- A statement keeps the counts and interferes with no other call. -/
abbrev KeepsCount (pendingId «namespace» : String) (quorum : Nat) (before : PollingDesk)
    (after : PollingDesk × PollCall) : Prop :=
  Session.Keeps (Counted pendingId «namespace» quorum)
    (fun desk (call : PollCall) => call.Relies pendingId «namespace» quorum desk) before after

end Growth

section Entering

variable {pendingId «namespace» : String} {quorum : Nat} {desk : PollingDesk}

/-- A selected row waits. -/
theorem selectForApproval_cases (desk : DecisionDesk) (id approver now : String) (surface : ApproveSurface) :
    (∃ outcome, selectForApproval desk id approver now surface = .answered outcome) ∨
    ∃ action, getPendingAction desk.pendingActions id = some action ∧ action.status = "pending" ∧
      selectForApproval desk id approver now surface = .resolving action approver now surface := by
  unfold selectForApproval
  cases found : getPendingAction desk.pendingActions id with
  | none => exact .inl ⟨_, rfl⟩
  | some action =>
      dsimp only
      split_ifs with decided
      · exact .inl ⟨_, rfl⟩
      · exact .inr ⟨action, rfl, not_not.mp decided, rfl⟩

/-- A row that opens the vote is counted. -/
theorem rowCounted_of_opens {action : PendingAction} (opens : Opens «namespace» action) :
    RowCounted desk «namespace» quorum action := by
  have unvoted (live : Live action) : agents action.approvals = [] := by
    rcases live with waits | approved
    · rw [opens.unvoted waits]
      rfl
    · exact absurd approved opens.undecided
  refine ⟨opens.namespace, fun live => ?_, fun live voter present => ?_, fun approved => ?_⟩
  · rw [unvoted live]
    exact List.nodup_nil
  · rw [unvoted live] at present
    exact absurd present List.not_mem_nil
  · exact absurd approved opens.undecided

theorem rowCounted_of_same {stored action : PendingAction} (counted : RowCounted desk «namespace» quorum stored)
    (same : SameVotes stored action) (sameId : action.id = stored.id) :
    RowCounted desk «namespace» quorum action := by
  have live (live : Live action) : Live stored := by rwa [Live, same.status] at live
  refine ⟨same.namespace.trans counted.namespace, fun is => ?_, fun is voter present => ?_, fun approved => ?_⟩
  · rw [same.approvals]
    exact counted.distinct (live is)
  · rw [same.approvals] at present
    rw [sameId, same.payload]
    exact counted.asked (live is) voter present
  · rw [same.approvals]
    exact counted.enough (same.status ▸ approved)

/-- The votes of an approved row are a quorum. -/
theorem RowCounted.isQuorum {row : PendingAction} (counted : RowCounted desk «namespace» quorum row)
    (approved : row.status = "approved") :
    DistinctQuorum quorum (Voted desk.isRegistered desk.asked row.id row.payload) := by
  refine ⟨agents row.approvals, counted.distinct (.inr approved), ?_, counted.asked (.inr approved)⟩
  rw [agents, List.length_map]
  exact counted.enough approved

/-- A relayed copy keeps the votes counted. -/
theorem upsert_keeps (counted : Counted pendingId «namespace» quorum desk) (action : PendingAction)
    (relays : RelaysVotes pendingId «namespace» ⟨desk, []⟩ (.start (.upsert action))) :
    KeepsCount pendingId «namespace» quorum desk (enterPoll (.upsert action) desk) := by
  have lookup : getPendingAction (enterPoll (.upsert action) desk).1.pendingActions pendingId =
      if pendingId = action.id then some action else getPendingAction desk.pendingActions pendingId :=
    getPendingAction_upsert action
  have grows : Grows pendingId desk (enterPoll (.upsert action) desk).1 := by
    refine ⟨rfl, rfl, List.Subset.refl _, fun row found => ?_⟩
    rw [lookup]
    split_ifs with own
    · have same := relays own.symm
      rw [show getPendingAction desk.pendingActions pendingId = some row from found] at same
      refine ⟨action, rfl, same.payload, fun live => ⟨?_, ?_⟩, fun approved => same.status.trans approved⟩
      · rwa [Live, same.status]
      · rw [same.approvals]
    · exact ⟨row, found, rfl, fun live => ⟨live, List.prefix_refl _⟩, id⟩
  refine ⟨counted.next grows (fun row found => ?_) (fun _ among _ => .inl among) (fun _ among _ => .inl among),
    trivial, fun call relies => relies.kept grows⟩
  rw [lookup] at found
  split_ifs at found with own
  · obtain rfl : action = row := Option.some.inj found
    have meets := relays own.symm
    cases stored : getPendingAction desk.pendingActions pendingId with
    | none =>
        rw [stored] at meets
        exact rowCounted_of_opens meets
    | some held =>
        rw [stored] at meets
        have sameId : action.id = held.id := own.symm.trans (id_of_getPendingAction stored).symm
        exact (rowCounted_of_same (counted.row held stored) meets sameId).kept grows
  · exact (counted.row row found).kept grows

/-- An entered call keeps the counts. -/
theorem enterPoll_keeps (counted : Counted pendingId «namespace» quorum desk) (request : PollRequest)
    (relays : RelaysVotes pendingId «namespace» ⟨desk, []⟩ (.start request)) :
    KeepsCount pendingId «namespace» quorum desk (enterPoll request desk) := by
  have idle : KeepsCount pendingId «namespace» quorum desk (desk, .done) :=
    ⟨counted, trivial, fun _ relies => relies⟩
  cases request with
  | upsert action => exact upsert_keeps counted action relays
  | approve id approver now surface =>
      unfold enterPoll
      rcases selectForApproval_cases desk.toDecisionDesk id approver now surface with
        ⟨outcome, answered⟩ | ⟨action, found, waits, resolves⟩
      · simp only [answered]
        exact idle
      · simp only [resolves]
        have grows : Grows pendingId desk { desk with asked := desk.asked ++ [⟨approver, action⟩] } :=
          .of_same_row rfl rfl (List.subset_append_left _ _) rfl
        refine ⟨counted.next_of_same_row grows rfl rfl rfl, ⟨⟨rfl, rfl⟩, fun own => ?_⟩,
          fun call relies => relies.kept grows⟩
        have here : getPendingAction desk.pendingActions action.id = some action :=
          (id_of_getPendingAction found).symm ▸ found
        have placed := (counted.row action (own ▸ here)).namespace
        exact ⟨List.mem_append_right _ List.mem_cons_self, placed,
          ⟨action, here, .inl waits, rfl, List.prefix_refl _⟩, trivial⟩
  | execute id =>
      unfold enterPoll
      cases selected : selectForExecution desk.pendingActions id with
      | error _ =>
          simp only [selected]
          exact idle
      | ok action =>
          simp only [selected]
          obtain ⟨found, approved⟩ := approved_of_selectForExecution selected
          have grows : Grows pendingId desk { desk with ran := desk.ran ++ [action] } :=
            .of_same_row rfl rfl (List.Subset.refl _) rfl
          refine ⟨counted.next grows (fun row found => (counted.row row found).kept grows)
            (fun _ among _ => .inl among) (fun other among own => ?_), trivial, fun call relies => relies.kept grows⟩
          rcases List.mem_append.mp among with earlier | new
          · exact .inl earlier
          · obtain rfl := List.mem_singleton.mp new
            have here : getPendingAction desk.pendingActions pendingId = some other := by
              rwa [← id_of_getPendingAction found, own] at found
            exact .inr (own ▸ (counted.row other here).isQuorum approved)

end Entering

section Polling

variable {pendingId «namespace» : String} {quorum : Nat} {desk : PollingDesk} {ballot : Ballot}

/-- The desk with the table that a statement leaves. -/
def PollingDesk.decided (desk : PollingDesk) (decided : DecisionDesk) : PollingDesk :=
  { desk with toDecisionDesk := decided }

/-- A statement of a polled call keeps the counts when its table and its next check do. -/
theorem poll_keeps {call next : ApproveCall} {decided : DecisionDesk}
    (relies : PollCall.Relies pendingId «namespace» quorum desk (.polling ballot call))
    (ran : call.statement desk.toDecisionDesk = (decided, next))
    (grows : Grows pendingId desk (desk.decided decided))
    (counted : Counted pendingId «namespace» quorum (desk.decided decided))
    (speaks : Speaks ballot next)
    (checked : ballot.action.id = pendingId → Checked quorum (desk.decided decided) ballot next) :
    KeepsCount pendingId «namespace» quorum desk (PollCall.statement (.polling ballot call) desk) := by
  have goesOn : PollCall.Relies pendingId «namespace» quorum (desk.decided decided) (.polling ballot next) := by
    refine ⟨speaks, fun own => ?_⟩
    obtain ⟨_, later⟩ := relies.kept grows
    obtain ⟨cast, placed, since, _⟩ := later own
    exact ⟨cast, placed, since, checked own⟩
  have others (other : PollCall) (relies : other.Relies pendingId «namespace» quorum desk) :
      other.Relies pendingId «namespace» quorum (desk.decided decided) := relies.kept grows
  unfold PollCall.statement
  simp only [ran]
  cases next with
  | answered outcome =>
      let told := if outcome.counts then desk.answered ++ [ballot] else desk.answered
      have more : Grows pendingId (desk.decided decided) { desk.decided decided with answered := told } :=
        .of_same_row rfl rfl (List.Subset.refl _) rfl
      refine ⟨counted.next more (fun row found => (counted.row row found).kept more) (fun other among own => ?_)
        (fun _ among _ => .inl among), trivial, fun other relies => (others other relies).kept more⟩
      change other ∈ told at among
      dsimp only [told] at among
      split_ifs at among with counts
      · rcases List.mem_append.mp among with earlier | new
        · exact .inl earlier
        · obtain rfl := List.mem_singleton.mp new
          exact .inr (checked own counts)
      · exact .inl among
  | resolving => exact ⟨counted, goesOn, others⟩
  | checking => exact ⟨counted, goesOn, others⟩
  | voting => exact ⟨counted, goesOn, others⟩
  | deciding => exact ⟨counted, goesOn, others⟩

theorem speaks_resolve {desk : DecisionDesk} {action : PendingAction} {approver : String} (now : String)
    (surface : ApproveSurface) (shown : action = ballot.action ∧ approver = ballot.agent) :
    Speaks ballot (resolveApprover desk action approver now surface) := by
  obtain ⟨rfl, rfl⟩ := shown
  unfold resolveApprover
  cases desk.approverOf ballot.action.namespace with
  | human =>
      dsimp only
      split_ifs
      · trivial
      · exact ⟨rfl, rfl⟩
      · exact rfl
  | agent required =>
      dsimp only
      split_ifs
      · trivial
      · exact rfl
  | consensus quorum => exact ⟨rfl, rfl⟩

/-- The resolution of a ballot keeps the votes counted. -/
theorem resolving_keeps (counted : Counted pendingId «namespace» quorum desk) {action : PendingAction}
    {approver now : String} {surface : ApproveSurface}
    (relies : PollCall.Relies pendingId «namespace» quorum desk
      (.polling ballot (.resolving action approver now surface))) :
    KeepsCount pendingId «namespace» quorum desk
      (PollCall.statement (.polling ballot (.resolving action approver now surface)) desk) := by
  have asks (own : ballot.action.id = pendingId) :
      resolveApprover desk.toDecisionDesk action approver now surface =
        .checking action approver now (some quorum) := by
    obtain ⟨_, placed, _⟩ := relies.2 own
    have here : action.namespace = «namespace» := relies.1.1 ▸ placed
    rw [resolveApprover, here, counted.governed]
  have same : Grows pendingId desk (desk.decided desk.toDecisionDesk) :=
    .of_same_row rfl rfl (List.Subset.refl _) rfl
  refine poll_keeps relies rfl same counted (speaks_resolve now surface relies.1) fun own => ?_
  rw [asks own]
  rfl

theorem speaks_check {desk : DecisionDesk} {action : PendingAction} {approver : String} (now : String)
    (asked : Option Nat) (shown : action = ballot.action ∧ approver = ballot.agent) :
    Speaks ballot (checkRegistered desk action approver now asked) := by
  obtain ⟨rfl, rfl⟩ := shown
  unfold checkRegistered
  cases asked with
  | none =>
      dsimp only
      split_ifs
      · trivial
      · exact rfl
  | some asked =>
      dsimp only
      split_ifs
      · trivial
      · trivial
      · exact ⟨rfl, rfl⟩

/-- An agent is among the votes exactly when its name is, without regard to case. -/
theorem agent_mem_iff {approvals : List Approval} {agent : String} :
    (approvals.any fun approval => approval.agentId.toLower = agent.toLower) = true ↔
      agent.toLower ∈ agents approvals := by simp [agents]

/-- An early vote that was shown is still an early vote. -/
theorem answerCounted_of_shown (since : Since desk ballot.action)
    (present : ballot.agent.toLower ∈ agents ballot.action.approvals)
    (early : ballot.action.approvals.length < quorum) : AnswerCounted desk quorum ballot := by
  obtain ⟨row, found, live, _, front⟩ := since
  refine ⟨row, found, live.symm.imp_right fun waits => ⟨waits, ?_⟩⟩
  refine mem_take_of_prefix (agents_front front) ?_
  have whole : (agents ballot.action.approvals).length ≤ quorum - 1 := by
    rw [agents, List.length_map]
    omega
  rwa [List.take_of_length_le whole]

/-- The check of a ballot keeps the votes counted. -/
theorem checking_keeps (counted : Counted pendingId «namespace» quorum desk) {action : PendingAction}
    {approver now : String} {asked : Option Nat}
    (relies : PollCall.Relies pendingId «namespace» quorum desk
      (.polling ballot (.checking action approver now asked)))
    (lands : ballot.action.id = pendingId → VoteLands quorum desk (.checking action approver now asked)) :
    KeepsCount pendingId «namespace» quorum desk
      (PollCall.statement (.polling ballot (.checking action approver now asked)) desk) := by
  have same : Grows pendingId desk (desk.decided desk.toDecisionDesk) :=
    .of_same_row rfl rfl (List.Subset.refl _) rfl
  refine poll_keeps relies rfl same counted (speaks_check now asked relies.1) fun own => ?_
  obtain ⟨_, _, since, isQuorum⟩ := relies.2 own
  have asksQuorum : asked = some quorum := isQuorum
  have lands := lands own
  obtain ⟨rfl, rfl⟩ := relies.1
  subst asksQuorum
  unfold checkRegistered
  dsimp only
  split_ifs with unknown voted
  · exact fun counts => absurd counts Bool.false_ne_true
  · have known : desk.isRegistered ballot.agent = true := Bool.not_eq_false _ ▸ unknown
    have present := agent_mem_iff.mp voted
    exact fun _ => answerCounted_of_shown since present (lands known present)
  · have known : desk.isRegistered ballot.agent = true := Bool.not_eq_false _ ▸ unknown
    exact ⟨rfl, known, fun present => voted (agent_mem_iff.mpr present)⟩

/-- A vote appends its agent to the agents that were shown. -/
theorem agents_votesWith (action : PendingAction) (approver now : String) :
    agents (votesWith action approver now) = agents action.approvals ++ [approver.toLower] := by
  have lower : approver.toLower.toLower = approver.toLower := by
    show (approver.map Char.toLower).map Char.toLower = approver.map Char.toLower
    rw [← String.toList_inj]
    simp [Function.comp_def]
  rw [agents, votesWith, List.map_append, List.map_singleton, lower]
  rfl

/-- The row after a vote. -/
def votedRow (row action : PendingAction) (approver now : String) : PendingAction :=
  if row.status = "pending" then { row with approvals := votesWith action approver now } else row

/-- A vote that lands counts one more agent. -/
theorem rowCounted_votedRow {row : PendingAction} {now : String} (counted : RowCounted desk «namespace» quorum row)
    (since : ballot ∈ desk.asked ∧ ballot.action.id = row.id ∧ row.payload = ballot.action.payload)
    (registered : desk.isRegistered ballot.agent = true)
    (unvoted : ballot.agent.toLower ∉ agents ballot.action.approvals)
    (lands : row.status = "pending" → row.approvals = ballot.action.approvals) :
    RowCounted desk «namespace» quorum (votedRow row ballot.action ballot.agent now) := by
  unfold votedRow
  split_ifs with waits
  · have live : Live row := .inl waits
    refine ⟨counted.namespace, fun _ => ?_, fun _ voter present => ?_, fun approved => ?_⟩
    · rw [agents_votesWith, ← lands waits]
      refine List.nodup_append.mpr ⟨counted.distinct live, List.nodup_singleton _, ?_⟩
      intro voter present other new same
      rw [List.mem_singleton.mp new] at same
      exact unvoted (lands waits ▸ same ▸ present)
    · rw [agents_votesWith, ← lands waits] at present
      rcases List.mem_append.mp present with earlier | new
      · exact counted.asked live voter earlier
      · obtain rfl := List.mem_singleton.mp new
        exact ⟨ballot, since.1, rfl, registered, since.2.1, since.2.2.symm⟩
    · exact absurd (waits.symm.trans approved) (by decide)
  · exact counted

/-- A recorded vote leaves a live row live. -/
theorem votedRow_live {row action : PendingAction} {approver now : String} (live : Live row) :
    Live (votedRow row action approver now) := by
  unfold votedRow
  split_ifs
  · exact live
  · exact live

/-- A vote that lands keeps the row alive and its first votes first. -/
theorem votedRow_grows {row action : PendingAction} {approver now : String}
    (lands : row.status = "pending" → row.approvals = action.approvals) :
    (votedRow row action approver now).payload = row.payload ∧
      (Live row → Live (votedRow row action approver now) ∧
        row.approvals <+: (votedRow row action approver now).approvals) ∧
      (row.status = "approved" → (votedRow row action approver now).status = "approved") := by
  unfold votedRow
  split_ifs with waits
  · refine ⟨rfl, fun live => ⟨live, ?_⟩, id⟩
    rw [lands waits]
    exact List.prefix_append _ _
  · exact ⟨rfl, fun live => ⟨live, List.prefix_refl _⟩, id⟩

/-- The row after the decision. -/
def approvedRow (row : PendingAction) (decider now : String) : PendingAction :=
  if row.status = "pending" then
    { row with status := "approved", decidedBy := some decider, decidedAt := some now }
  else row

/-- An approval approves a live row. -/
theorem status_approvedRow {row : PendingAction} {decider now : String} (live : Live row) :
    (approvedRow row decider now).status = "approved" := by
  unfold approvedRow
  split_ifs with waits
  · rfl
  · exact live.resolve_left waits

/-- An approval keeps the payload and the votes. -/
theorem approvedRow_keeps (row : PendingAction) (decider now : String) :
    (approvedRow row decider now).payload = row.payload ∧ (approvedRow row decider now).approvals = row.approvals ∧
      (approvedRow row decider now).namespace = row.namespace ∧ (approvedRow row decider now).id = row.id := by
  unfold approvedRow
  split_ifs
  · exact ⟨rfl, rfl, rfl, rfl⟩
  · exact ⟨rfl, rfl, rfl, rfl⟩

/-- A decision with enough votes on the row counts its approval. -/
theorem rowCounted_approvedRow {row : PendingAction} {decider now : String}
    (counted : RowCounted desk «namespace» quorum row) (live : Live row) (enough : quorum ≤ row.approvals.length) :
    RowCounted desk «namespace» quorum (approvedRow row decider now) := by
  obtain ⟨payload, approvals, placed, sameId⟩ := approvedRow_keeps row decider now
  refine ⟨placed.trans counted.namespace, fun _ => ?_, fun _ voter among => ?_, fun _ => ?_⟩
  · rw [approvals]
    exact counted.distinct live
  · rw [approvals] at among
    rw [payload, sameId]
    exact counted.asked live voter among
  · rwa [approvals]

theorem approvedRow_grows (row : PendingAction) (decider now : String) :
    (approvedRow row decider now).payload = row.payload ∧
      (Live row → Live (approvedRow row decider now) ∧
        row.approvals <+: (approvedRow row decider now).approvals) ∧
      (row.status = "approved" → (approvedRow row decider now).status = "approved") := by
  obtain ⟨payload, approvals, _⟩ := approvedRow_keeps row decider now
  refine ⟨payload, fun live => ⟨.inr (status_approvedRow live), ?_⟩, fun was => status_approvedRow (.inr was)⟩
  rw [approvals]

/-- A statement that rewrites the row of one identifier. -/
structure Rewrites (id : String) (rewrite : PendingAction → PendingAction) (desk : PollingDesk)
    (decided : DecisionDesk) : Prop where
  registered : decided.isRegistered = desk.isRegistered
  governed : decided.approverOf = desk.approverOf
  lookup (query : String) : getPendingAction decided.pendingActions query =
    (getPendingAction desk.pendingActions query).map fun row => if query = id then rewrite row else row

section Rewriting

variable {id : String} {rewrite : PendingAction → PendingAction} {decided : DecisionDesk}

/-- A rewrite changes the row that it names. -/
theorem Rewrites.own (rewrites : Rewrites id rewrite desk decided) :
    getPendingAction decided.pendingActions id = (getPendingAction desk.pendingActions id).map rewrite := by
  simpa using rewrites.lookup id

/-- A rewrite leaves the other rows. -/
theorem Rewrites.foreign (rewrites : Rewrites id rewrite desk decided) (other : id ≠ pendingId) :
    getPendingAction decided.pendingActions pendingId = getPendingAction desk.pendingActions pendingId := by
  simpa [Ne.symm other] using rewrites.lookup pendingId

/-- A rewrite that adds votes lets the votes grow. -/
theorem Rewrites.grows (rewrites : Rewrites id rewrite desk decided)
    (grown : id = pendingId → ∀ row ∈ getPendingAction desk.pendingActions id,
      (rewrite row).payload = row.payload ∧
        (Live row → Live (rewrite row) ∧ row.approvals <+: (rewrite row).approvals) ∧
        (row.status = "approved" → (rewrite row).status = "approved")) :
    Grows pendingId desk (desk.decided decided) := by
  by_cases own : id = pendingId
  · subst own
    refine ⟨rewrites.registered, rewrites.governed, List.Subset.refl _, fun row found => ?_⟩
    exact ⟨rewrite row, rewrites.own.trans (congrArg _ found), grown rfl row found⟩
  · exact .of_same_row rewrites.registered rewrites.governed (List.Subset.refl _) (rewrites.foreign own)

/-- A rewrite that is counted anew keeps the votes counted. -/
theorem Rewrites.counted (rewrites : Rewrites id rewrite desk decided)
    (counted : Counted pendingId «namespace» quorum desk) (grows : Grows pendingId desk (desk.decided decided))
    (recounted : id = pendingId → ∀ row ∈ getPendingAction desk.pendingActions id,
      RowCounted desk «namespace» quorum (rewrite row)) :
    Counted pendingId «namespace» quorum (desk.decided decided) := by
  refine counted.next grows (fun row found => ?_) (fun _ among _ => .inl among) fun _ among _ => .inl among
  by_cases own : id = pendingId
  · subst own
    obtain ⟨before, beforeFound, rfl⟩ := Option.map_eq_some_iff.mp (rewrites.own.symm.trans found)
    exact (recounted rfl before beforeFound).kept grows
  · exact (counted.row row ((rewrites.foreign own).symm.trans found)).kept grows

end Rewriting

/-- A recorded vote keeps the votes counted. -/
theorem voting_keeps (counted : Counted pendingId «namespace» quorum desk) {action : PendingAction}
    {approver now : String} {asked : Nat}
    (relies : PollCall.Relies pendingId «namespace» quorum desk
      (.polling ballot (.voting action approver now asked)))
    (lands : ballot.action.id = pendingId → VoteLands quorum desk (.voting action approver now asked)) :
    KeepsCount pendingId «namespace» quorum desk
      (PollCall.statement (.polling ballot (.voting action approver now asked)) desk) := by
  obtain ⟨rfl, rfl⟩ := relies.1
  let votes := votesWith ballot.action ballot.agent now
  let decided : DecisionDesk := { desk.toDecisionDesk with
    pendingActions := recordApprovals desk.pendingActions ballot.action.id votes
    primaryKey := desk.primaryKey.recordApprovals ballot.action.id votes }
  have rewrites : Rewrites ballot.action.id (fun row => votedRow row ballot.action ballot.agent now) desk decided := by
    refine ⟨rfl, rfl, fun query => (getPendingAction_recordApprovals ballot.action.id votes).trans ?_⟩
    simp only [ite_and]
    rfl
  have lands (own : ballot.action.id = pendingId) (row : PendingAction)
      (found : row ∈ getPendingAction desk.pendingActions ballot.action.id) (waits : row.status = "pending") :
      row.approvals = ballot.action.approvals := lands own row found waits
  have grows : Grows pendingId desk (desk.decided decided) :=
    rewrites.grows fun own row found => votedRow_grows (lands own row found)
  have recounted : Counted pendingId «namespace» quorum (desk.decided decided) := by
    refine rewrites.counted counted grows fun own row found => ?_
    obtain ⟨cast, _, ⟨current, currentFound, _, payload, _⟩, _, registered, unvoted⟩ := relies.2 own
    obtain rfl : row = current := Option.some.inj (found.symm.trans currentFound)
    exact rowCounted_votedRow (counted.row row (own ▸ found))
      ⟨cast, (id_of_getPendingAction found).symm, payload⟩ registered unvoted (lands own row found)
  have ran : ApproveCall.statement desk.toDecisionDesk (.voting ballot.action ballot.agent now asked) =
      (decided, if asked ≤ votes.length then
          .deciding ballot.action.id ballot.agent.toLower now "decision write failed at consensus threshold"
        else .answered (.pending votes.length asked)) := rfl
  refine poll_keeps relies ran grows recounted ?_ fun own => ?_
  · split_ifs
    · exact rfl
    · trivial
  obtain ⟨_, _, ⟨row, found, live, _⟩, isQuorum, _⟩ := relies.2 own
  have isCounted := counted.row row (own ▸ found)
  have after : getPendingAction decided.pendingActions ballot.action.id =
      some (votedRow row ballot.action ballot.agent now) := rewrites.own.trans (congrArg _ found)
  split_ifs with enough
  · refine ⟨_, after, votedRow_live live, ?_⟩
    unfold votedRow
    split_ifs with waits
    · exact isQuorum ▸ enough
    · exact isCounted.enough (live.resolve_left waits)
  · refine fun _ => ⟨_, after, ?_⟩
    unfold votedRow
    split_ifs with waits
    · refine .inr ⟨waits, ?_⟩
      have whole : (agents votes).length ≤ quorum - 1 := by
        rw [agents, List.length_map]
        omega
      rw [List.take_of_length_le whole, agents_votesWith]
      exact List.mem_append_right _ List.mem_cons_self
    · exact .inl (live.resolve_left waits)

/-- A decision keeps the votes counted. -/
theorem deciding_keeps (counted : Counted pendingId «namespace» quorum desk) {id decider now failure : String}
    (relies : PollCall.Relies pendingId «namespace» quorum desk
      (.polling ballot (.deciding id decider now failure))) :
    KeepsCount pendingId «namespace» quorum desk
      (PollCall.statement (.polling ballot (.deciding id decider now failure)) desk) := by
  obtain rfl : id = ballot.action.id := relies.1
  let settled := decidePendingAction desk.pendingActions ballot.action.id true decider now
  let decided : DecisionDesk := { desk.toDecisionDesk with
    pendingActions := settled.1
    primaryKey := desk.primaryKey.decide ballot.action.id decider now true }
  have rewrites : Rewrites ballot.action.id (fun row => approvedRow row decider now) desk decided := by
    refine ⟨rfl, rfl, fun query => (getPendingAction_decide ballot.action.id decider now true).trans ?_⟩
    simp only [ite_and]
    rfl
  have grows : Grows pendingId desk (desk.decided decided) :=
    rewrites.grows fun _ row _ => approvedRow_grows row decider now
  have recounted : Counted pendingId «namespace» quorum (desk.decided decided) := by
    refine rewrites.counted counted grows fun own row found => ?_
    obtain ⟨_, _, _, current, currentFound, live, enough⟩ := relies.2 own
    obtain rfl : row = current := Option.some.inj (found.symm.trans currentFound)
    exact rowCounted_approvedRow (counted.row row (own ▸ found)) live enough
  refine poll_keeps relies rfl grows recounted trivial fun own counts => ?_
  obtain ⟨_, _, _, row, found, live, _⟩ := relies.2 own
  exact ⟨approvedRow row decider now, rewrites.own.trans (congrArg _ found), .inl (status_approvedRow live)⟩

/-- A statement of a call keeps the counts. -/
theorem statement_keepsCount (counted : Counted pendingId «namespace» quorum desk) {call : PollCall}
    (relies : call.Relies pendingId «namespace» quorum desk)
    (lands : ∀ ballot polled, call = .polling ballot polled → ballot.action.id = pendingId →
      VoteLands quorum desk polled) :
    KeepsCount pendingId «namespace» quorum desk (call.statement desk) := by
  cases call with
  | done => exact ⟨counted, trivial, fun _ relies => relies⟩
  | polling ballot call =>
      cases call with
      | resolving => exact resolving_keeps counted relies
      | checking => exact checking_keeps counted relies (lands ballot _ rfl)
      | voting => exact voting_keeps counted relies (lands ballot _ rfl)
      | deciding => exact deciding_keeps counted relies
      | answered outcome =>
          have same : Grows pendingId desk (desk.decided desk.toDecisionDesk) :=
            .of_same_row rfl rfl (List.Subset.refl _) rfl
          exact poll_keeps relies rfl same counted trivial fun own => (relies.2 own).2.2.2

end Polling

section Runs

variable {pendingId «namespace» : String} {quorum : Nat} {desk : PollingDesk}

/-- Before the approval there are fewer answered agents than the quorum. -/
theorem Counted.approves (counted : Counted pendingId «namespace» quorum desk) :
    AnsweredQuorumApproves pendingId quorum desk := by
  intro payload answered
  by_contra undecided
  have early (voter : String) (voted : Voted desk.isRegistered desk.answered pendingId payload voter) :
      ∃ row, getPendingAction desk.pendingActions pendingId = some row ∧
        voter ∈ (agents row.approvals).take (quorum - 1) := by
    obtain ⟨ballot, among, rfl, _, own, _⟩ := voted
    obtain ⟨row, found, approved | ⟨_, early⟩⟩ := counted.answered ballot among own
    · exact absurd ⟨row, own ▸ found, approved⟩ undecided
    · exact ⟨row, own ▸ found, early⟩
  obtain ⟨voters, distinct, enough, voted⟩ := id answered
  have someVoter : 0 < voters.length := by omega
  obtain ⟨row, found, _⟩ := early _ (voted _ (List.getElem_mem someVoter))
  have few := answered.le_length fun voter voted => by
    obtain ⟨other, otherFound, early⟩ := early voter voted
    rwa [Option.some.inj (otherFound.symm.trans found)] at early
  rw [List.length_take] at few
  omega

/-- In a run whose relayed rows keep the votes and whose votes land on the votes that they have read, only what a
quorum was asked runs, and a quorum that was answered approves. -/
theorem votes_counted (pendingId «namespace» : String) (quorum : Nat) (start : PollingDesk)
    (turns : List (Library.Turn PollRequest)) (governed : start.approverOf «namespace» = .consensus quorum)
    (opens : ∀ row ∈ getPendingAction start.pendingActions pendingId, Opens «namespace» row)
    (clean : start.asked = [] ∧ start.answered = [] ∧ start.ran = [])
    (every : EveryStep pollStep
      (fun session turn => RelaysVotes pendingId «namespace» session turn ∧ CountsVote pendingId quorum session turn)
      ⟨start, []⟩ turns) :
    ∀ taken rest, turns = taken ++ rest →
      RanOnQuorum pendingId quorum (run pollStep ⟨start, []⟩ taken).shared ∧
        AnsweredQuorumApproves pendingId quorum (run pollStep ⟨start, []⟩ taken).shared := by
  rintro taken rest rfl
  have preserved (session : Session PollingDesk PollCall) (turn : Library.Turn PollRequest)
      (meets : RelaysVotes pendingId «namespace» session turn ∧ CountsVote pendingId quorum session turn)
      (outlined : session.Outlined (Counted pendingId «namespace» quorum)
        fun desk call => PollCall.Relies pendingId «namespace» quorum desk call) :
      (pollStep session turn).Outlined (Counted pendingId «namespace» quorum)
        fun desk call => PollCall.Relies pendingId «namespace» quorum desk call := by
    refine Session.outlined_next outlined (fun request begins => ?_) fun call held relies => ?_
    · subst begins
      exact enterPoll_keeps outlined.store request meets.1
    · refine statement_keepsCount outlined.store relies fun ballot polled isPoll own => ?_
      have lands := meets.2
      rw [CountsVote, held, isPoll] at lands
      exact lands own
  have initially : Counted pendingId «namespace» quorum start := by
    obtain ⟨_, answered, ran⟩ := clean
    refine ⟨governed, fun row found => rowCounted_of_opens (opens row found), ?_, ?_⟩
    · rw [answered]
      exact fun _ among => absurd among List.not_mem_nil
    · rw [RanOnQuorum, ran]
      exact fun _ among => absurd among List.not_mem_nil
  have reached := (run_invariant preserved (EveryStep.append_iff.mp every).1
    ⟨initially, fun _ among => absurd among List.not_mem_nil⟩).store
  exact ⟨reached.ran, reached.approves⟩

def queuedStore : PendingAction where
  id := "p1"
  actionType := "store"
  memoryId := none
  «namespace» := "team"
  payload := Json.empty
  requestedBy := "carol"
  requestedAt := "2026-01-01T00:00:00+00:00"
  status := "pending"
  decidedBy := none
  decidedAt := none
  approvals := []

/-- The namespace asks a number of agents. -/
def teamDesk (quorum : Nat) : PollingDesk where
  pendingActions := [queuedStore]
  primaryKey := List.nodup_singleton _
  approverOf _ := .consensus quorum
  isRegistered _ := true
  asked := []
  answered := []
  ran := []

def asksApproval (agent : String) : Library.Turn PollRequest :=
  .start (.approve "p1" agent "2026-01-02T00:00:00+00:00" .http)

/-- The row with the vote of alice, which a peer relays again. -/
def aliceVoted : PendingAction :=
  { queuedStore with approvals := [⟨"alice".toLower, "2026-01-02T00:00:00+00:00"⟩] }

/-- Alice votes, her vote is relayed back, and bob is shown it and checked. -/
def bobChecked : List (Library.Turn PollRequest) :=
  [asksApproval "alice", .resume 0, .resume 0, .resume 0, .start (.upsert aliceVoted), asksApproval "bob", .resume 2,
    .resume 2]

def approvedThenRun : List (Library.Turn PollRequest) :=
  bobChecked ++ [.resume 2, .resume 2, .start (.execute "p1")]

/-- Bob has yet to write his vote beside the one of alice. -/
def bobVoting : Session PollingDesk PollCall where
  shared := { teamDesk 2 with
    pendingActions := [aliceVoted]
    primaryKey := List.nodup_singleton _
    asked := [⟨"alice", queuedStore⟩, ⟨"bob", aliceVoted⟩]
    answered := [⟨"alice", queuedStore⟩] }
  calls := [.done, .done, .polling ⟨"bob", aliceVoted⟩ (.voting aliceVoted "bob" "2026-01-02T00:00:00+00:00" 2)]

theorem aliceVoted_unlike_bob :
    (aliceVoted.approvals.any fun approval => approval.agentId.toLower = "bob".toLower) = false := by decide +kernel

theorem bobVoting_reached : run pollStep ⟨teamDesk 2, []⟩ bobChecked = bobVoting := by
  have checked (desk : DecisionDesk) (registered : desk.isRegistered "bob" = true) :
      checkRegistered desk aliceVoted "bob" "2026-01-02T00:00:00+00:00" (some 2) =
        .voting aliceVoted "bob" "2026-01-02T00:00:00+00:00" 2 := by
    unfold checkRegistered
    rw [registered, aliceVoted_unlike_bob]
    rfl
  have last : pollStep (run pollStep ⟨teamDesk 2, []⟩ (bobChecked.take 7)) (.resume 2) = bobVoting := by
    have waits : run pollStep ⟨teamDesk 2, []⟩ (bobChecked.take 7) =
        { bobVoting with
          calls := [.done, .done,
            .polling ⟨"bob", aliceVoted⟩ (.checking aliceVoted "bob" "2026-01-02T00:00:00+00:00" (some 2))] } := rfl
    rw [waits]
    have statement : PollCall.statement
        (.polling ⟨"bob", aliceVoted⟩ (.checking aliceVoted "bob" "2026-01-02T00:00:00+00:00" (some 2)))
          bobVoting.shared =
        (bobVoting.shared,
          .polling ⟨"bob", aliceVoted⟩ (.voting aliceVoted "bob" "2026-01-02T00:00:00+00:00" 2)) := by
      unfold PollCall.statement ApproveCall.statement
      dsimp only
      rw [checked bobVoting.shared.toDecisionDesk rfl]
    simp only [pollStep, Session.next]
    exact congrArg (fun after : PollingDesk × PollCall => (⟨after.1, [.done, .done, after.2]⟩ : Session _ _)) statement
  exact last

/-- The action runs once both agents have voted. -/
theorem approvedThenRun_counted :
    (run pollStep ⟨teamDesk 2, []⟩ approvedThenRun).shared.ran.map (·.id) = ["p1"] ∧
      RanOnQuorum "p1" 2 (run pollStep ⟨teamDesk 2, []⟩ approvedThenRun).shared ∧
      AnsweredQuorumApproves "p1" 2 (run pollStep ⟨teamDesk 2, []⟩ approvedThenRun).shared := by
  refine ⟨by decide +kernel, votes_counted "p1" "team" 2 (teamDesk 2) approvedThenRun rfl (fun row found => ?_)
    ⟨rfl, rfl, rfl⟩ ?_ approvedThenRun [] rfl⟩
  · obtain rfl : queuedStore = row := Option.some.inj found
    exact ⟨rfl, by decide, fun _ => rfl⟩
  · refine EveryStep.append_iff.mpr ⟨⟨⟨trivial, trivial⟩, ⟨trivial, fun _ => trivial⟩,
      ⟨trivial, fun _ _ present => ?_⟩, ⟨trivial, fun _ stored found _ => ?_⟩,
      ⟨fun _ => ⟨rfl, rfl, rfl, rfl⟩, trivial⟩, ⟨trivial, trivial⟩, ⟨trivial, fun _ => trivial⟩,
      ⟨trivial, fun _ _ _ => Nat.one_lt_two⟩, trivial⟩, ?_⟩
    · exact absurd present List.not_mem_nil
    · rw [← Option.some.inj found]
    · rw [bobVoting_reached]
      refine ⟨⟨trivial, fun _ stored found _ => ?_⟩, ⟨trivial, fun _ => trivial⟩, ⟨trivial, trivial⟩, trivial⟩
      rw [← Option.some.inj found]

/-- Two agents read the row before either of them writes its vote. -/
def votedAtOnce : List (Library.Turn PollRequest) :=
  [asksApproval "alice", asksApproval "bob", .resume 0, .resume 0, .resume 0, .resume 1, .resume 1, .resume 1]

/-- A peer relays the row as approved. -/
def relayedApproved : List (Library.Turn PollRequest) :=
  [.start (.upsert { queuedStore with status := "approved" }), .start (.execute "p1")]

theorem votedAtOnce_loses :
    ¬ AnsweredQuorumApproves "p1" 2 (run pollStep ⟨teamDesk 2, []⟩ votedAtOnce).shared ∧
      ¬ RanOnQuorum "p1" 2 (run pollStep ⟨teamDesk 2, []⟩ relayedApproved).shared := by
  constructor
  · intro approves
    have distinct : "alice".toLower ≠ "bob".toLower := by
      intro same
      have letters : ("alice".map Char.toLower).toList = ("bob".map Char.toLower).toList := congrArg String.toList same
      simp at letters
    have answered : DistinctQuorum (max 1 2) (Voted (teamDesk 2).isRegistered
        (run pollStep ⟨teamDesk 2, []⟩ votedAtOnce).shared.answered "p1" Json.empty) := by
      refine ⟨["alice".toLower, "bob".toLower], ?_, le_refl 2, fun voter among => ?_⟩
      · exact List.nodup_cons.mpr ⟨fun among => distinct (List.mem_singleton.mp among), List.nodup_singleton _⟩
      · rcases List.mem_cons.mp among with rfl | among
        · exact ⟨⟨"alice", queuedStore⟩, List.mem_cons_self, rfl, rfl, rfl, rfl⟩
        · rw [List.mem_singleton.mp among]
          exact ⟨⟨"bob", queuedStore⟩, List.mem_cons_of_mem _ List.mem_cons_self, rfl, rfl, rfl, rfl⟩
    obtain ⟨row, found, approved⟩ := approves Json.empty answered
    rw [← Option.some.inj found] at approved
    exact absurd approved (by decide)
  · intro backed
    obtain ⟨voters, _, enough, asked⟩ := backed { queuedStore with status := "approved" } List.mem_cons_self rfl
    cases voters with
    | nil => exact absurd enough (by decide)
    | cons voter voters =>
        obtain ⟨ballot, cast, _⟩ := asked voter List.mem_cons_self
        exact absurd cast List.not_mem_nil

end Runs
end AiMemory.Storage
