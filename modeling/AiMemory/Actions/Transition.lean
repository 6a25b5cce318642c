import AiMemory.Actions.Action
import AiMemory.Library.Interleaving

/-
This file proves exactly when the interleaved transitions of an action follow its state graph.
-/

namespace AiMemory.Actions
open AiMemory.Crdt AiMemory.Library

inductive TransitionOutcome where
  | notFound
  | illegal (source target : ActionState)
  | updated (action : Action)

inductive CasOutcome where
  | notFound
  | stateMismatch (current : ActionState)
  | illegal (source target : ActionState)
  | applied (action : Action)

/-- A query for one row fails when there is none. -/
inductive Answer where
  | transition (outcome : TransitionOutcome)
  | transitionCas (outcome : CasOutcome)
  | queryReturnedNoRows

inductive Request where
  | transition (id : String) (target : ActionState) (claimedBy : Option String) (now : Int)
  | transitionCas (id : String) (source target : ActionState) (claimedBy : Option String) (now : Int)

/-- A call in flight stands after one of its statements. -/
inductive Call where
  | checked (id : String) (source target : ActionState)
      (legal : source.canTransitionTo target = true) (claimedBy : Option String) (now : Int)
  | written (id : String)
  | swapped (id : String)
  | missed (id : String)
  | returned (answer : Answer)

/-- The second read of a call fetches the row that it wrote or a later one. -/
def refetch (readJson : String → Option Json) (table : ActionTable) (id : String)
    (wrap : Action → Answer) : Answer :=
  match table id with
  | none => .queryReturnedNoRows
  | some row => wrap (rowToAction readJson id row)

/-- The first statement of a call. -/
def enter (request : Request) (table : ActionTable) : ActionTable × Call :=
  match request with
  | .transition id target claimedBy now =>
      match table id with
      | none => (table, .returned (.transition .notFound))
      | some row =>
          if legal : row.actionState.canTransitionTo target = true then
            (table, .checked id row.actionState target legal claimedBy now)
          else (table, .returned (.transition (.illegal row.actionState target)))
  | .transitionCas id source target claimedBy now =>
      if source.canTransitionTo target = true then
        let guarded := fun row : ActionRow => decide (row.state = source.asStr)
        (table.update id guarded fun row => row.moved target claimedBy now,
          if (table id).any guarded then .swapped id else .missed id)
      else (table, .returned (.transitionCas (.illegal source target)))

/-- The next statement of a call. -/
def statement (readJson : String → Option Json) (call : Call) (table : ActionTable) :
    ActionTable × Call :=
  match call with
  -- The update has no guard on the state that the first statement read.
  | .checked id _ target _ claimedBy now =>
      (table.update id (fun _ => true) fun row => row.moved target claimedBy now, .written id)
  | .written id => (table, .returned (refetch readJson table id fun action => .transition (.updated action)))
  | .swapped id =>
      (table, .returned (refetch readJson table id fun action => .transitionCas (.applied action)))
  | .missed id =>
      (table, .returned (.transitionCas (match table id with
        | none => .notFound
        | some row => .stateMismatch row.actionState)))
  | .returned answer => (table, .returned answer)

def ActionTable.stateOf (table : ActionTable) (id : String) : Option ActionState :=
  (table id).map ActionRow.actionState

/-- A row keeps its state or follows one edge of the state graph. -/
def LegalChange : Option ActionState → Option ActionState → Prop
  | none, none => True
  | some source, some target => source = target ∨ source.canTransitionTo target = true
  | _, _ => False

instance : (before after : Option ActionState) → Decidable (LegalChange before after)
  | none, none => .isTrue trivial
  | some _, some _ => inferInstanceAs (Decidable (_ ∨ _))
  | none, some _ => .isFalse id
  | some _, none => .isFalse id

/-- An unguarded update stands when the row still has the state that its call has read, or another
state that admits the target. -/
def Call.Stands (id : String) (table : ActionTable) : Call → Prop
  | .checked key source target _ _ _ => key = id → ∀ current ∈ table.stateOf id,
      current = source ∨ current = target ∨ current.canTransitionTo target = true
  | _ => True

/-- The guarded update moves the state of its own action only. -/
theorem stateOf_update (table : ActionTable) (id other : String) (guarded : ActionRow → Bool)
    (target : ActionState) (claimedBy : Option String) (now : Int) :
    (table.update id guarded fun row => row.moved target claimedBy now).stateOf other =
      if other = id then
        (table other).map fun row => if guarded row then target else row.actionState
      else table.stateOf other := by
  unfold ActionTable.stateOf ActionTable.update
  by_cases same : other = id
  · simp only [same, if_true, Option.map_map]
    congr 1
    funext row
    by_cases admitted : guarded row = true <;> simp [admitted]
  · simp only [same, if_false]

theorem LegalChange.refl (state : Option ActionState) : LegalChange state state := by
  cases state with
  | none => trivial
  | some state => exact .inl rfl

/-- The unguarded update moves the row along an edge exactly when it stands. -/
theorem legalChange_checked_iff (table : ActionTable) (id key : String)
    {source target : ActionState} (legal : source.canTransitionTo target = true)
    (claimedBy : Option String) (now : Int) :
    LegalChange (table.stateOf id)
        ((table.update key (fun _ => true) fun row => row.moved target claimedBy now).stateOf id) ↔
      (Call.checked key source target legal claimedBy now).Stands id table := by
  rw [stateOf_update, Call.Stands]
  by_cases same : key = id
  · subst same
    simp only [if_true, true_implies, ActionTable.stateOf]
    cases table key with
    | none => exact iff_of_true trivial (by simp)
    | some row =>
        simp only [Option.map_some, LegalChange, Option.mem_some_iff, forall_eq']
        refine ⟨.inr, fun stands => stands.elim ?_ id⟩
        rintro rfl
        exact .inr legal
  · rw [if_neg (Ne.symm same)]
    exact iff_of_true (LegalChange.refl _) fun absurdly => absurd absurdly same

/-- The guarded update moves the row along its own edge. -/
theorem legalChange_cas (table : ActionTable) (id key : String) {source target : ActionState}
    (legal : source.canTransitionTo target = true) (claimedBy : Option String) (now : Int) :
    LegalChange (table.stateOf id)
      ((table.update key (fun row => decide (row.state = source.asStr)) fun row =>
        row.moved target claimedBy now).stateOf id) := by
  rw [stateOf_update]
  split
  · rw [ActionTable.stateOf]
    cases table id with
    | none => trivial
    | some row =>
        by_cases guarded : row.state = source.asStr
        · have current : row.actionState = source := by
            rw [ActionRow.actionState, guarded, ActionState.read_asStr]
          simp only [Option.map_some, guarded, decide_true, if_true, current]
          exact .inr legal
        · simp only [Option.map_some, guarded, decide_false]
          exact .inl rfl
  · exact LegalChange.refl _

/-- The first statement of a call moves no row off the state graph. -/
theorem legalChange_enter (id : String) (request : Request) (table : ActionTable) :
    LegalChange (table.stateOf id) ((enter request table).1.stateOf id) := by
  have unchanged := LegalChange.refl (table.stateOf id)
  cases request with
  | transition key target claimedBy now =>
      simp only [enter]
      split
      · exact unchanged
      · split <;> exact unchanged
  | transitionCas key source target claimedBy now =>
      simp only [enter]
      split
      · rename_i legal
        exact legalChange_cas table id key legal claimedBy now
      · exact unchanged

/-- A later statement is a legal change exactly when its update stands. -/
theorem legalChange_statement_iff (readJson : String → Option Json) (id : String) (call : Call)
    (table : ActionTable) :
    LegalChange (table.stateOf id) ((statement readJson call table).1.stateOf id) ↔
      call.Stands id table := by
  have unchanged := LegalChange.refl (table.stateOf id)
  cases call with
  | checked key source target legal claimedBy now =>
      exact legalChange_checked_iff table id key legal claimedBy now
  | written key => exact iff_of_true unchanged trivial
  | swapped key => exact iff_of_true unchanged trivial
  | missed key => exact iff_of_true unchanged trivial
  | returned answer => exact iff_of_true unchanged trivial

section Runs

variable (readJson : String → Option Json)

/-- One turn of one of the calls on the shared database. -/
def turn (session : Session ActionTable Call) : Turn Request → Session ActionTable Call :=
  session.next enter (statement readJson)

/-- The turn changes the row of the id along the state graph. -/
def MovesLegally (id : String) (session : Session ActionTable Call) (event : Turn Request) : Prop :=
  LegalChange (session.shared.stateOf id) ((turn readJson session event).shared.stateOf id)

/-- The turn runs no unguarded update on a row that has left the state its call read for a state
without an edge to the target. -/
def UpdatesStand (id : String) (session : Session ActionTable Call) (event : Turn Request) : Prop :=
  ∀ call ∈ session.resumed event, call.Stands id session.shared

/-- A terminal state of the row outlasts every later turn. -/
def TerminalStays (id : String) (start : ActionTable) (turns : List (Turn Request)) : Prop :=
  ∀ first second, turns = first ++ second →
    ∀ state ∈ (run (turn readJson) ⟨start, []⟩ first).shared.stateOf id, state.isTerminal = true →
      (run (turn readJson) ⟨start, []⟩ turns).shared.stateOf id = some state

end Runs

variable {readJson : String → Option Json}

/-- A step moves an action legally exactly when its updates stand. -/
theorem movesLegally_iff (id : String) (session : Session ActionTable Call) (event : Turn Request) :
    MovesLegally readJson id session event ↔ UpdatesStand id session event := by
  unfold MovesLegally UpdatesStand turn
  cases event with
  | start request =>
      rw [Session.shared_start]
      exact iff_of_true (legalChange_enter id request session.shared) (by simp [Session.resumed])
  | resume index =>
      cases runs : session.calls[index]? with
      | none =>
          rw [Session.next_of_idle runs]
          exact iff_of_true (LegalChange.refl _) (by simp [Session.resumed, runs])
      | some call =>
          rw [Session.shared_resume runs, legalChange_statement_iff]
          simp [Session.resumed, runs]

/-- A legal change of a terminal state is no change. -/
theorem eq_of_legalChange {before after : Option ActionState} (legal : LegalChange before after)
    {state : ActionState} (reached : before = some state) (terminal : state.isTerminal = true) :
    after = some state := by
  subst reached
  cases after with
  | none => exact legal.elim
  | some next =>
      rcases legal with rfl | edge
      · rfl
      · rw [ActionState.not_canTransitionTo_of_isTerminal terminal] at edge
        cases edge

/-- In a run of legal moves a terminal state stays. -/
theorem terminalStays_of_legal {id : String} {start : ActionTable} {turns : List (Turn Request)}
    (legal : EveryStep (turn readJson) (MovesLegally readJson id) ⟨start, []⟩ turns) :
    TerminalStays readJson id start turns := by
  rintro first second rfl state reached terminal
  have kept : ∀ session event, MovesLegally readJson id session event →
      session.shared.stateOf id = some state →
      (turn readJson session event).shared.stateOf id = some state :=
    fun session event moves current => eq_of_legalChange moves current terminal
  rw [run_append]
  exact run_invariant kept (EveryStep.append_iff.mp legal).2 reached

/-- The history of an action is a legal path exactly when every unguarded update stands. -/
theorem transition_legal_iff (readJson : String → Option Json) (id : String) (start : ActionTable)
    (turns : List (Turn Request)) :
    EveryStep (turn readJson) (UpdatesStand id) ⟨start, []⟩ turns ↔
      EveryStep (turn readJson) (MovesLegally readJson id) ⟨start, []⟩ turns ∧
        TerminalStays readJson id start turns := by
  have stepwise : ∀ session event, MovesLegally readJson id session event ↔ UpdatesStand id session event :=
    movesLegally_iff id
  constructor
  · intro stands
    have legal := stands.mono fun session event => (stepwise session event).mpr
    exact ⟨legal, terminalStays_of_legal legal⟩
  · rintro ⟨legal, -⟩
    exact legal.mono fun session event => (stepwise session event).mp

section Samples

def runningRow : ActionRow where
  «namespace» := "_act"
  kind := "test.kind"
  state := "in_progress"
  title := "build"
  payload := "{}"
  priority := 0
  agentId := none
  claimedBy := some "ai:alice"
  vectorClock := "{}"
  metadata := "{}"
  createdAt := 1
  updatedAt := 1

def runningTable : ActionTable := fun id => if id = "a1" then some runningRow else none

/-- Both calls read the running state before either of them writes. -/
def racingTurns : List (Turn Request) :=
  [.start (.transition "a1" .failed none 2), .start (.transition "a1" .done none 3), .resume 0, .resume 1]

instance (readJson : String → Option Json) (id : String) (session : Session ActionTable Call)
    (event : Turn Request) : Decidable (MovesLegally readJson id session event) :=
  inferInstanceAs (Decidable (LegalChange _ _))

/-- The second write takes a failed action to done. -/
theorem racingTurns_illegal :
    ¬ EveryStep (turn fun _ => none) (MovesLegally (fun _ => none) "a1") ⟨runningTable, []⟩ racingTurns ∧
      ¬ TerminalStays (fun _ => none) "a1" runningTable racingTurns := by
  refine ⟨by decide +kernel, fun stays => ?_⟩
  have still := stays (racingTurns.take 3) (racingTurns.drop 3) rfl .failed (by decide +kernel) rfl
  have moved : (run (turn fun _ => none) ⟨runningTable, []⟩ racingTurns).shared.stateOf "a1" =
      some .done := by decide +kernel
  rw [moved] at still
  cases still

end Samples
end AiMemory.Actions
