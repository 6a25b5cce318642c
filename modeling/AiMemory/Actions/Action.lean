import AiMemory.Crdt.Json

/-
This file fixes the coordination actions and their state graph.
-/

namespace AiMemory.Actions
open AiMemory.Crdt

inductive ActionState where
  | pending
  | claimed
  | inProgress
  | done
  | failed
  | abandoned
  deriving DecidableEq

namespace ActionState

def asStr : ActionState → String
  | .pending => "pending"
  | .claimed => "claimed"
  | .inProgress => "in_progress"
  | .done => "done"
  | .failed => "failed"
  | .abandoned => "abandoned"

def fromStr (text : String) : Option ActionState :=
  if text = "pending" then some .pending
  else if text = "claimed" then some .claimed
  else if text = "in_progress" then some .inProgress
  else if text = "done" then some .done
  else if text = "failed" then some .failed
  else if text = "abandoned" then some .abandoned
  else none

/-- An unknown text reads as the default state. -/
def read (text : String) : ActionState := (fromStr text).getD .pending

def canTransitionTo : ActionState → ActionState → Bool
  | .pending, .claimed => true
  | .pending, .abandoned => true
  | .claimed, .inProgress => true
  | .claimed, .pending => true
  | .claimed, .abandoned => true
  | .inProgress, .done => true
  | .inProgress, .failed => true
  | .inProgress, .abandoned => true
  | _, _ => false

def isTerminal : ActionState → Bool
  | .done => true
  | .failed => true
  | .abandoned => true
  | _ => false

@[simp] theorem read_asStr (state : ActionState) : read state.asStr = state := by
  cases state <;> decide

/-- A terminal state has no edge out. -/
theorem not_canTransitionTo_of_isTerminal {source : ActionState} (terminal : source.isTerminal = true)
    (target : ActionState) : source.canTransitionTo target = false := by
  cases source <;> first | rfl | cases terminal

end ActionState

/-- The stored columns of one action; the table is keyed by the id. -/
structure ActionRow where
  «namespace» : String
  kind : String
  state : String
  title : String
  payload : String
  priority : Int
  agentId : Option String
  claimedBy : Option String
  vectorClock : String
  metadata : String
  createdAt : Int
  updatedAt : Int

def ActionRow.actionState (row : ActionRow) : ActionState := ActionState.read row.state

structure Action where
  id : String
  «namespace» : String
  kind : String
  state : ActionState
  title : String
  payload : Json
  priority : Int
  agentId : Option String
  claimedBy : Option String
  vectorClock : Json
  metadata : Json
  createdAt : Int
  updatedAt : Int

/-- A column that is not JSON reads as null. -/
def rowToAction (readJson : String → Option Json) (id : String) (row : ActionRow) : Action where
  id
  «namespace» := row.namespace
  kind := row.kind
  state := row.actionState
  title := row.title
  payload := (readJson row.payload).getD .null
  priority := row.priority
  agentId := row.agentId
  claimedBy := row.claimedBy
  vectorClock := (readJson row.vectorClock).getD .null
  metadata := (readJson row.metadata).getD .null
  createdAt := row.createdAt
  updatedAt := row.updatedAt

/-- The primary key gives each id at most one row. -/
abbrev ActionTable := String → Option ActionRow

/-- The columns that a transition writes. -/
def ActionRow.moved (row : ActionRow) (target : ActionState) (claimedBy : Option String) (now : Int) :
    ActionRow :=
  { row with state := target.asStr, claimedBy, updatedAt := now }

@[simp] theorem ActionRow.actionState_moved (row : ActionRow) (target : ActionState)
    (claimedBy : Option String) (now : Int) : (row.moved target claimedBy now).actionState = target :=
  ActionState.read_asStr target

/-- The statement updates the rows with the id that the guard admits. -/
def ActionTable.update (table : ActionTable) (id : String) (guarded : ActionRow → Bool)
    (change : ActionRow → ActionRow) : ActionTable :=
  fun key => if key = id then (table key).map fun row => if guarded row then change row else row
    else table key

end AiMemory.Actions
