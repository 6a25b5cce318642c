import AiMemory.Hooks.Decision
import AiMemory.Library.SortOn

/-
This file embeds the chain of hooks and its outcomes.
-/

namespace AiMemory.Hooks
open AiMemory.Crdt AiMemory.Library

inductive HookMode where
  | exec
  | daemon
  deriving DecidableEq

inductive FailMode where
  | «open»
  | closed
  deriving DecidableEq

structure HookConfig where
  event : HookEvent
  command : String
  priority : Int
  timeoutMs : Nat
  mode : HookMode
  enabled : Bool
  «namespace» : String
  failMode : FailMode
  deriving DecidableEq

structure AskUserPrompt where
  prompt : String
  options : List String
  default : Option String
  originCommand : String
  deriving DecidableEq

inductive ChainResult where
  | allow
  | modifiedAllow (delta : MemoryDelta)
  | deny (reason : String) (code : Int)
  | askUser (queued : List AskUserPrompt)

def ChainResult.isDeny : ChainResult → Bool
  | .deny _ _ => true
  | _ => false

/-- The hooks run from the highest priority down. -/
structure HookChain where
  hooks : List HookConfig
  ordered : hooks.Pairwise fun first second => second.priority ≤ first.priority

/-- Hooks of one priority keep the order of the configuration. -/
def HookChain.new (hooks : List HookConfig) : HookChain where
  hooks := sortOn (fun hook => -hook.priority) hooks
  ordered := (sortOn_sorted (fun hook : HookConfig => -hook.priority) hooks).imp Int.le_of_neg_le_neg

/-- A fire hands the payload to the executor of a hook and takes its answer. -/
structure HookFire where
  hook : HookConfig
  payload : Json
  answer : Except ExecutorError HookDecision

/-- The clock and the executors answer at each position of the chain, or the timer elapses first. -/
structure Surroundings where
  entry : Nat
  clock : Nat → Nat
  fire : Nat → HookConfig → HookEvent → Json → Option (Except ExecutorError HookDecision)

structure ChainState where
  currentPayload : Json
  accumulatedDelta : MemoryDelta
  modified : Bool
  askuserQueue : List AskUserPrompt
  timeoutViolations : Nat
  fires : List HookFire

namespace ChainState

def start (payload : Json) : ChainState := ⟨payload, .empty, false, [], 0, []⟩

def recordTimeoutViolation (state : ChainState) : ChainState :=
  { state with timeoutViolations := (state.timeoutViolations + 1) % 2 ^ 64 }

/-- A decision moves the chain on or ends it. -/
def decide (state : ChainState) (cfg : HookConfig) : HookDecision → ChainState × Option ChainResult
  | .allow => ({ state with askuserQueue := [] }, none)
  | .modify delta =>
      ({ state with
          currentPayload := MemoryDelta.applyDeltaToPayload state.currentPayload delta
          accumulatedDelta := state.accumulatedDelta.mergeDeltaInto delta
          modified := true
          askuserQueue := [] }, none)
  | .deny reason code => (state, some (.deny reason code))
  | .askUser prompt options default =>
      ({ state with
          askuserQueue := state.askuserQueue ++ [⟨prompt, options, default, cfg.command⟩] }, none)

/-- The queue of prompts wins over the changes when no later decision cleared it. -/
def finish (state : ChainState) : ChainResult :=
  if state.askuserQueue ≠ [] then .askUser state.askuserQueue
  else if state.modified then .modifiedAllow state.accumulatedDelta
  else .allow

end ChainState

section Fire

variable (surroundings : Surroundings) (event : HookEvent) (chainDeadline : Nat)

/-- The chain visits a hook that has some of the budget left. -/
def fireHook (position : Nat) (cfg : HookConfig) (budgetMs : Nat) (state : ChainState) :
    ChainState × Option ChainResult :=
  let answer := (surroundings.fire position cfg event state.currentPayload).getD (.error (.timeout budgetMs))
  let fired := { state with fires := state.fires ++ [⟨cfg, state.currentPayload, answer⟩] }
  match answer with
  | .ok decision => fired.decide cfg (decision.degradeModifyForPostEvent event)
  | .error error =>
      let counted := if error.isTimeout then fired.recordTimeoutViolation else fired
      match cfg.failMode with
      | .open => counted.decide cfg .allow
      | .closed =>
          (counted, some (.deny ("hook " ++ cfg.command ++ " errored under fail_mode=closed: " ++
            error.display) 503))

/-- The chain skips a hook when its deadline has passed. -/
def visitHook (position : Nat) (cfg : HookConfig) (state : ChainState) : ChainState × Option ChainResult :=
  match perHookBudgetMs chainDeadline (surroundings.clock position) cfg.timeoutMs with
  | some budgetMs => fireHook surroundings event position cfg budgetMs state
  | none =>
      match cfg.failMode with
      | .open => (state.recordTimeoutViolation, none)
      | .closed =>
          (state.recordTimeoutViolation, some (.deny ("hook " ++ cfg.command ++
            " skipped under fail_mode=closed: chain class deadline exhausted") 504))

def fireFrom : Nat → List HookConfig → ChainState → ChainResult × ChainState
  | _, [], state => (state.finish, state)
  | position, cfg :: rest, state =>
      match visitHook surroundings event chainDeadline position cfg state with
      | (stopped, some result) => (result, stopped)
      | (continued, none) => fireFrom (position + 1) rest continued

end Fire

def HookChain.fire (chain : HookChain) (surroundings : Surroundings) (event : HookEvent) (payload : Json) :
    ChainResult × ChainState :=
  fireFrom surroundings event (surroundings.entry + classDeadlineForEvent event) 0 chain.hooks
    (.start payload)

end AiMemory.Hooks
