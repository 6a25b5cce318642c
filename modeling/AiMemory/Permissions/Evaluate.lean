import AiMemory.Hooks.Decision
import AiMemory.Machine.Strings
import AiMemory.Permissions.Glob
import Mathlib.Data.List.Sort

/-
This file embeds the permission pipeline over the rules, the hooks and the mode.
-/

namespace AiMemory.Permissions
open AiMemory.Crdt AiMemory.Hooks AiMemory.Machine

inductive Op where
  | memoryStore | memoryLink | memoryDelete | memoryArchive | memoryConsolidate | memoryReplay
  deriving DecidableEq

def Op.asStr : Op → String
  | memoryStore => "memory_store"
  | memoryLink => "memory_link"
  | memoryDelete => "memory_delete"
  | memoryArchive => "memory_archive"
  | memoryConsolidate => "memory_consolidate"
  | memoryReplay => "memory_replay"

inductive PermissionsMode where
  | enforce | advisory | off
  deriving DecidableEq

inductive Decision where
  | allow
  | deny (reason : String)
  | modify (delta : MemoryDelta)
  | ask (prompt : String)

structure PermissionContext where
  op : Op
  «namespace» : String
  agentId : String
  payload : Json

/-- A rule cannot rewrite a payload. -/
inductive RuleDecision where
  | allow | deny | ask
  deriving DecidableEq

structure PermissionRule where
  namespacePattern : String
  op : String
  agentPattern : String
  decision : RuleDecision
  reason : Option String

section Rules

def PermissionRule.covers (ctx : PermissionContext) (rule : PermissionRule) : Bool :=
  rule.op = ctx.op.asStr ∧ globMatches rule.namespacePattern ctx.namespace ∧
    globMatches rule.agentPattern ctx.agentId

/-- A longer literal start comes first, and then an agent pattern without a star. -/
def PermissionRule.specificity (rule : PermissionRule) : Nat × Nat :=
  (patternSpecificity rule.namespacePattern, if rule.agentPattern.toList.contains '*' then 0 else 1)

def PermissionRule.precedes (first second : PermissionRule) : Bool :=
  second.specificity.1 < first.specificity.1 ∨
    (second.specificity.1 = first.specificity.1 ∧ second.specificity.2 ≤ first.specificity.2)

/-- The sort is stable. -/
def matchedRules (ctx : PermissionContext) (rules : List PermissionRule) : List PermissionRule :=
  (rules.filter fun rule => rule.covers ctx).insertionSort fun first second => first.precedes second

def PermissionRule.denial (rule : PermissionRule) : String :=
  rule.reason.getD ("denied by permission rule (namespace_pattern=" ++ rule.namespacePattern ++ ", op=" ++
    rule.op ++ ", agent_pattern=" ++ rule.agentPattern ++ ")")

def PermissionRule.prompt (rule : PermissionRule) : String :=
  rule.reason.getD ("permission rule requests approval (namespace_pattern=" ++ rule.namespacePattern ++
    ", op=" ++ rule.op ++ ")")

end Rules

section Hooks

def hookDenial : HookDecision → Option String
  | .deny reason _ => some reason
  | _ => none

def hookDelta : HookDecision → Option MemoryDelta
  | .modify delta => some delta
  | _ => none

def hookPrompt : HookDecision → Option String
  | .askUser prompt _ _ => some prompt
  | _ => none

def hookAllows : HookDecision → Bool
  | .allow => true
  | _ => false

/-- The fields of the next delta override those of the prior one. -/
def mergeDelta (prior : Option MemoryDelta) (next : MemoryDelta) : MemoryDelta :=
  MemoryDelta.mergeDeltaInto (prior.getD .empty) next

def composeDeltas (hookDecisions : List HookDecision) : Option MemoryDelta :=
  hookDecisions.foldl (fun composed hook =>
    match hookDelta hook with
    | some next => some (mergeDelta composed next)
    | none => composed) none

end Hooks

section Passes

variable (matched : List PermissionRule) (hookDecisions : List HookDecision)

/-- The rules deny before the hooks. -/
def denyPass : Option String :=
  match matched.find? fun rule => rule.decision = .deny with
  | some rule => some rule.denial
  | none => hookDecisions.findSome? hookDenial

def allowPass : Bool :=
  (matched.any fun rule => rule.decision = .allow) || hookDecisions.any hookAllows

def askPass : Option String :=
  match matched.find? fun rule => rule.decision = .ask with
  | some rule => some rule.prompt
  | none => hookDecisions.findSome? hookPrompt

end Passes

def modeDefaultFor (_mode : PermissionsMode) (_ctx : PermissionContext) : Decision := .allow

section Evaluate

variable (plain : Char → Bool)

/-- A delta into another namespace must pass the rules of that namespace. -/
def escalation (rebound : PermissionContext → Decision) (ctx : PermissionContext) (delta : MemoryDelta) :
    Option Decision :=
  match delta.namespace with
  | none => none
  | some newNs =>
      if newNs = ctx.namespace then none
      else
        match rebound { ctx with «namespace» := newNs } with
        | .deny reason => some (.deny ("namespace escalation rejected: hook proposed Modify into " ++
            "namespace " ++ strDebug plain newNs ++ " (from pinned " ++ strDebug plain ctx.namespace ++
            ") which is denied: " ++ reason))
        | .ask reason => some (.ask ("namespace escalation requires approval: hook proposed Modify into " ++
            "namespace " ++ strDebug plain newNs ++ " (from pinned " ++ strDebug plain ctx.namespace ++
            "); rebound rule prompts: " ++ reason))
        | .allow | .modify _ => none

/-- The last pass resolves an ask through the mode. -/
def askOutcome (ctx : PermissionContext) (mode : PermissionsMode) : Option String → Decision
  | none => modeDefaultFor mode ctx
  | some prompt =>
      match mode with
      | .enforce => .deny ("permission ask escalated to deny under enforce mode: " ++ prompt)
      | .advisory | .off => .ask prompt

/-- The pipeline runs over the evaluation of a rebound namespace. -/
def evaluateOver (rebound : PermissionContext → Decision) (ctx : PermissionContext)
    (hookDecisions : List HookDecision) (rules : List PermissionRule) (mode : PermissionsMode) : Decision :=
  if mode = .off then .allow
  else
    let matched := matchedRules ctx rules
    match denyPass matched hookDecisions with
    | some reason => .deny reason
    | none =>
        match composeDeltas hookDecisions with
        | some delta => (escalation plain rebound ctx delta).getD (.modify delta)
        | none =>
            if allowPass matched hookDecisions then .allow
            else askOutcome ctx mode (askPass matched hookDecisions)

/-- Without hooks the pipeline rebinds no namespace. -/
def evaluateRules (rules : List PermissionRule) (mode : PermissionsMode) (ctx : PermissionContext) :
    Decision :=
  evaluateOver plain (fun _ => .allow) ctx [] rules mode

def evaluateWith (ctx : PermissionContext) (hookDecisions : List HookDecision)
    (rules : List PermissionRule) (mode : PermissionsMode) : Decision :=
  evaluateOver plain (evaluateRules plain rules mode) ctx hookDecisions rules mode

/-- A pass without hooks never asks for a rebound namespace. -/
theorem evaluateOver_nil (rebound : PermissionContext → Decision) (ctx : PermissionContext)
    (rules : List PermissionRule) (mode : PermissionsMode) :
    evaluateOver plain rebound ctx [] rules mode = evaluateRules plain rules mode ctx := rfl

/-- The evaluation calls itself without hooks on the rebound namespace. -/
theorem evaluateWith_recursion (ctx : PermissionContext) (hookDecisions : List HookDecision)
    (rules : List PermissionRule) (mode : PermissionsMode) :
    evaluateWith plain ctx hookDecisions rules mode =
      evaluateOver plain (fun rebound => evaluateWith plain rebound [] rules mode) ctx hookDecisions rules
        mode := by
  have rebound : evaluateRules plain rules mode =
      fun rebound => evaluateWith plain rebound [] rules mode := by
    funext rebound
    exact (evaluateOver_nil plain _ rebound rules mode).symm
  rw [evaluateWith, rebound]

end Evaluate
end AiMemory.Permissions
