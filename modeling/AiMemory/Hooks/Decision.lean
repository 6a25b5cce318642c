import AiMemory.Crdt.Memory

/-
This file embeds the hook events, the decisions of the hooks and the errors of their executors.
-/

namespace AiMemory.Hooks
open AiMemory.Crdt AiMemory.Machine

inductive HookEvent where
  | preStore
  | postStore
  | preRecall
  | postRecall
  | preSearch
  | postSearch
  | preDelete
  | postDelete
  | prePromote
  | postPromote
  | preLink
  | postLink
  | preConsolidate
  | postConsolidate
  | preGovernanceDecision
  | postGovernanceDecision
  | onIndexEviction
  | preArchive
  | preTranscriptStore
  | postTranscriptStore
  | preRecallExpand
  | preReflect
  | postReflect
  | preCompaction
  | onCompactionRollback
  | preSignalSend
  | postSignalAck
  deriving DecidableEq

def eventWire : HookEvent → String
  | .preStore => "pre_store"
  | .postStore => "post_store"
  | .preRecall => "pre_recall"
  | .postRecall => "post_recall"
  | .preSearch => "pre_search"
  | .postSearch => "post_search"
  | .preDelete => "pre_delete"
  | .postDelete => "post_delete"
  | .prePromote => "pre_promote"
  | .postPromote => "post_promote"
  | .preLink => "pre_link"
  | .postLink => "post_link"
  | .preConsolidate => "pre_consolidate"
  | .postConsolidate => "post_consolidate"
  | .preGovernanceDecision => "pre_governance_decision"
  | .postGovernanceDecision => "post_governance_decision"
  | .onIndexEviction => "on_index_eviction"
  | .preArchive => "pre_archive"
  | .preTranscriptStore => "pre_transcript_store"
  | .postTranscriptStore => "post_transcript_store"
  | .preRecallExpand => "pre_recall_expand"
  | .preReflect => "pre_reflect"
  | .postReflect => "post_reflect"
  | .preCompaction => "pre_compaction"
  | .onCompactionRollback => "on_compaction_rollback"
  | .preSignalSend => "pre_signal_send"
  | .postSignalAck => "post_signal_ack"

/-- The events that fire before their operation. -/
def isPreEvent : HookEvent → Bool
  | .preStore | .preRecall | .preSearch | .preDelete | .prePromote | .preLink | .preConsolidate
  | .preGovernanceDecision | .preArchive | .preTranscriptStore | .preRecallExpand | .preReflect
  | .preCompaction | .preSignalSend => true
  | .postStore | .postRecall | .postSearch | .postDelete | .postPromote | .postLink | .postConsolidate
  | .postGovernanceDecision | .onIndexEviction | .postTranscriptStore | .postReflect
  | .onCompactionRollback | .postSignalAck => false

inductive EventClass where
  | write
  | read
  | index
  | transcript
  | hotPath
  deriving DecidableEq

def eventClass : HookEvent → EventClass
  | .preStore | .postStore | .preDelete | .postDelete | .prePromote | .postPromote | .preLink | .postLink
  | .preConsolidate | .postConsolidate | .preGovernanceDecision | .postGovernanceDecision | .preArchive
  | .preReflect | .postReflect | .preCompaction | .onCompactionRollback | .preSignalSend
  | .postSignalAck => .write
  | .preRecall | .postRecall | .preSearch | .postSearch => .read
  | .onIndexEviction => .index
  | .preTranscriptStore | .postTranscriptStore => .transcript
  | .preRecallExpand => .hotPath

def classDeadlineMs : EventClass → Nat
  | .write => 5000
  | .read => 2000
  | .index => 1000
  | .transcript => 5000
  | .hotPath => 50

def nanosPerMilli : Nat := 1000000

def classDeadlineForEvent (event : HookEvent) : Nat := classDeadlineMs (eventClass event) * nanosPerMilli

def u32Max : Nat := 0xffffffff

/-- A hook has what remains of the chain deadline and at most its own timeout. -/
def perHookBudgetMs (chainDeadline now hookTimeoutMs : Nat) : Option Nat :=
  if now ≥ chainDeadline then none
  else some (min (min ((chainDeadline - now) / nanosPerMilli) u32Max) hookTimeoutMs)

/-- A hook rewrites the fields that it names. -/
structure MemoryDelta where
  tier : Option Tier
  «namespace» : Option String
  title : Option String
  content : Option String
  tags : Option (List String)
  priority : Option Int
  confidence : Option F64
  source : Option String
  expiresAt : Option String
  metadata : Option Json

namespace MemoryDelta

def empty : MemoryDelta := ⟨none, none, none, none, none, none, none, none, none, none⟩

def mergeDeltaInto (acc incoming : MemoryDelta) : MemoryDelta where
  tier := incoming.tier <|> acc.tier
  «namespace» := incoming.namespace <|> acc.namespace
  title := incoming.title <|> acc.title
  content := incoming.content <|> acc.content
  tags := incoming.tags <|> acc.tags
  priority := incoming.priority <|> acc.priority
  confidence := incoming.confidence <|> acc.confidence
  source := incoming.source <|> acc.source
  expiresAt := incoming.expiresAt <|> acc.expiresAt
  metadata := incoming.metadata <|> acc.metadata

def tierValue : Tier → Json
  | .short => .string "short"
  | .mid => .string "mid"
  | .long => .string "long"

def stringsValue (strings : List String) : Json :=
  .array strings.length fun index => .string (strings.get index)

def intValue (value : Int) : Json :=
  .number (if value < 0 then .negInt value else .posInt value.toNat)

/-- The serializer writes null for a float that is no finite number. -/
def floatValue (value : F64) : Json :=
  if value.magnitude < 0x7FF0000000000000 then .number (.float value) else .null

/-- The serializer skips the absent fields. -/
def fields (delta : MemoryDelta) : List (String × Json) :=
  [("tier", delta.tier.map tierValue), ("namespace", delta.namespace.map .string),
    ("title", delta.title.map .string), ("content", delta.content.map .string),
    ("tags", delta.tags.map stringsValue), ("priority", delta.priority.map intValue),
    ("confidence", delta.confidence.map floatValue), ("source", delta.source.map .string),
    ("expires_at", delta.expiresAt.map .string), ("metadata", delta.metadata)].filterMap
    fun field => field.2.map (field.1, ·)

/-- The fields overwrite those of an object and replace any other payload. -/
def applyDeltaToPayload (payload : Json) (delta : MemoryDelta) : Json :=
  delta.fields.foldl (fun object field => object.insert field.1 field.2)
    (if payload.isObject then payload else .empty)

end MemoryDelta

inductive HookDecision where
  | allow
  | modify (delta : MemoryDelta)
  | deny (reason : String) (code : Int)
  | askUser (prompt : String) (options : List String) (default : Option String)

namespace HookDecision

def isDeny : HookDecision → Bool
  | .deny _ _ => true
  | _ => false

def degradeModifyForPostEvent (decision : HookDecision) (event : HookEvent) : HookDecision :=
  match decision with
  | .modify delta => if isPreEvent event then .modify delta else .allow
  | other => other

@[simp] theorem isDeny_degrade (decision : HookDecision) (event : HookEvent) :
    (decision.degradeModifyForPostEvent event).isDeny = decision.isDeny := by
  cases decision with
  | modify delta =>
      rw [degradeModifyForPostEvent]
      split_ifs <;> rfl
  | allow => rfl
  | deny reason code => rfl
  | askUser prompt options default => rfl

end HookDecision

/-- An operating system error is known by its text. -/
inductive ExecutorError where
  | spawn (command source : String)
  | io (source : String)
  | childExit (code : Option Int) (stderr : String)
  | decode (reason : String)
  | timeout (ms : Nat)
  | daemonUnavailable (attempts : Nat)
  | governanceRefused (command reason : String)
  deriving DecidableEq

namespace ExecutorError

def display : ExecutorError → String
  | .spawn command source => "hook spawn failed for " ++ command ++ ": " ++ source
  | .io source => "hook io error: " ++ source
  | .childExit code _ =>
      -- The error text never repeats what the child wrote to its error stream.
      "hook child exited (code " ++ (code.map toString).getD "<signaled>" ++
        "); see operator log for redacted stderr"
  | .decode reason => "hook decision decode failed: " ++ reason
  | .timeout ms => "hook timed out after " ++ toString ms ++ "ms"
  | .daemonUnavailable attempts =>
      "hook daemon unavailable after " ++ toString attempts ++ " reconnect attempts"
  | .governanceRefused command reason =>
      "hook spawn refused by governance for " ++ command ++ ": " ++ reason

def isTimeout : ExecutorError → Bool
  | .timeout _ => true
  | _ => false

end ExecutorError

end AiMemory.Hooks
