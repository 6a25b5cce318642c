import AiMemory.Crdt.Json

/-
This file embeds the memory row that the replicas exchange.
-/

namespace AiMemory.Crdt
open AiMemory.Machine

inductive Tier where
  | short | mid | long
  deriving DecidableEq, Repr

inductive MemoryKind where
  | observation | reflection | persona | concept | entity | claim
  | relation | event | conversation | decision | goal | plan
  | step | told | instruction | intervention
  deriving DecidableEq, Repr

def MemoryKind.asStr : MemoryKind → String
  | observation => "observation"
  | reflection => "reflection"
  | persona => "persona"
  | concept => "concept"
  | entity => "entity"
  | claim => "claim"
  | relation => "relation"
  | event => "event"
  | conversation => "conversation"
  | decision => "decision"
  | goal => "goal"
  | plan => "plan"
  | step => "step"
  | told => "told"
  | instruction => "instruction"
  | intervention => "intervention"

inductive LifecycleState where
  | «open» | active | blocked | done | abandoned | tombstoned | quarantined
  deriving DecidableEq, Repr

inductive ConfidenceSource where
  | callerProvided | autoDerived | calibrated | decayed | curatorDerived
  deriving DecidableEq, Repr

structure ConfidenceSignals where
  sourceAgeDays : F64
  atomDerivation : Bool
  priorCorroborationCount : Int
  freshnessFactor : F64
  baselinePerSource : F64
  deriving DecidableEq, Repr

structure SourceSpan where
  start : Nat
  «end» : Nat
  deriving DecidableEq, Repr

structure Citation where
  uri : String
  accessedAt : String
  hash : Option String
  span : Option SourceSpan
  deriving DecidableEq, Repr

@[ext] structure Memory where
  id : String
  tier : Tier
  «namespace» : String
  title : String
  content : String
  tags : List String
  priority : Int
  confidence : F64
  source : String
  accessCount : Int
  createdAt : String
  updatedAt : String
  lastAccessedAt : Option String
  expiresAt : Option String
  metadata : Json
  reflectionDepth : Int
  memoryKind : MemoryKind
  entityId : Option String
  personaVersion : Option Int
  citations : List Citation
  sourceUri : Option String
  sourceSpan : Option SourceSpan
  confidenceSource : ConfidenceSource
  confidenceSignals : Option ConfidenceSignals
  confidenceDecayedAt : Option String
  version : Int
  lifecycleState : LifecycleState
  cid : Option String

/-- The baseline row carries the defaults of every optional field. -/
def Memory.base (id updatedAt : String) : Memory where
  id := id
  tier := .short
  «namespace» := "ns"
  title := "t"
  content := "c"
  tags := []
  priority := 1
  confidence := ⟨0x3FB999999999999A⟩
  source := "user"
  accessCount := 0
  createdAt := "2026-06-16T00:00:00+00:00"
  updatedAt := updatedAt
  lastAccessedAt := none
  expiresAt := none
  metadata := Json.empty
  reflectionDepth := 0
  memoryKind := .observation
  entityId := none
  personaVersion := none
  citations := []
  sourceUri := none
  sourceSpan := none
  confidenceSource := .callerProvided
  confidenceSignals := none
  confidenceDecayedAt := none
  version := 1
  lifecycleState := .open
  cid := none

inductive AttestLevel where
  | claimed | agentAttested
  deriving DecidableEq, Repr

namespace AttestLevel

def asStr : AttestLevel → String
  | claimed => "claimed"
  | agentAttested => "agent_attested"

/-- A verified level outranks a bare claim. -/
def rank : AttestLevel → Nat
  | claimed => 0
  | agentAttested => 1

end AttestLevel
end AiMemory.Crdt
