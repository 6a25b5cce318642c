import AiMemory.Crdt.VectorClock
import AiMemory.Federation.SyncPush
import AiMemory.Library.SortOn

/-
This file embeds the pull lane: the page that a peer serves, the loop that applies it, and the table of watermarks.
-/

namespace AiMemory.Federation
open AiMemory.Crdt AiMemory.Library AiMemory.Machine AiMemory.Storage

section SyncState

/-- One row of the table of watermarks. -/
structure SyncStateRow where
  lastSeenAt : String
  lastPulledAt : String
  lastPushedAt : Option String
  deriving DecidableEq, Repr

/-- The agent and its peer are the primary key. -/
abbrev SyncState := String → String → Option SyncStateRow

def SyncState.write (state : SyncState) (agentId peerId : String) (row : SyncStateRow) : SyncState :=
  fun agent peer => if agent = agentId ∧ peer = peerId then some row else state agent peer

/-- An older time never replaces a newer one. -/
def syncStateObserve (state : SyncState) (agentId peerId seenAt now : String) : SyncState :=
  state.write agentId peerId (match state agentId peerId with
    | none => ⟨seenAt, now, none⟩
    | some row => { row with
        lastSeenAt := if row.lastSeenAt < seenAt then seenAt else row.lastSeenAt
        lastPulledAt := now })

/-- Every peer that the sender has seen is observed. -/
def syncStateMerge (state : SyncState) (agentId : String) (incoming : VectorClock) (now : String) : SyncState :=
  incoming.entries.entries.foldl (fun state entry => syncStateObserve state agentId entry.1 entry.2 now) state

/-- The entry of a peer in the loaded clock. -/
def syncStateLoad (state : SyncState) (agentId peerId : String) : Option String :=
  (state agentId peerId).map (·.lastSeenAt)

/-- The first push to a peer also starts its watermark. -/
def syncStateRecordPush (state : SyncState) (agentId peerId pushedAt now : String) : SyncState :=
  state.write agentId peerId (match state agentId peerId with
    | none => ⟨now, now, some pushedAt⟩
    | some row => { row with
        lastPushedAt := match row.lastPushedAt with
          | none => some pushedAt
          | some earlier => some (if earlier < pushedAt then pushedAt else earlier) })

end SyncState

section Page

def isRecallVisible : LifecycleState → Bool
  | .open | .active | .blocked | .done | .abandoned => true
  | .tombstoned | .quarantined => false

/-- The query does not select the later columns, so the reader fills in their defaults. -/
def servedRow (row : Memory) : Memory :=
  { row with
    reflectionDepth := 0
    memoryKind := .observation
    entityId := none
    personaVersion := none
    citations := []
    sourceUri := none
    sourceSpan := none
    confidenceSource := .callerProvided
    confidenceSignals := none
    confidenceDecayedAt := none
    version := 1
    lifecycleState := .open
    cid := none }

/-- The visible rows after the time, the oldest first. -/
def rowsSince (table : MemoryTable) (since : Option String) : List Memory :=
  (table.rows.filter fun row => isRecallVisible row.lifecycleState && since.all (· < row.updatedAt)).insertionSort
    fun first second => first.updatedAt ≤ second.updatedAt

def memoriesUpdatedSince (table : MemoryTable) (since : Option String) (limit : Nat) : List Memory :=
  ((rowsSince table since).take limit).map servedRow

end Page

section Loop

variable (env : ReceiverEnvironment)

/-- The watermark follows the applied rows until one fails. -/
def advanceCatchupWatermark (latestTs : Option String) (halted : Bool) (rowTs : String) : Option String :=
  if !halted && latestTs.all (· < rowTs) then some rowTs else latestTs

/-- The loop over a page so far. -/
structure CatchupProgress where
  store : Store
  applied : Nat
  latestTs : Option String
  halted : Bool

/-- An entry that does not parse and a row that is not valid are passed over. -/
def applyPulled (progress : CatchupProgress) (pulled : Option Memory × env.chrono.Instant) : CatchupProgress :=
  match pulled.1 with
  | none => progress
  | some row =>
      if (validateMemory env.toValidators env.chrono row).isSome then progress
      else
        match insertIfNewer env.toEnvironment progress.store row pulled.2 with
        | .ok (written, _) =>
            { progress with
              store := written
              applied := progress.applied + 1
              latestTs := advanceCatchupWatermark progress.latestTs progress.halted row.updatedAt }
        | .error _ => { progress with halted := true }

def applyPage (store : Store) (page : List (Option Memory × env.chrono.Instant)) : CatchupProgress :=
  run (applyPulled env) ⟨store, 0, none, false⟩ page

end Loop
end AiMemory.Federation
