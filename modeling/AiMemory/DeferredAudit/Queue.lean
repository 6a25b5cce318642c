import AiMemory.Library.FramedLog
import AiMemory.Library.Run
import AiMemory.Machine.Chrono
import AiMemory.Rules.Engine

/-
This file embeds the refusal events, their crash-durable journal, the queue with its drainer and the recovery at boot.
-/

namespace AiMemory.DeferredAudit
open AiMemory.Crdt AiMemory.Library AiMemory.Machine AiMemory.Rules

structure DeferredAuditEvent (chrono : Chrono) where
  agentId : String
  action : AgentAction
  decision : Decision
  timestamp : chrono.Instant

/-- The serializer converts the derived types to JSON values and these to bytes. -/
structure Serde where
  toVec : Json → Bytes
  fromSlice : Bytes → Option Json
  actionToValue : AgentAction → Json
  actionFromValue : Json → Option AgentAction
  decisionToValue : Decision → Json
  decisionFromValue : Json → Option Decision

/-- The event code calls the serializer, the calendar and the hash function. -/
structure Environment where
  serde : Serde
  chrono : Chrono
  sha256 : Bytes → Digest

abbrev Event (env : Environment) := DeferredAuditEvent env.chrono

variable (env : Environment)

section Events

def canonicalBytes (event : Event env) : Bytes :=
  env.serde.toVec ((((Json.empty.insert "action" (env.serde.actionToValue event.action)).insert
    "decision" (env.serde.decisionToValue event.decision)).insert
    "agent_id" (.string event.agentId)).insert
    "timestamp" (.string (env.chrono.toRfc3339 event.timestamp)))

/-- A missing field or an undecodable variant makes the record unreadable. -/
def fromCanonicalBytes (bytes : Bytes) : Option (Event env) := do
  let value ← env.serde.fromSlice bytes
  let action ← (value.get "action").bind env.serde.actionFromValue
  let decision ← (value.get "decision").bind env.serde.decisionFromValue
  let agentId ← (value.get "agent_id").bind Json.asStr
  let text ← (value.get "timestamp").bind Json.asStr
  let timestamp ← env.chrono.parseFromRfc3339 text
  return ⟨agentId, action, decision, env.chrono.withTimezoneUtc timestamp⟩

def payloadHash (event : Event env) : Digest := env.sha256 (canonicalBytes env event)

/-- The journal gives the event back with the same payload. -/
def ReadsBack (event : Event env) : Prop :=
  ∃ again, fromCanonicalBytes env (canonicalBytes env event) = some again ∧
    canonicalBytes env again = canonicalBytes env event

end Events

section Frames

def u32Limit : Nat := 4294967296

def frame (event : Event env) : Bytes :=
  let payload := canonicalBytes env event
  leBytes 4 payload.length ++ (payload ++ (env.sha256 payload).1)

/-- The reader takes one intact frame off the front. -/
def readFrame (buf : Bytes) : Option (Event env × Bytes) :=
  if buf.length < 4 then none
  else
    let len := leValue (buf.take 4)
    let rest := buf.drop 4
    if rest.length < len + 32 then none
    else
      let payload := rest.take len
      let storedHash := (rest.drop len).take 32
      if (env.sha256 payload).1 ≠ storedHash then none
      else (fromCanonicalBytes env payload).map fun event => (event, rest.drop (len + 32))

/-- The replay stops at the first torn, corrupt or undecodable frame. -/
def replay (journal : Bytes) : List (Event env) := (scan (readFrame env) journal).1

/-- The bytes after the last frame that the replay reads. -/
def tornTail (journal : Bytes) : Bytes := (scan (readFrame env) journal).2

/-- A durable append returns only with its whole frame, and a failed one may leave the start of it. -/
inductive WriteOutcome where
  | durable
  | failed (written : Nat)
  deriving DecidableEq

/-- The append reports whether it succeeded. -/
def append (journal : Bytes) (event : Event env) (outcome : WriteOutcome) : Bytes × Bool :=
  if u32Limit ≤ (canonicalBytes env event).length then (journal, false)
  else
    match outcome with
    | .durable => (journal ++ frame env event, true)
    | .failed written => (journal ++ (frame env event).take written, false)

end Frames

section Reading

variable {env}

/-- A whole frame reads back as its event. -/
theorem readFrame_frame {event again : Event env}
    (short : (canonicalBytes env event).length < u32Limit)
    (back : fromCanonicalBytes env (canonicalBytes env event) = some again) (rest : Bytes) :
    readFrame env (frame env event ++ rest) = some (again, rest) := by
  have header : (frame env event ++ rest).take 4 = leBytes 4 (canonicalBytes env event).length := by
    rw [frame, List.append_assoc, List.take_append_of_le_length (by simp), List.take_of_length_le (by simp)]
  have body : (frame env event ++ rest).drop 4 =
      canonicalBytes env event ++ ((env.sha256 (canonicalBytes env event)).1 ++ rest) := by
    rw [frame, List.append_assoc, List.drop_append_of_le_length (by simp), List.drop_of_length_le (by simp),
      List.nil_append, List.append_assoc]
  have length : leValue (leBytes 4 (canonicalBytes env event).length) =
      (canonicalBytes env event).length := by
    rw [leValue_leBytes]
    exact Nat.mod_eq_of_lt short
  have hash := (env.sha256 (canonicalBytes env event)).2
  have long : ¬ (frame env event ++ rest).length < 4 := by
    rw [frame, List.append_assoc, List.length_append, length_leBytes]
    omega
  rw [readFrame, if_neg long]
  simp only [header, body, length]
  rw [if_neg (by simp only [List.length_append, hash]; omega), List.take_left, List.drop_left,
    List.take_append_of_le_length (by rw [hash]), List.take_of_length_le (by rw [hash]),
    if_neg (not_not.mpr rfl),
    back, ← List.drop_drop, List.drop_left, List.drop_append_of_le_length (by rw [hash]),
    List.drop_of_length_le (by rw [hash])]
  rfl

theorem readFrame_nil : readFrame env [] = none := rfl

/-- The start of a frame is no frame. -/
theorem readFrame_take {event : Event env} (short : (canonicalBytes env event).length < u32Limit)
    {written : Nat} (torn : written < (frame env event).length) :
    readFrame env ((frame env event).take written) = none := by
  have size : (frame env event).length = 4 + ((canonicalBytes env event).length + 32) := by
    rw [frame, List.length_append, List.length_append, length_leBytes, (env.sha256 _).2]
  unfold readFrame
  split
  · rfl
  · rename_i long
    rw [List.length_take, Nat.min_eq_left (Nat.le_of_lt torn)] at long
    have header : ((frame env event).take written).take 4 =
        leBytes 4 (canonicalBytes env event).length := by
      rw [List.take_take, Nat.min_eq_left (Nat.le_of_not_lt long), frame,
        List.take_append_of_le_length (by simp), List.take_of_length_le (by simp)]
    have length : leValue (leBytes 4 (canonicalBytes env event).length) =
        (canonicalBytes env event).length := by
      rw [leValue_leBytes]
      exact Nat.mod_eq_of_lt short
    simp only [header, length]
    rw [if_pos]
    rw [List.length_drop, List.length_take, Nat.min_eq_left (Nat.le_of_lt torn)]
    omega

end Reading

section Sink

/-- One attempt to extend the chain succeeds, loses a race for the sequence or fails otherwise. -/
inductive Attempt where
  | ok | race | error
  deriving DecidableEq

/-- The database answers the calls that one append of the sink makes. -/
structure SinkAnswers where
  opens : Bool
  attempts : List Attempt
  dlqInsert : Bool
  deriving DecidableEq

inductive AppendOutcome where
  | appended | dlqLanded
  deriving DecidableEq

def appendUniqueRaceMaxRetries : Nat := 5

/-- Only a lost race is tried again, up to the retries that are left. -/
def retryLoop : Nat → List Attempt → Bool
  | _, [] => false
  | _, .ok :: _ => true
  | _, .error :: _ => false
  | 0, .race :: _ => false
  | retries + 1, .race :: rest => retryLoop retries rest

/-- The sink fails when it reaches neither the chain nor the dead-letter table. -/
def sinkAppend (answers : SinkAnswers) : Option AppendOutcome :=
  if !answers.opens then none
  else if retryLoop appendUniqueRaceMaxRetries answers.attempts then some .appended
  else if answers.dlqInsert then some .dlqLanded
  else none

end Sink

def governanceRefusalEventType : String := "governance.refusal"

structure AuditRow where
  agentId : String
  eventType : String
  payloadHash : Digest
  timestamp : String
  deriving DecidableEq

structure Tables where
  signedEvents : List AuditRow
  signedEventsDlq : List AuditRow

variable (env : Environment)

section Tables

def auditRow (event : Event env) : AuditRow :=
  ⟨event.agentId, governanceRefusalEventType, payloadHash env event, env.chrono.toRfc3339 event.timestamp⟩

def Tables.land (tables : Tables) (event : Event env) : Option AppendOutcome → Tables
  | some .appended => { tables with signedEvents := tables.signedEvents ++ [auditRow env event] }
  | some .dlqLanded => { tables with signedEventsDlq := tables.signedEventsDlq ++ [auditRow env event] }
  | none => tables

def isRefusalOf (hash : Digest) (row : AuditRow) : Bool :=
  row.eventType = governanceRefusalEventType ∧ row.payloadHash = hash

/-- The recovery skips the events of these hashes. -/
def Tables.chained (tables : Tables) (hash : Digest) : Bool := tables.signedEvents.any (isRefusalOf hash)

end Tables

section Recovery

/-- The recovery appends the events that are not chained, and it breaks off where the answers end. -/
def recoverEvents : List (Event env) → List SinkAnswers → Tables → Tables × Bool
  | [], _, tables => (tables, true)
  | event :: rest, answers, tables =>
      if tables.chained (payloadHash env event) then recoverEvents rest answers tables
      else
        match answers with
        | [] => (tables, false)
        | answer :: later => recoverEvents rest later (tables.land env event (sinkAppend answer))

/-- A recovery that reaches its end truncates the journal, unless the truncation fails. -/
def recoverDeferredAudit (journal : Bytes) (tables : Tables) (answers : List SinkAnswers)
    (truncates : Bool) : Bytes × Tables :=
  let (after, finished) := recoverEvents env (replay env journal) answers tables
  (if finished && truncates then [] else journal, after)

end Recovery

section Steps

/-- The last two fields record which events the run has submitted and which appends returned. -/
structure State where
  journal : Bytes
  queue : List (Event env)
  tables : Tables
  live : Bool
  submitted : List (Event env)
  accepted : List (Event env)

inductive Label where
  | submit (event : Event env) (outcome : WriteOutcome)
  | drain (answers : SinkAnswers)
  | crash
  | recover (answers : List SinkAnswers) (truncates : Bool)

def State.start (tables : Tables) : State env := ⟨[], [], tables, false, [], []⟩

/-- A failed journal append degrades the durability, and the event is queued all the same. -/
def submit (state : State env) (event : Event env) (outcome : WriteOutcome) : State env :=
  let (journal, durable) := append env state.journal event outcome
  { state with
    journal := journal
    queue := state.queue ++ [event]
    live := true
    submitted := state.submitted ++ [event]
    accepted := if durable then state.accepted ++ [event] else state.accepted }

/-- The drainer does not queue a failed event again. -/
def drain (state : State env) (answers : SinkAnswers) : State env :=
  match state.queue with
  | [] => state
  | event :: rest =>
      { state with queue := rest, tables := state.tables.land env event (sinkAppend answers) }

/-- The recovery runs at boot, before the hooks that submit are installed. -/
def step (state : State env) : Label env → State env
  | .submit event outcome => submit env state event outcome
  | .drain answers => drain env state answers
  | .crash => { state with queue := [], live := false }
  | .recover answers truncates =>
      if state.live then state
      else
        let (journal, tables) := recoverDeferredAudit env state.journal state.tables answers truncates
        { state with journal := journal, tables := tables }

end Steps

end AiMemory.DeferredAudit
