import AiMemory.Federation.PushDlq
import AiMemory.Library.Run

/-
This file embeds the landing of the failed pushes and the passes of the replay worker.
-/

namespace AiMemory.Federation
open AiMemory.Crdt AiMemory.Library

structure PeerEndpoint where
  id : String
  syncPushUrl : String

structure FederationConfig where
  peers : List PeerEndpoint
  senderAgentId : String

inductive AckOutcome where
  | ack
  | idDrift
  | fail (reason : String)
  | throttled (reason : String)
  deriving DecidableEq

section Landing

/-- The body of a broadcast carries one memory and the vector that ships with it. -/
def storeBody (config : FederationConfig) (memory : Json) (shipped : Option Json) : Json :=
  let body := ((Json.empty.insert "sender_agent_id" (.string config.senderAgentId)).insert "memories"
    (.array 1 fun _ => memory)).insert "dry_run" (.bool false)
  match shipped with
  | some embedding => body.insert "embeddings" (.array 1 fun _ => embedding)
  | none => body

/-- Every dispatched peer that has not acknowledged in time lands; its last explicit failure gives the
reason. -/
def landedFailures (dispatchedPeerIds acked : List String) (explicitFailures : List (String × String))
    (memoryId : String) (body : Json) : List PushFailure :=
  (dispatchedPeerIds.filter fun peerId => peerId ∉ acked).map fun peerId =>
    ⟨memoryId, peerId, body, ((explicitFailures.reverse.find? fun failure => failure.1 = peerId).map
      Prod.snd).getD "deadline_exceeded"⟩

end Landing

section Batch

def replayBatchSize : Nat := 64

def defaultReplayMaxBatch : Nat := 2048

/-- A missing, unreadable or too small override gives the default. -/
def replayMaxBatch (override : Option Nat) : Nat :=
  (override.filter fun cap => replayBatchSize ≤ cap).getD defaultReplayMaxBatch

def replayBatch (backlog override : Option Nat) : Nat :=
  match backlog with
  | some backlog => min (max backlog replayBatchSize) (replayMaxBatch override)
  | none => replayBatchSize

end Batch

section Pass

/-- The next statement or POST of the worker. -/
inductive Replayer where
  | resetting
  | counting
  | taking (batch : Nat)
  | draining (rows : List FederationPushDlqRow)
  | settling (row : FederationPushDlqRow) (outcome : AckOutcome) (rest : List FederationPushDlqRow)

/-- The database completes a statement or fails it, and the peer answers a POST. -/
structure Reply where
  completes : Bool
  outcome : AckOutcome
  now : String
  maxBatch : Option Nat

/-- A body that a peer has acknowledged through the queue. -/
structure Delivery where
  memoryId : String
  peerId : String
  syncPushUrl : String
  body : Json

/-- The last three fields record what the run has acknowledged, enqueued and opened, the newest first. -/
structure Leader where
  dlq : PushDlq
  replayer : Replayer
  acked : List Delivery
  enqueued : List PushFailure
  opened : List PushFailure

def Leader.start : Leader := ⟨PushDlq.empty, .resetting, [], [], []⟩

inductive Turn where
  | enqueue (failure : PushFailure) (now : String) (completes : Bool)
  | replay (reply : Reply)

variable (config : FederationConfig) (serde : PayloadSerde)

def PushDlq.settle (dlq : PushDlq) (row : FederationPushDlqRow) (now : String) : AckOutcome → PushDlq
  | .ack => dlq.markDlqRowReplayed row.id now
  | .idDrift => dlq.bumpDlqAttempt row.id "replay observed id_drift on peer ack"
  | .fail reason => dlq.bumpDlqAttempt row.id reason
  | .throttled reason => dlq.noteDlqThrottled row.id reason

namespace Leader

/-- A failed statement leaves the table. -/
def write (leader : Leader) (completes : Bool) (dlq : PushDlq) (replayer : Replayer) : Leader :=
  { leader with dlq := if completes then dlq else leader.dlq, replayer := replayer }

def enqueue (leader : Leader) (failure : PushFailure) (now : String) : Leader :=
  { leader with
    dlq := leader.dlq.enqueuePushFailure serde failure now
    enqueued := failure :: leader.enqueued
    opened :=
      if leader.dlq.pending failure.memoryId failure.peerId = none then failure :: leader.opened
      else leader.opened }

def post (leader : Leader) (row : FederationPushDlqRow) (rest : List FederationPushDlqRow)
    (peer : PeerEndpoint) (outcome : AckOutcome) : Leader :=
  { leader with
    replayer := .settling row outcome rest
    acked :=
      if outcome = .ack then ⟨row.memoryId, row.peerId, peer.syncPushUrl, row.payloadJson⟩ :: leader.acked
      else leader.acked }

/-- A row at the ceiling is skipped, a row of a removed peer is bumped, and every other row is posted. -/
def drain (leader : Leader) (row : FederationPushDlqRow) (rest : List FederationPushDlqRow) (reply : Reply) :
    Leader :=
  if maxReplayAttempts ≤ row.attemptCount then { leader with replayer := .draining rest }
  else
    match config.peers.find? fun peer => peer.id = row.peerId with
    | none =>
        leader.write reply.completes
          (leader.dlq.bumpDlqAttempt row.id "peer no longer in FederationConfig") (.draining rest)
    | some peer => leader.post row rest peer reply.outcome

/-- The pass ends with the gauge, or where it cannot read the rows. -/
def replay (leader : Leader) (reply : Reply) : Leader :=
  match leader.replayer with
  | .resetting => leader.write reply.completes leader.dlq.resetThrottledQuarantine .counting
  | .counting =>
      { leader with replayer := .taking (replayBatch
          (if reply.completes then some leader.dlq.pendingDlqCount else none) reply.maxBatch) }
  | .taking batch =>
      { leader with replayer :=
          if reply.completes then .draining (leader.dlq.takePendingDlqRows serde batch) else .resetting }
  | .draining [] => { leader with replayer := .resetting }
  | .draining (row :: rest) => leader.drain config row rest reply
  | .settling row outcome rest =>
      leader.write reply.completes (leader.dlq.settle row reply.now outcome) (.draining rest)

def next (leader : Leader) : Turn → Leader
  | .enqueue failure now completes => if completes then leader.enqueue serde failure now else leader
  | .replay reply => leader.replay config serde reply

/-- The last body of the pair that the peer has acknowledged. -/
def lastAcked (leader : Leader) (memoryId peerId : String) : Option Json :=
  (leader.acked.find? fun delivery => delivery.memoryId = memoryId ∧ delivery.peerId = peerId).map
    Delivery.body

def lastEnqueued (leader : Leader) (memoryId peerId : String) : Option PushFailure :=
  leader.enqueued.find? fun failure => failure.memoryId = memoryId ∧ failure.peerId = peerId

/-- The last version of the pair whose enqueue met no pending row. -/
def lastOpened (leader : Leader) (memoryId peerId : String) : Option PushFailure :=
  leader.opened.find? fun failure => failure.memoryId = memoryId ∧ failure.peerId = peerId

end Leader
end Pass
end AiMemory.Federation
