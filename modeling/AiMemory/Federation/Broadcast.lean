import AiMemory.Federation.Replay
import AiMemory.Federation.SyncPush

/-
This file embeds the broadcast of one memory to the peers and the count of their acknowledgements.
-/

namespace AiMemory.Federation
open AiMemory.Attestation AiMemory.Crdt AiMemory.Library AiMemory.Lineage AiMemory.Machine AiMemory.Storage

section Tracker

inductive QuorumFailureReason where
  | unreachable | timeout | idDrift | inFlight
  deriving DecidableEq, Repr

inductive QuorumError where
  | quorumNotMet (got needed : Nat) (reason : QuorumFailureReason)
  | localWriteFailed (detail : String)
  deriving DecidableEq, Repr

structure AckTracker (Peer : Type) where
  w : Nat
  localCommitted : Bool
  acks : Finset Peer
  idDrifts : List Peer

variable {Peer : Type} [DecidableEq Peer]

namespace AckTracker

def new (Peer : Type) (w : Nat) : AckTracker Peer := ⟨w, false, ∅, []⟩

def recordLocal (tracker : AckTracker Peer) : AckTracker Peer := { tracker with localCommitted := true }

/-- A peer counts once. -/
def recordPeerAck (tracker : AckTracker Peer) (peer : Peer) : AckTracker Peer :=
  { tracker with acks := insert peer tracker.acks }

def recordIdDrift (tracker : AckTracker Peer) (peer : Peer) : AckTracker Peer :=
  { tracker with idDrifts := tracker.idDrifts ++ [peer] }

/-- The deadline only chooses the reason of a failure. -/
def finalise (tracker : AckTracker Peer) (pastDeadline : Bool) : Except QuorumError Nat :=
  if tracker.localCommitted = false then
    .error (.localWriteFailed "local commit not recorded before finalise")
  else if tracker.w ≤ tracker.acks.card + 1 then .ok (tracker.acks.card + 1)
  else
    .error (.quorumNotMet (tracker.acks.card + 1) tracker.w
      (if pastDeadline then if tracker.acks = ∅ then .unreachable else .timeout else .inFlight))

end AckTracker
end Tracker

section Post

def statusText : Nat → String
  | 400 => "400 Bad Request"
  | 401 => "401 Unauthorized"
  | 403 => "403 Forbidden"
  | 409 => "409 Conflict"
  | 429 => "429 Too Many Requests"
  | status => toString status

def httpStatusReason (status : Nat) : String := "http " ++ statusText status

/-- The answer to a push echoes no identifiers. -/
def PushResponse.ids (_ : PushResponse) : Option (List String) := none

/-- Every success that does not disagree about the identifier counts. -/
def postOnce (expectedId : String) (response : PushResponse) : AckOutcome :=
  if 200 ≤ response.status ∧ response.status < 300 then
    match response.ids with
    | some ids => if ids ≠ [] ∧ expectedId ∉ ids then .idDrift else .ack
    | none => .ack
  else if response.status = 429 then .throttled (httpStatusReason response.status)
  else .fail (httpStatusReason response.status)

/-- A failed post is tried once more. -/
inductive Attempt where
  | first
  | retry (reason : String)
  | done
  deriving DecidableEq, Repr

end Post

section Broadcast

variable {Peer : Type} [DecidableEq Peer] (env : Peer → ReceiverEnvironment) (senderAgentId : String)
  (memory : Memory) (shipped : Bool)

/-- The body of a broadcast carries one memory. -/
def broadcastBody : SyncPushBody :=
  { emptyBody senderAgentId with memories := [memory], embeddings := shipped.toNat }

/-- The broadcaster with its posts, the answers in flight and the peers; the past of a peer lists the rows that it
has held. -/
structure Broadcast where
  receivers : (peer : Peer) → Receiver (env peer)
  past : Peer → List Memory
  answers : List (Peer × PushResponse)
  attempts : Peer → Attempt
  explicitFailures : List (Peer × String)
  tracker : AckTracker Peer

/-- The network delivers a post, repeats or loses it, and brings an answer back late, twice or never; a peer changes
its own database at any time. -/
inductive NetworkTurn where
  | deliver (peer : Peer) (signatureRejected : Bool) (localAgentId : Option String)
      (stamps : Nat → Stamp (env peer).chrono)
  | answer (index : Nat)
  | lose (peer : Peer) (reason : String)
  | other (peer : Peer) (receiver : Receiver (env peer))

def broadcastRequest (signatureRejected : Bool) (localAgentId : Option String) : PushRequest where
  peerHeader := if senderAgentId.isEmpty then none else some senderAgentId
  signatureRejected := signatureRejected
  body := some (broadcastBody senderAgentId memory shipped)
  localAgentId := localAgentId

namespace Broadcast

variable {env}

def start (receivers : (peer : Peer) → Receiver (env peer)) (w : Nat) : Broadcast env where
  receivers := receivers
  past _ := []
  answers := []
  attempts _ := .first
  explicitFailures := []
  tracker := (AckTracker.new Peer w).recordLocal

/-- A peer takes a new state. -/
def receive (broadcast : Broadcast env) (peer : Peer) (receiver : Receiver (env peer)) : Broadcast env :=
  { broadcast with
    receivers := Function.update broadcast.receivers peer receiver
    past := Function.update broadcast.past peer
      (broadcast.past peer ++ (broadcast.receivers peer).memories.rows) }

/-- The outcome of a post settles its peer, unless it is the first failure. -/
def settle (broadcast : Broadcast env) (peer : Peer) (outcome : AckOutcome) : Broadcast env :=
  match broadcast.attempts peer, outcome with
  | .done, _ => broadcast
  | .first, .fail reason =>
      { broadcast with attempts := Function.update broadcast.attempts peer (.retry reason) }
  | _, .ack =>
      { broadcast with
        attempts := Function.update broadcast.attempts peer .done
        tracker := broadcast.tracker.recordPeerAck peer }
  | _, .idDrift =>
      { broadcast with
        attempts := Function.update broadcast.attempts peer .done
        tracker := broadcast.tracker.recordIdDrift peer }
  | .retry firstReason, .fail reason =>
      { broadcast with
        attempts := Function.update broadcast.attempts peer .done
        explicitFailures := broadcast.explicitFailures ++
          [(peer, "first: " ++ firstReason ++ "; retry: " ++ reason)] }
  | _, .throttled reason =>
      { broadcast with
        attempts := Function.update broadcast.attempts peer .done
        explicitFailures := broadcast.explicitFailures ++ [(peer, reason)] }

def next (broadcast : Broadcast env) : NetworkTurn env → Broadcast env
  | .deliver peer signatureRejected localAgentId stamps =>
      let (receiver, response) := syncPush (env peer)
        (broadcastRequest senderAgentId memory shipped signatureRejected localAgentId) stamps
        (broadcast.receivers peer)
      { broadcast.receive peer receiver with answers := broadcast.answers ++ [(peer, response)] }
  | .answer index =>
      match broadcast.answers[index]? with
      | some (peer, response) => broadcast.settle peer (postOnce memory.id response)
      | none => broadcast
  | .lose peer reason => broadcast.settle peer (.fail reason)
  | .other peer receiver => broadcast.receive peer receiver

end Broadcast
end Broadcast
end AiMemory.Federation
