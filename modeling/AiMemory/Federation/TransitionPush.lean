import AiMemory.Actions.Lease
import AiMemory.Actions.Transition
import AiMemory.Lineage.WitnessBinding
import AiMemory.Machine.Base64
import AiMemory.Replay.NonceMirror

/-
This file proves exactly when the receiver applies each signed transition of an action at most once.
-/

namespace AiMemory.Federation
open AiMemory.Actions AiMemory.Library AiMemory.Lineage AiMemory.Machine AiMemory.Replay

/-- The fields of a pushed transition that the receiver reads. -/
structure ActionTransitionOp where
  actionId : String
  fromState : ActionState
  toState : ActionState
  claimedBy : Option String
  updatedAt : Int
  signature : Bytes
  nonce : Bytes
  deriving DecidableEq

structure SignableTransition where
  actionId : String
  «namespace» : String
  fromState : String
  toState : String
  claimedBy : Option String
  nonce : Bytes
  createdAt : Int

structure TransitionEnvironment where
  lineage : Lineage.Environment
  validateId : String → Option String
  lookupPeerPublicKey : String → Option VerifyingKey
  requireTransitionSig : Bool
  readJson : String → Option Crdt.Json

section Authorization

variable (env : TransitionEnvironment)

def canonicalCborTransition (transition : SignableTransition) : Option Bytes :=
  env.lineage.intoWriter (canonicalCborMap env.lineage
    [("action_id", .text transition.actionId), ("namespace", .text transition.namespace),
      ("from_state", .text transition.fromState), ("to_state", .text transition.toState),
      ("claimed_by", textOrNull transition.claimedBy), ("nonce", .bytes transition.nonce),
      ("created_at", .integer transition.createdAt)])

def verifyTransition (signable : SignableTransition) (signature : Bytes) (key : VerifyingKey) : Bool :=
  match tryFromSlice signature, canonicalCborTransition env signable with
  | some signature, some payload => key.verifyStrict payload signature
  | _, _ => false

inductive TransitionAuthz where
  | accept
  | rejectUnsigned
  | rejectNotEnrolled
  | rejectForged
  | rejectLeaseConflict
  deriving DecidableEq

/-- The lease of another agent refuses the transition before its signature is read. -/
def authorizeRemoteTransition (signable : SignableTransition) (signature : Bytes)
    (enrolledKey : Option VerifyingKey) (localLeaseHolder : Option String) (requireSig : Bool) : TransitionAuthz :=
  if localLeaseHolder.any fun holder => signable.claimedBy.any fun actor => holder ≠ actor then .rejectLeaseConflict
  else if signature = [] then if requireSig then .rejectUnsigned else .accept
  else
    match enrolledKey with
    | none => if requireSig then .rejectNotEnrolled else .accept
    | some key => if verifyTransition env signable signature key then .accept else .rejectForged

end Authorization

/-- The calls in flight share the tables, and the nonce cache stands beside them. No call reads the applied
transitions, which have the newest one first. -/
structure TransitionReceiver where
  actions : Session ActionTable Call
  leases : Session Actions.Store LeaseCall
  nonces : PersistentCache
  applied : List ActionTransitionOp

/-- A push under the peer of its envelope. -/
structure TransitionPush where
  peerHeader : Option String
  dryRun : Bool
  actionTransitions : List ActionTransitionOp

/-- Local calls take their turns between the pushes. Every envelope records a nonce of its own, and a restart
loads the cache from its table. -/
inductive TransitionEvent where
  | push (push : TransitionPush)
  | envelope (call : NonceCall)
  | transition (turn : Library.Turn Request)
  | lease (turn : Library.Turn LeaseRequest)
  | restart

inductive TransitionCount where
  | applied
  | noop
  | skipped
  deriving DecidableEq

section Lane

variable (env : TransitionEnvironment)

/-- The namespace is the one of the local action. -/
def ActionTransitionOp.signable (op : ActionTransitionOp) («namespace» : String) : SignableTransition where
  actionId := op.actionId
  «namespace»
  fromState := op.fromState.asStr
  toState := op.toState.asStr
  claimedBy := op.claimedBy
  nonce := op.nonce
  createdAt := op.updatedAt

/-- The nonce goes to the slot of the peer that pushes. -/
def ActionTransitionOp.nonceCall (op : ActionTransitionOp) (peerHeader : Option String) : NonceCall :=
  ⟨peerHeader.getD "", Base64.encode op.nonce⟩

namespace TransitionReceiver

def authorize (receiver : TransitionReceiver) (op : ActionTransitionOp) (row : ActionRow) : TransitionAuthz :=
  authorizeRemoteTransition env (op.signable row.namespace) op.signature
    (op.claimedBy.bind env.lookupPeerPublicKey)
    ((receiver.leases.shared.leases.lookup op.actionId).map Lease.holder) env.requireTransitionSig

/-- An empty nonce passes the gate. -/
def recordNonce (receiver : TransitionReceiver) (peerHeader : Option String) (op : ActionTransitionOp) :
    ReplayDecision × TransitionReceiver :=
  if op.nonce = [] then (.fresh, receiver)
  else
    let (decision, nonces) := recordAndCheck env.lineage.sha256 receiver.nonces (op.nonceCall peerHeader)
    (decision, { receiver with nonces })

/-- The compare-and-swap counts as applied when its update found the row. -/
def swap (receiver : TransitionReceiver) (op : ActionTransitionOp) : TransitionReceiver × TransitionCount :=
  match enter (.transitionCas op.actionId op.fromState op.toState op.claimedBy op.updatedAt)
      receiver.actions.shared with
  | (table, .swapped _) =>
      ({ receiver with actions := { receiver.actions with shared := table }, applied := op :: receiver.applied },
        .applied)
  | (table, _) => ({ receiver with actions := { receiver.actions with shared := table } }, .noop)

/-- One iteration of the receive loop. -/
def pushTransition (peerHeader : Option String) (dryRun : Bool) (receiver : TransitionReceiver)
    (op : ActionTransitionOp) : TransitionReceiver × TransitionCount :=
  if (env.validateId op.actionId).isSome then (receiver, .skipped)
  else
    match receiver.actions.shared op.actionId with
    | none => (receiver, .noop)
    | some row =>
        if dryRun then (receiver, .noop)
        else
          match receiver.authorize env op row with
          | .accept =>
              match receiver.recordNonce env peerHeader op with
              | (.replay, recorded) => (recorded, .skipped)
              | (.fresh, recorded) => recorded.swap op
          | _ => (receiver, .skipped)

def step (peerHeader : Option String) (dryRun : Bool) (receiver : TransitionReceiver) (op : ActionTransitionOp) :
    TransitionReceiver := (receiver.pushTransition env peerHeader dryRun op).1

def next (receiver : TransitionReceiver) : TransitionEvent → TransitionReceiver
  | .push push => run (step env push.peerHeader push.dryRun) receiver push.actionTransitions
  | .envelope call => { receiver with nonces := Replay.next env.lineage.sha256 receiver.nonces call }
  | .transition turn => { receiver with actions := Actions.turn env.readJson receiver.actions turn }
  | .lease turn => { receiver with leases := leaseTurn receiver.leases turn }
  | .restart => { receiver with nonces := newWithDbPersistence receiver.nonces.table }

def start (actions : ActionTable) (leases : Session Actions.Store LeaseCall) (nonces : PersistentCache) :
    TransitionReceiver := ⟨⟨actions, []⟩, leases, nonces, []⟩

end TransitionReceiver

end Lane

section Step

variable {env : TransitionEnvironment} {peerHeader : Option String} {dryRun : Bool}
  {receiver : TransitionReceiver} {op : ActionTransitionOp}

/-- With required signatures an accepted transition has a signature of its actor's enrolled key. -/
theorem verifyTransition_of_accept {signable : SignableTransition} {signature : Bytes}
    {enrolledKey : Option VerifyingKey} {localLeaseHolder : Option String}
    (accepted : authorizeRemoteTransition env signable signature enrolledKey localLeaseHolder true = .accept) :
    ∃ key ∈ enrolledKey, verifyTransition env signable signature key = true := by
  unfold authorizeRemoteTransition at accepted
  split at accepted
  · cases accepted
  · split at accepted
    · cases accepted
    · cases enrolledKey with
      | none => cases accepted
      | some key =>
          refine ⟨key, rfl, ?_⟩
          by_contra forged
          simp only [forged] at accepted
          cases accepted

/-- The cache still holds the fingerprint in the slot of the calling peer. -/
def Remembered (sha256 : Bytes → Digest) (cache : FederationNonceCache) (call : NonceCall) : Prop :=
  ∃ slot ∈ slotOf cache.inner call.peerId, fingerprint sha256 call.peerId call.nonce ∈ slot.seen

/-- A nonce is remembered exactly when its fingerprint is in the slot of its peer. -/
theorem remembered_iff {sha256 : Bytes → Digest} {cache : FederationNonceCache} {call : NonceCall} :
    Remembered sha256 cache call ↔
      fingerprint sha256 call.peerId call.nonce ∈ (touchedSlot cache call.peerId).seen := by
  unfold Remembered touchedSlot
  cases slotOf cache.inner call.peerId with
  | none => simp [PeerNonceSlot.empty]
  | some slot => simp

/-- A replay is answered exactly for a remembered nonce. -/
theorem recordAndCheck_replay_iff {sha256 : Bytes → Digest} {state : PersistentCache} {call : NonceCall} :
    (recordAndCheck sha256 state call).1 = .replay ↔ Remembered sha256 state.cache call := by
  rw [remembered_iff]
  by_cases known : fingerprint sha256 call.peerId call.nonce ∈ (touchedSlot state.cache call.peerId).seen
  · rw [recordAndCheck_replay sha256 known]
    exact iff_of_true rfl known
  · rw [recordAndCheck_fresh sha256 known]
    exact iff_of_false nofun known

namespace TransitionReceiver

/-- The pushing peer has spent the nonce of the transition. -/
def Spent (env : TransitionEnvironment) (receiver : TransitionReceiver) (peerHeader : Option String)
    (op : ActionTransitionOp) : Prop :=
  op.nonce ≠ [] ∧ Remembered env.lineage.sha256 receiver.nonces.cache (op.nonceCall peerHeader)

/-- The transition is authorized, and its action stands at the foot of its edge. -/
structure Attempts (env : TransitionEnvironment) (receiver : TransitionReceiver) (dryRun : Bool)
    (op : ActionTransitionOp) : Prop where
  wellFormed : env.validateId op.actionId = none
  writes : dryRun = false
  legal : op.fromState.canTransitionTo op.toState = true
  stands : ∃ row ∈ receiver.actions.shared op.actionId,
    receiver.authorize env op row = .accept ∧ row.state = op.fromState.asStr

/-- The push is a replay exactly when its nonce is spent. -/
theorem recordNonce_replay_iff :
    (receiver.recordNonce env peerHeader op).1 = .replay ↔ receiver.Spent env peerHeader op := by
  unfold recordNonce Spent
  by_cases unsigned : op.nonce = []
  · rw [if_pos unsigned]
    exact iff_of_false nofun fun spent => spent.1 unsigned
  · rw [if_neg unsigned]
    exact recordAndCheck_replay_iff.trans (iff_and_self.mpr fun _ => unsigned)

@[simp] theorem actions_recordNonce :
    (receiver.recordNonce env peerHeader op).2.actions = receiver.actions := by
  unfold recordNonce
  split_ifs <;> rfl

@[simp] theorem applied_recordNonce :
    (receiver.recordNonce env peerHeader op).2.applied = receiver.applied := by
  unfold recordNonce
  split_ifs <;> rfl

/-- The swap applies a legal edge whose foot the row stands at, and nothing else. -/
theorem applied_swap {row : ActionRow} (stored : receiver.actions.shared op.actionId = some row) :
    (receiver.swap op).1.applied =
      if op.fromState.canTransitionTo op.toState = true ∧ row.state = op.fromState.asStr then op :: receiver.applied
      else receiver.applied := by
  unfold swap enter
  by_cases legal : op.fromState.canTransitionTo op.toState = true
  · by_cases stands : row.state = op.fromState.asStr <;> simp [legal, stored, stands]
  · simp [legal]

/-- A push is attempted exactly when every check before the swap accepts it. -/
theorem attempts_iff {row : ActionRow} (stored : receiver.actions.shared op.actionId = some row) :
    receiver.Attempts env dryRun op ↔ env.validateId op.actionId = none ∧ dryRun = false ∧
      receiver.authorize env op row = .accept ∧ op.fromState.canTransitionTo op.toState = true ∧
        row.state = op.fromState.asStr := by
  constructor
  · rintro ⟨wellFormed, writes, legal, other, present, accepted, stands⟩
    obtain rfl := Option.some.inj (stored.symm.trans present)
    exact ⟨wellFormed, writes, accepted, legal, stands⟩
  · rintro ⟨wellFormed, writes, accepted, legal, stands⟩
    exact ⟨wellFormed, writes, legal, row, stored, accepted, stands⟩

open Classical in
/-- One iteration applies exactly the attempts that are not spent. -/
theorem applied_step : (receiver.step env peerHeader dryRun op).applied =
    if receiver.Attempts env dryRun op ∧ ¬ receiver.Spent env peerHeader op then op :: receiver.applied
    else receiver.applied := by
  unfold step pushTransition
  by_cases wellFormed : env.validateId op.actionId = none
  · rw [wellFormed, Option.isSome_none, if_neg Bool.false_ne_true]
    cases stored : receiver.actions.shared op.actionId with
    | none =>
        rw [if_neg]
        rintro ⟨⟨_, _, _, row, present, _⟩, _⟩
        rw [stored] at present
        cases present
    | some row =>
        simp only [attempts_iff stored, wellFormed, true_and]
        cases dryRun with
        | true => simp
        | false =>
            by_cases accepted : receiver.authorize env op row = .accept
            · simp only [accepted, true_and]
              cases replayed : receiver.recordNonce env peerHeader op with
              | mk decision recorded =>
                  have kept : recorded.actions = receiver.actions ∧ recorded.applied = receiver.applied := by
                    rw [show recorded = (receiver.recordNonce env peerHeader op).2 by rw [replayed]]
                    exact ⟨actions_recordNonce, applied_recordNonce⟩
                  rw [← recordNonce_replay_iff, replayed]
                  cases decision with
                  | replay => simp [kept.2]
                  | fresh =>
                      rw [← kept.1] at stored
                      simp [applied_swap stored, kept.2]
            · simp [accepted]
  · rw [if_pos (Option.isSome_iff_ne_none.mpr wellFormed), if_neg fun both => wellFormed both.1.wellFormed]

/-- With required signatures every attempt carries a signature of the key that its actor has enrolled. -/
theorem Attempts.verified (attempts : receiver.Attempts env dryRun op) (required : env.requireTransitionSig = true) :
    ∃ actor ∈ op.claimedBy, ∃ key ∈ env.lookupPeerPublicKey actor, ∃ row ∈ receiver.actions.shared op.actionId,
      verifyTransition env (op.signable row.namespace) op.signature key = true := by
  obtain ⟨row, stored, accepted, -⟩ := attempts.stands
  rw [authorize, required] at accepted
  obtain ⟨key, enrolled, verified⟩ := verifyTransition_of_accept accepted
  obtain ⟨actor, named, found⟩ := Option.bind_eq_some_iff.mp enrolled
  exact ⟨actor, named, key, found, row, stored, verified⟩

end TransitionReceiver
end Step

section Runs

variable (env : TransitionEnvironment)

namespace TransitionReceiver

/-- No signed transition was applied twice. -/
def AppliedOnce (receiver : TransitionReceiver) : Prop := receiver.applied.Nodup

/-- A transition that was applied before attempts its edge again only with a nonce that its peer has spent. -/
def GateHolds (peerHeader : Option String) (dryRun : Bool) (receiver : TransitionReceiver)
    (op : ActionTransitionOp) : Prop :=
  op ∈ receiver.applied → receiver.Attempts env dryRun op → receiver.Spent env peerHeader op

/-- The gate holds for each transition of the push in its turn. -/
def PushGated (receiver : TransitionReceiver) : TransitionEvent → Prop
  | .push push => EveryStep (step env push.peerHeader push.dryRun) (GateHolds env push.peerHeader push.dryRun)
      receiver push.actionTransitions
  | _ => True

variable {env} {receiver : TransitionReceiver}

/-- The gate holds exactly when the step applies nothing twice. -/
theorem gateHolds_iff {peerHeader : Option String} {dryRun : Bool} {op : ActionTransitionOp}
    (once : receiver.AppliedOnce) :
    receiver.GateHolds env peerHeader dryRun op ↔ (receiver.step env peerHeader dryRun op).AppliedOnce := by
  rw [AppliedOnce, applied_step, GateHolds]
  split_ifs with applies
  · rw [List.nodup_cons, and_iff_left (show receiver.applied.Nodup from once)]
    exact ⟨fun gated present => applies.2 (gated present applies.1), fun new present => absurd present new⟩
  · refine iff_of_true (fun _ attempts => ?_) once
    by_contra fresh
    exact applies ⟨attempts, fresh⟩

/-- No transition leaves the record. -/
theorem applied_suffix_step (peerHeader : Option String) (dryRun : Bool) (op : ActionTransitionOp) :
    receiver.applied <:+ (receiver.step env peerHeader dryRun op).applied := by
  rw [applied_step]
  split_ifs
  · exact List.suffix_cons op receiver.applied
  · exact List.suffix_rfl

theorem applied_suffix_next (event : TransitionEvent) :
    receiver.applied <:+ (receiver.next env event).applied := by
  cases event with
  | push push =>
      have grows : ∀ (later : TransitionReceiver) (op : ActionTransitionOp), receiver.applied <:+ later.applied →
          receiver.applied <:+ (later.step env push.peerHeader push.dryRun op).applied :=
        fun later op kept => kept.trans (applied_suffix_step push.peerHeader push.dryRun op)
      exact run_invariant_always grows push.actionTransitions List.suffix_rfl
  | envelope call => exact List.suffix_rfl
  | transition turn => exact List.suffix_rfl
  | lease turn => exact List.suffix_rfl
  | restart => exact List.suffix_rfl

/-- A push applies nothing twice exactly when it is gated. -/
theorem pushGated_iff (event : TransitionEvent) (once : receiver.AppliedOnce) :
    receiver.PushGated env event ↔ (receiver.next env event).AppliedOnce := by
  cases event with
  | push push =>
      have lost : ∀ (before : TransitionReceiver) (op : ActionTransitionOp),
          (before.step env push.peerHeader push.dryRun op).AppliedOnce → before.AppliedOnce :=
        fun before op later => later.sublist (applied_suffix_step push.peerHeader push.dryRun op).sublist
      exact EveryStep.iff_last lost (fun _ _ here => gateHolds_iff here) once
  | envelope call => exact iff_of_true trivial once
  | transition turn => exact iff_of_true trivial once
  | lease turn => exact iff_of_true trivial once
  | restart => exact iff_of_true trivial once

/-- No signed transition is applied twice exactly when every repeated attempt finds its nonce spent by the
peer that pushes it. -/
theorem applied_once_iff (env : TransitionEnvironment) (actions : ActionTable)
    (leases : Session Actions.Store LeaseCall) (nonces : PersistentCache) (events : List TransitionEvent) :
    EveryStep (next env) (PushGated env) (start actions leases nonces) events ↔
      (run (next env) (start actions leases nonces) events).AppliedOnce := by
  have lost : ∀ (receiver : TransitionReceiver) (event : TransitionEvent),
      (receiver.next env event).AppliedOnce → receiver.AppliedOnce :=
    fun receiver event later => later.sublist (applied_suffix_next event).sublist
  have first : (start actions leases nonces).AppliedOnce := List.nodup_nil
  exact EveryStep.iff_last lost (fun _ event here => pushGated_iff event here) first

end TransitionReceiver
end Runs

section Samples

def pendingTable : ActionTable := fun id =>
  if id = "a1" then some { runningRow with state := "pending", claimedBy := none } else none

def claimSignature : SignatureBytes :=
  ⟨beBytes 32 0xc11232b6d23f8b74d5a325ab096664e316a0cbb8de38917036f1037df74b80d8 ++
    beBytes 32 0x27b757bb998569eb524d43e48e50cd6387dd43e53e59e86b3b9d0ddc1e717204, by decide⟩

/-- The agent claims the action under a nonce of sixteen bytes. -/
def claimOp : ActionTransitionOp where
  actionId := "a1"
  fromState := .pending
  toState := .claimed
  claimedBy := some "ai:alice"
  updatedAt := 20
  signature := claimSignature
  nonce := beBytes 16 0xa0a1a2a3a4a5a6a7a8a9aaabacadaeaf

def fingerprintInput (peerId nonce : String) : Bytes :=
  beBytes 4 (utf8 peerId).length ++ utf8 peerId ++ beBytes 4 (utf8 nonce).length ++ utf8 nonce

/-- The environment before any key is enrolled covers the nonces of two peers. -/
def unenrolled : TransitionEnvironment where
  lineage := { writerOnly with
    sha256 := digestOfTable
      [(fingerprintInput "peer-a" "e1",
          0x83a32eeeb6d209cb259645a519fc6c7e89b1fedbf0cf65675e807d4f3bb997c1),
        (fingerprintInput "peer-b" "e2",
          0x6948a032e038f5642fb81866fa288b4e0c21e4f51b4b4564bddceaaaf4fd6af4),
        (fingerprintInput "peer-a" (Base64.encode claimOp.nonce),
          0x42bd70a83ac61bd6bf45d97b057ba5d12d2a42f8188ee339a31a535604a160cc),
        (fingerprintInput "peer-b" (Base64.encode claimOp.nonce),
          0x3324df63de7e28b45fe1c8ab3d700cef210c27d411959e7f5c5a710e36cde4ad)] }
  validateId _ := none
  lookupPeerPublicKey _ := none
  requireTransitionSig := true
  readJson _ := none

/-- The enrolled key accepts the claim alone. -/
def claimEnvironment : TransitionEnvironment :=
  { unenrolled with
    lookupPeerPublicKey := fun agent =>
      if agent = "ai:alice" then some {
        toBytes := aliceKey
        verifyStrict := fun message signature =>
          some message = canonicalCborTransition unenrolled (claimOp.signable "_act") ∧ signature = claimSignature }
      else none }

/-- Two peers push the claim, and the action is released in between. -/
def rewrappedClaim : List TransitionEvent :=
  [.envelope ⟨"peer-a", "e1"⟩, .push ⟨some "peer-a", false, [claimOp]⟩,
    .transition (.start (.transition "a1" .pending none 30)), .transition (.resume 0),
    .envelope ⟨"peer-b", "e2"⟩, .push ⟨some "peer-b", false, [claimOp]⟩]

def rewrappedReceiver : TransitionReceiver :=
  run (TransitionReceiver.next claimEnvironment)
    (.start pendingTable ⟨⟨0, .empty, fun _ => []⟩, []⟩ (newWithDbPersistence .empty)) rewrappedClaim

/-- The claim of one agent is applied once for each of the two peers. -/
theorem rewrappedClaim_applied_twice :
    claimEnvironment.requireTransitionSig = true ∧ rewrappedReceiver.applied = [claimOp, claimOp] ∧
      ¬ rewrappedReceiver.AppliedOnce := by
  have twice : rewrappedReceiver.applied = [claimOp, claimOp] := by decide +kernel
  refine ⟨rfl, twice, fun once => ?_⟩
  rw [TransitionReceiver.AppliedOnce, twice] at once
  exact (List.nodup_cons.mp once).1 List.mem_cons_self

end Samples
end AiMemory.Federation
