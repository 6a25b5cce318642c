import AiMemory.Federation.Broadcast
import AiMemory.Storage.Gates

/-
This file decides when a counted acknowledgement stands for a stored memory.
-/

namespace AiMemory.Federation
open AiMemory.Attestation AiMemory.Crdt AiMemory.Library AiMemory.Lineage AiMemory.Machine AiMemory.Storage

section Holding

variable (env : ReceiverEnvironment) (memory : Memory)

/-- The row has the identifier of the memory or the slot that the receiver gives it. -/
def SameMemory (row : Memory) : Prop :=
  row.id = memory.id ∨ slotOf row = slotOf (redactMemoryForStorage env.redactForStorage memory)

/-- The content comes from the memory, as it was sent or masked. -/
def FromMemory (content : String) : Prop :=
  content = memory.content ∨ content = (redactMemoryForStorage env.redactForStorage memory).content

/-- The content comes from the memory or from a version of it that the peer has held and that wins against it. -/
def FromWinner (past : List Memory) (content : String) : Prop :=
  FromMemory env memory content ∨
    ∃ version ∈ past, SameMemory env memory version ∧ remoteWinsLww memory version = true ∧
      content = version.content

/-- The peer holds the memory, a winning version of it, or its tombstone. -/
def Holds (past : List Memory) (store : Store) : Prop :=
  memory.id ∈ store.forgetTombstones ∨
    ∃ row ∈ store.memories.rows, SameMemory env memory row ∧ FromWinner env memory past row.content

variable (now : env.chrono.Instant)

/-- A row that the memory meets gives way to it, wins against it or already has its content. -/
def Competes (store : Store) (received : Memory) : Prop :=
  match store.memories.find memory.id with
  | some existing =>
      remoteWinsLww existing (prepareInbound env.chrono received (env.chrono.toRfc3339 now) env.skewSecs) = true ∨
        remoteWinsLww memory existing = true ∨ FromMemory env memory existing.content
  | none => memory.id ∉ store.forgetTombstones →
      ∀ existing ∈ store.memories.findSlot (slotOf (redactMemoryForStorage env.redactForStorage memory)),
        excludedWins existing (boundRow env.toEnvironment now received) = true ∨
          remoteWinsLww memory existing = true ∨ FromMemory env memory existing.content

/-- The receiver takes the memory: it passes the checks of the row, the ledger can be read, and a charged row is
merged against rows that it may meet. -/
def Lands (senderAgentId : String) (receiver : Receiver env) : Prop :=
  wellFormed env (.memory memory) = true ∧ ∃ received agent,
    receiveRow env.lineage (receivePolicy env receiver.toDatabase)
      (if senderAgentId.isEmpty then none else some senderAgentId) senderAgentId memory = .ok (received, agent) ∧
    match env.checkAndRecordStorageOnly receiver.ledger agent memory.namespace (bytesEstimate env received) with
    | .ok _ => (mergeInbound env.toEnvironment receiver.toStore received now env.skewSecs).isOk = true ∧
        Competes env memory now receiver.toStore received
    | .exceeded => True
    | .unreadable => False

end Holding

section Merge

variable {env : ReceiverEnvironment} {memory received : Memory} {store written : Store} {id : String}
  {now : env.chrono.Instant} {past : List Memory}

theorem Holds.mono {later : List Memory} (grows : past ⊆ later) (holds : Holds env memory past store) :
    Holds env memory later store := by
  rcases holds with forgotten | ⟨row, present, same, content | ⟨version, held, wins⟩⟩
  · exact .inl forgotten
  · exact .inr ⟨row, present, same, .inl content⟩
  · exact .inr ⟨row, present, same, .inr ⟨version, grows held, wins⟩⟩

/-- A stored version that wins is part of the past. -/
theorem fromWinner_stored {existing : Memory} (found : existing ∈ store.memories.rows)
    (same : SameMemory env memory existing)
    (wins : remoteWinsLww memory existing = true ∨ FromMemory env memory existing.content) :
    FromWinner env memory (past ++ store.memories.rows) existing.content := by
  rcases wins with wins | content
  · exact .inr ⟨existing, List.mem_append_right _ found, same, wins, rfl⟩
  · exact .inl content

/-- A successful merge of the memory holds it. -/
theorem mergeInbound_holds {metadata : Json} {lifecycleState : LifecycleState}
    (shape : received = { memory with metadata := metadata, lifecycleState := lifecycleState })
    (ok : mergeInbound env.toEnvironment store received now env.skewSecs = .ok (written, id))
    (competes : Competes env memory now store received) :
    memory.id ∈ written.forgetTombstones ∨ ∃ row, written.memories.find id = some row ∧
      SameMemory env memory row ∧ FromWinner env memory (past ++ store.memories.rows) row.content := by
  have sameId : received.id = memory.id := by rw [shape]
  have boundSlot : slotOf (boundRow env.toEnvironment now received) =
      slotOf (redactMemoryForStorage env.redactForStorage memory) := by
    rw [shape]
    rfl
  have boundContent : (boundRow env.toEnvironment now received).content =
      (redactMemoryForStorage env.redactForStorage memory).content := by
    rw [shape]
    rfl
  unfold Competes at competes
  rcases mergeInbound_ok ok with ⟨existing, found, rfl, lands⟩ | ⟨absent, _, ⟨forgotten, rfl⟩ | ⟨unforgotten, lands⟩⟩
  · have here := (store.memories.find_eq_some_iff _ _).mp found
    rw [sameId] at found
    simp only [found] at competes
    have content : (mergedRow env.toEnvironment now env.skewSecs existing received).content =
        pick (remoteWinsLww existing
          (prepareInbound env.chrono received (env.chrono.toRfc3339 now) env.skewSecs)) existing.content
          memory.content := by
      obtain ⟨_, _, body⟩ := prepareInbound_body env.chrono received (env.chrono.toRfc3339 now) env.skewSecs
      unfold mergedRow
      rw [mergeMemory_content, lww, body, shape]
    refine .inr ⟨_, lands, .inl (here.2.trans sameId), ?_⟩
    rw [content]
    cases wins : remoteWinsLww existing
        (prepareInbound env.chrono received (env.chrono.toRfc3339 now) env.skewSecs) with
    | true => exact .inl (.inl rfl)
    | false =>
        have stored := competes.resolve_left (by rw [wins]; exact Bool.false_ne_true)
        exact fromWinner_stored here.1 (.inl (here.2.trans sameId)) stored
  · exact .inl (sameId ▸ forgotten)
  · rw [sameId] at absent unforgotten
    simp only [absent] at competes
    rcases lands with ⟨existing, found, rfl, lands⟩ | ⟨_, rfl, lands⟩
    · have here := (store.memories.findSlot_eq_some_iff _ _).mp found
      have slot := here.2.trans boundSlot
      have content : (newerWins existing (boundRow env.toEnvironment now received)).content =
          pick (excludedWins existing (boundRow env.toEnvironment now received)) existing.content
            (boundRow env.toEnvironment now received).content := rfl
      refine .inr ⟨_, lands, .inr slot, ?_⟩
      rw [content, boundContent]
      cases wins : excludedWins existing (boundRow env.toEnvironment now received) with
      | true => exact .inl (.inr rfl)
      | false =>
          have met := competes unforgotten existing (boundSlot ▸ found)
          have stored := met.resolve_left (by rw [wins]; exact Bool.false_ne_true)
          exact fromWinner_stored here.1 (.inr slot) stored
    · exact .inr ⟨_, lands, .inl sameId, .inl (.inr boundContent)⟩

/-- The opening of a quarantined row keeps what it holds. -/
theorem dequarantine_holds {stamp : String} {row : Memory} (found : written.memories.find id = some row)
    (same : SameMemory env memory row) (content : FromWinner env memory past row.content) :
    Holds env memory past (dequarantine written id stamp) := by
  have opened : (dequarantine written id stamp).memories.find id = some (dequarantineRow stamp row) := by
    rw [dequarantine, find_rewriteRow, found, Option.map_some, if_pos rfl]
  have body : (dequarantineRow stamp row).content = row.content := by
    unfold dequarantineRow
    split_ifs <;> rfl
  refine .inr ⟨_, ((KeyedTable.find_eq_some_iff _ _ _).mp opened).1, ?_, body ▸ content⟩
  rcases same with sameId | sameSlot
  · exact .inl ((id_dequarantineRow stamp row).trans sameId)
  · exact .inr ((slotOf_dequarantineRow stamp row).trans sameSlot)

/-- A received memory that is merged is held. -/
theorem mergeReceived_holds {metadata : Json} {lifecycleState : LifecycleState}
    (shape : received = { memory with metadata := metadata, lifecycleState := lifecycleState })
    (ok : mergeReceived env store received now = .ok (written, id))
    (competes : Competes env memory now store received) :
    Holds env memory (past ++ store.memories.rows) written := by
  obtain ⟨⟨merged, mergedId⟩, mergedOk, same⟩ := map_eq_ok.mp ok
  obtain ⟨rfl, rfl⟩ := Prod.mk.inj same
  rcases @mergeInbound_holds env memory received store merged mergedId now past metadata lifecycleState shape
    mergedOk competes with forgotten | ⟨row, found, same, content⟩
  · refine .inl ?_
    split
    · unfold dequarantine rewriteRow
      split <;> exact forgotten
    · exact forgotten
  · split
    · exact dequarantine_holds found same content
    · exact .inr ⟨row, ((KeyedTable.find_eq_some_iff _ _ _).mp found).1, same, content⟩

end Merge

section Delivery

variable {env : ReceiverEnvironment} {senderAgentId : String} {memory : Memory} {shipped : Bool}
  {receiver : Receiver env} {past : List Memory} {signatureRejected : Bool} {localAgentId : Option String}
  {stamps : Nat → Stamp env.chrono}

/-- The preflight passes the body of the request on. -/
theorem preflight_ok {request : PushRequest} {body : SyncPushBody} (passed : preflight env request = .ok body) :
    request.body = some body := by
  unfold preflight at passed
  split at passed
  · contradiction
  · split at passed
    · contradiction
    · split at passed
      · contradiction
      · rename_i given
        unfold checkBody at passed
        split_ifs at passed
        rw [given, Except.ok.inj passed]

/-- A push that fails the preflight is answered with a failure. -/
theorem preflight_status {request : PushRequest} {status : Nat} (failed : preflight env request = .error status) :
    300 ≤ status := by
  unfold preflight at failed
  split at failed
  · obtain rfl := Except.error.inj failed
    decide
  · split at failed
    · obtain rfl := Except.error.inj failed
      decide
    · split at failed
      · obtain rfl := Except.error.inj failed
        decide
      · unfold checkBody at failed
        split_ifs at failed
        all_goals
          obtain rfl := Except.error.inj failed
          decide

theorem postOnce_ack {expectedId : String} {response : PushResponse} (acked : postOnce expectedId response = .ack) :
    200 ≤ response.status ∧ response.status < 300 := by
  unfold postOnce at acked
  split_ifs at acked with success
  exact success

/-- The receiver of a broadcast runs one iteration of the receive loop. -/
theorem syncPush_broadcast {request : PushRequest}
    (passed : preflight env request = .ok (broadcastBody senderAgentId memory shipped))
    (valid : wellFormed env (.memory memory) = true) :
    let pushed := pushMemory env request.peerHeader senderAgentId receiver memory (stamps 0).now
    (syncPush env request stamps receiver).1 = pushed.1 ∧
      ((syncPush env request stamps receiver).2.status = 429 ↔ pushed.2 = .quotaRefused) := by
  intro pushed
  have taken : run (takeElement env request.peerHeader (broadcastBody senderAgentId memory shipped)) ⟨receiver, []⟩
      (stampedElements env stamps (broadcastBody senderAgentId memory shipped)) = ⟨pushed.1, [pushed.2]⟩ := by
    show takeElement env request.peerHeader (broadcastBody senderAgentId memory shipped) ⟨receiver, []⟩
      (.memory memory, stamps 0) = _
    unfold takeElement
    simp only [PushProgress.refused, List.not_mem_nil, decide_false, Bool.false_eq_true, if_false, valid]
    rfl
  unfold syncPush
  rw [passed]
  dsimp only
  rw [taken]
  refine ⟨rfl, ?_⟩
  unfold PushProgress.refused
  by_cases refused : pushed.2 = .quotaRefused
  · simp [refused, PushResponse.status]
  · simp [refused, PushResponse.status, Ne.symm refused]

/-- One iteration either leaves the memory held or is refused by the ledger. -/
theorem pushMemory_lands (lands : Lands env memory (stamps 0).now senderAgentId receiver) :
    let pushed := pushMemory env (if senderAgentId.isEmpty then none else some senderAgentId) senderAgentId receiver
      memory (stamps 0).now
    Holds env memory (past ++ receiver.memories.rows) pushed.1.toStore ∨
      pushed.1 = receiver ∧ pushed.2 = .quotaRefused := by
  obtain ⟨_, received, agent, accepted, charged⟩ := lands
  obtain ⟨metadata, level, lifecycleState, shape⟩ := receiveRow_ok accepted
  intro pushed
  have body : pushed = pushMemory env (if senderAgentId.isEmpty then none else some senderAgentId) senderAgentId
      receiver memory (stamps 0).now := rfl
  unfold pushMemory at body
  rw [accepted] at body
  cases charge : env.checkAndRecordStorageOnly receiver.ledger agent memory.namespace
      (bytesEstimate env received) with
  | exceeded =>
      simp only [charge] at body
      rw [body]
      exact .inr ⟨rfl, rfl⟩
  | unreadable =>
      rw [charge] at charged
      contradiction
  | ok ledger =>
      simp only [charge] at body charged
      obtain ⟨merges, competes⟩ := charged
      cases merged : mergeReceived env receiver.toStore received (stamps 0).now with
      | error reason =>
          cases inbound : mergeInbound env.toEnvironment receiver.toStore received (stamps 0).now env.skewSecs with
          | error _ =>
              rw [inbound] at merges
              contradiction
          | ok _ =>
              rw [mergeReceived, inbound] at merged
              contradiction
      | ok result =>
          simp only [merged] at body
          rw [body]
          exact .inl (mergeReceived_holds shape merged competes)

/-- A delivery that lands leaves the memory held, or leaves the store and is not counted. -/
theorem syncPush_lands
    (lands : ∀ body, preflight env
        (broadcastRequest senderAgentId memory shipped signatureRejected localAgentId) = .ok body →
      Lands env memory (stamps 0).now senderAgentId receiver) :
    let pushed := syncPush env (broadcastRequest senderAgentId memory shipped signatureRejected localAgentId) stamps
      receiver
    Holds env memory (past ++ receiver.memories.rows) pushed.1.toStore ∨
      pushed.1 = receiver ∧ postOnce memory.id pushed.2 ≠ .ack := by
  intro pushed
  have answer : pushed = syncPush env
      (broadcastRequest senderAgentId memory shipped signatureRejected localAgentId) stamps receiver := rfl
  cases passed : preflight env
      (broadcastRequest senderAgentId memory shipped signatureRejected localAgentId) with
  | error status =>
      unfold syncPush at answer
      simp only [passed] at answer
      rw [answer]
      refine .inr ⟨rfl, fun acked => ?_⟩
      exact absurd (postOnce_ack acked).2 (preflight_status passed).not_gt
  | ok body =>
      have here := lands body passed
      obtain rfl : broadcastBody senderAgentId memory shipped = body := Option.some.inj (preflight_ok passed)
      obtain ⟨state, throttled⟩ := @syncPush_broadcast env senderAgentId memory shipped receiver stamps _ passed here.1
      rcases @pushMemory_lands env senderAgentId memory receiver past stamps here with holds | ⟨same, refused⟩
      · exact .inl (state.symm ▸ holds)
      · refine .inr ⟨state.trans same, fun acked => ?_⟩
        exact absurd (throttled.mpr refused ▸ (postOnce_ack acked).2) (by decide)

end Delivery

section Run

variable {Peer : Type} [DecidableEq Peer] {env : Peer → ReceiverEnvironment} (senderAgentId : String)
  (memory : Memory) (shipped : Bool)

/-- Every delivery that passes the preflight lands, and no other change takes a held memory away. -/
def Faithful (broadcast : Broadcast env) : NetworkTurn env → Prop
  | .deliver peer signatureRejected localAgentId stamps =>
      ∀ body, preflight (env peer)
          (broadcastRequest senderAgentId memory shipped signatureRejected localAgentId) = .ok body →
        Lands (env peer) memory (stamps 0).now senderAgentId (broadcast.receivers peer)
  | .other peer receiver =>
      Holds (env peer) memory (broadcast.past peer) (broadcast.receivers peer).toStore →
        Holds (env peer) memory (broadcast.past peer ++ (broadcast.receivers peer).memories.rows) receiver.toStore
  | .answer _ => True
  | .lose _ _ => True

/-- Every counted peer and every peer whose answer will count holds the memory. -/
structure Backed (broadcast : Broadcast env) : Prop where
  answered : ∀ peer response, (peer, response) ∈ broadcast.answers → postOnce memory.id response = .ack →
    Holds (env peer) memory (broadcast.past peer) (broadcast.receivers peer).toStore
  counted : ∀ peer ∈ broadcast.tracker.acks,
    Holds (env peer) memory (broadcast.past peer) (broadcast.receivers peer).toStore

variable {senderAgentId memory shipped}

/-- A peer that changes without losing the memory stays backed. -/
theorem Backed.receive {broadcast : Broadcast env} (backed : Backed memory broadcast) {peer : Peer}
    {receiver : Receiver (env peer)}
    (keeps : Holds (env peer) memory (broadcast.past peer) (broadcast.receivers peer).toStore →
      Holds (env peer) memory (broadcast.past peer ++ (broadcast.receivers peer).memories.rows)
        receiver.toStore) :
    Backed memory (broadcast.receive peer receiver) := by
  have carries (other : Peer)
      (holds : Holds (env other) memory (broadcast.past other) (broadcast.receivers other).toStore) :
      Holds (env other) memory ((broadcast.receive peer receiver).past other)
        ((broadcast.receive peer receiver).receivers other).toStore := by
    unfold Broadcast.receive
    by_cases same : other = peer
    · subst same
      simp only [Function.update_self]
      exact keeps holds
    · simp only [Function.update_of_ne same]
      exact holds
  exact ⟨fun other response present acked => carries other (backed.answered other response present acked),
    fun other counted => carries other (backed.counted other counted)⟩

/-- A settled post counts its peer only after an acknowledgement. -/
theorem Backed.settle {broadcast : Broadcast env} (backed : Backed memory broadcast) {peer : Peer}
    {outcome : AckOutcome}
    (holds : outcome = .ack → Holds (env peer) memory (broadcast.past peer) (broadcast.receivers peer).toStore) :
    Backed memory (broadcast.settle peer outcome) := by
  unfold Broadcast.settle
  split
  · exact backed
  · exact ⟨backed.answered, backed.counted⟩
  · refine ⟨backed.answered, fun other counted => ?_⟩
    rcases Finset.mem_insert.mp counted with rfl | before
    · exact holds rfl
    · exact backed.counted other before
  · exact ⟨backed.answered, backed.counted⟩
  · exact ⟨backed.answered, backed.counted⟩
  · exact ⟨backed.answered, backed.counted⟩

/-- No turn changes the size of the quorum. -/
theorem w_next (broadcast : Broadcast env) (turn : NetworkTurn env) :
    (broadcast.next senderAgentId memory shipped turn).tracker.w = broadcast.tracker.w := by
  have settles (peer : Peer) (outcome : AckOutcome) :
      (broadcast.settle peer outcome).tracker.w = broadcast.tracker.w := by
    unfold Broadcast.settle
    split <;> rfl
  cases turn with
  | deliver peer signatureRejected localAgentId stamps => rfl
  | answer index =>
      unfold Broadcast.next
      dsimp only
      split
      · exact settles _ _
      · rfl
  | lose peer reason => exact settles _ _
  | other peer receiver => rfl

/-- A faithful turn keeps every acknowledgement backed. -/
theorem backed_next {broadcast : Broadcast env} {turn : NetworkTurn env}
    (faithful : Faithful senderAgentId memory shipped broadcast turn) (backed : Backed memory broadcast) :
    Backed memory (broadcast.next senderAgentId memory shipped turn) := by
  cases turn with
  | deliver peer signatureRejected localAgentId stamps =>
      have landed := @syncPush_lands (env peer) senderAgentId memory shipped (broadcast.receivers peer)
        (broadcast.past peer) signatureRejected localAgentId stamps faithful
      have received := @Backed.receive _ _ env memory broadcast backed peer
        (syncPush (env peer) (broadcastRequest senderAgentId memory shipped signatureRejected localAgentId) stamps
          (broadcast.receivers peer)).1 (by
        intro holds
        rcases landed with landed | ⟨same, _⟩
        · exact landed
        · rw [same]
          exact holds.mono (List.subset_append_left _ _))
      refine ⟨fun other response present acked => ?_, received.counted⟩
      rcases List.mem_append.mp present with before | new
      · exact received.answered other response before acked
      · -- The new answer counts only where the delivery landed.
        obtain ⟨rfl, rfl⟩ := Prod.mk.inj (List.mem_singleton.mp new)
        rcases landed with landed | ⟨_, uncounted⟩
        · unfold Broadcast.next Broadcast.receive
          simp only [Function.update_self]
          exact landed
        · exact absurd acked uncounted
  | answer index =>
      unfold Broadcast.next
      dsimp only
      split
      · rename_i peer response found
        exact backed.settle fun acked => backed.answered peer response (List.mem_of_getElem? found) acked
      · exact backed
  | lose peer reason => exact backed.settle fun acked => nomatch acked
  | other peer receiver => exact backed.receive faithful

/-- In every run whose deliveries land, an accepted quorum stands for as many peers that hold the memory. -/
theorem finalised_quorum_holds (receivers : (peer : Peer) → Receiver (env peer)) (w : Nat)
    (turns : List (NetworkTurn env))
    (faithful : EveryStep (Broadcast.next senderAgentId memory shipped) (Faithful senderAgentId memory shipped)
      (Broadcast.start receivers w) turns)
    (pastDeadline : Bool) (got : Nat) :
    let reached := run (Broadcast.next senderAgentId memory shipped) (Broadcast.start receivers w) turns
    reached.tracker.finalise pastDeadline = .ok got →
      ∃ holders : Finset Peer, w ≤ holders.card + 1 ∧
        ∀ peer ∈ holders, Holds (env peer) memory (reached.past peer) (reached.receivers peer).toStore := by
  intro reached accepted
  have initially : Backed memory (Broadcast.start receivers w) :=
    ⟨nofun, fun _ absent => absurd absent (Finset.notMem_empty _)⟩
  have backed : Backed memory reached :=
    run_invariant (fun _ _ here before => backed_next here before) faithful initially
  have threshold : reached.tracker.w = w :=
    run_invariant_always (fun broadcast turn same => (w_next broadcast turn).trans same) turns rfl
  refine ⟨reached.tracker.acks, ?_, backed.counted⟩
  unfold AckTracker.finalise at accepted
  split_ifs at accepted with _ enough
  rw [← threshold]
  exact enough

end Run

section Samples

/-- One peer and no allowlist. -/
def soleReceiver : Unit → ReceiverEnvironment := fun _ => openReceiver ⟨[]⟩

def plainMemory : Memory :=
  { Memory.base "memory" "2026-06-16T10:00:00+00:00" with createdAt := "2026-06-16T10:00:00+00:00" }

def freshReceiver : Receiver (openReceiver ⟨[]⟩) where
  memories := KeyedTable.empty
  archivedMemories := []
  forgetTombstones := []
  recordStop := none
  memoryLinks := []
  archivedMemoryLinks := []
  namespaceMeta := []
  atomOf _ := none
  archivedAtomOf _ := none
  pendingActions := []
  ledger := ()

/-- This peer has stopped its record. -/
def stoppedReceiver : Receiver (openReceiver ⟨[]⟩) := { freshReceiver with recordStop := some ⟨"operator", "all"⟩ }

/-- The peer receives the memory once and its answer arrives. -/
def answeredDelivery : List (NetworkTurn soleReceiver) :=
  [.deliver () false (some "receiver") fun _ => ⟨(0 : Int), "fresh"⟩, .answer 0]

def reachedFrom (receiver : Receiver (openReceiver ⟨[]⟩)) : Broadcast soleReceiver :=
  run (Broadcast.next "hub" plainMemory false) (Broadcast.start (fun _ => receiver) 2) answeredDelivery

theorem plainMemory_lands : Lands (openReceiver ⟨[]⟩) plainMemory (0 : Int) "hub" freshReceiver := by
  refine ⟨by decide +kernel, _, _, rfl, by decide +kernel, ?_⟩
  intro _ existing found
  exact absurd found (Option.not_mem_none existing)

/-- Two peers without an allowlist. -/
def pairedReceivers : Bool → ReceiverEnvironment := fun _ => openReceiver ⟨[]⟩

def firstStamp (_ : Nat) : Stamp (openReceiver ⟨[]⟩).chrono := ⟨(0 : Int), "fresh"⟩

def pairDelivery (peer : Bool) : NetworkTurn pairedReceivers := .deliver peer false (some "receiver") firstStamp

/-- The first post to one peer is lost, and the other one gets the memory twice and answers in the wrong order. -/
def unreliableTurns : List (NetworkTurn pairedReceivers) :=
  [.lose false "timeout", pairDelivery true, pairDelivery false, pairDelivery true, .answer 2, .answer 0, .answer 1]

def reachedUnreliably : Broadcast pairedReceivers :=
  run (Broadcast.next "hub" plainMemory false) (Broadcast.start (fun _ => freshReceiver) 3) unreliableTurns

/-- The peer after the first copy. -/
def deliveredReceiver : Receiver (openReceiver ⟨[]⟩) :=
  (syncPush (openReceiver ⟨[]⟩) (broadcastRequest "hub" plainMemory false false (some "receiver")) firstStamp
    freshReceiver).1

/-- The second copy meets the row of the first one, which has its content. -/
theorem plainMemory_landsAgain : Lands (openReceiver ⟨[]⟩) plainMemory (0 : Int) "hub" deliveredReceiver := by
  refine ⟨by decide +kernel, _, _, rfl, by decide +kernel, ?_⟩
  have content : (deliveredReceiver.memories.find plainMemory.id).map Memory.content = some plainMemory.content := by
    decide +kernel
  obtain ⟨existing, found, same⟩ := Option.map_eq_some_iff.mp content
  unfold Competes
  simp only [found]
  exact .inr (.inr (.inl same))

theorem unreliableTurns_faithful :
    EveryStep (Broadcast.next "hub" plainMemory false) (Faithful "hub" plainMemory false)
      (Broadcast.start (fun _ => freshReceiver) 3) unreliableTurns := by
  unfold unreliableTurns
  refine ⟨trivial, ?_, ?_⟩
  · exact fun _ _ => plainMemory_lands
  refine ⟨?_, ?_⟩
  · exact fun _ _ => plainMemory_lands
  refine ⟨?_, ?_⟩
  · exact fun _ _ => plainMemory_landsAgain
  exact ⟨trivial, trivial, trivial, trivial⟩

/-- Both peers hold the memory when three acknowledgements are counted. -/
theorem freshReceiver_holds : reachedUnreliably.tracker.finalise false = .ok 3 ∧
    ∃ holders : Finset Bool, 3 ≤ holders.card + 1 ∧ ∀ peer ∈ holders,
      Holds (pairedReceivers peer) plainMemory (reachedUnreliably.past peer)
        (reachedUnreliably.receivers peer).toStore := by
  have accepted : reachedUnreliably.tracker.finalise false = .ok 3 := by decide +kernel
  refine ⟨accepted, ?_⟩
  unfold reachedUnreliably at accepted ⊢
  exact finalised_quorum_holds (fun _ => freshReceiver) 3 unreliableTurns unreliableTurns_faithful false 3 accepted

/-- The stopped peer skips the memory, holds nothing and is counted. -/
theorem stoppedReceiver_counted : wellFormed (openReceiver ⟨[]⟩) (.memory plainMemory) = true ∧
    (reachedFrom stoppedReceiver).tracker.finalise false = .ok 2 ∧
    ¬ ∃ holders : Finset Unit, 2 ≤ holders.card + 1 ∧ ∀ peer ∈ holders,
      Holds (soleReceiver peer) plainMemory ((reachedFrom stoppedReceiver).past peer)
        ((reachedFrom stoppedReceiver).receivers peer).toStore := by
  refine ⟨by decide +kernel, by decide +kernel, ?_⟩
  rintro ⟨holders, enough, holds⟩
  obtain ⟨peer, counted⟩ := Finset.card_pos.mp (Nat.lt_of_succ_lt_succ enough)
  rcases holds peer counted with forgotten | ⟨row, present, _⟩
  · exact absurd forgotten List.not_mem_nil
  · exact absurd present List.not_mem_nil

end Samples
end AiMemory.Federation
