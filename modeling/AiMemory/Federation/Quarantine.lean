import AiMemory.Federation.SyncPush
import AiMemory.Lineage.WitnessBinding
import AiMemory.Storage.Gates

/-
This file decides when the quarantine of a receiver hides every body that no author attested.
-/

namespace AiMemory.Federation
open AiMemory.Attestation AiMemory.Crdt AiMemory.Library AiMemory.Lineage AiMemory.Machine AiMemory.Storage

section Merge

variable {env : Storage.Environment} {store written : Store} {received : Memory} {now : env.chrono.Instant}
  {skewSecs : Int} {id : String}

/-- What a reader sees of a row. -/
def bodyOf (row : Memory) : String × String × String := (row.content, row.title, row.namespace)

/-- A stored body is the one of an inbound row, or the masked one. -/
def TakenFrom (redactForStorage : String → Option String) (row inbound : Memory) : Prop :=
  bodyOf row = bodyOf inbound ∨ bodyOf row = bodyOf (redactMemoryForStorage redactForStorage inbound)

/-- The stored row that a received row merges into, with the verdict whether the received row wins. -/
def mergeTarget (env : Storage.Environment) (store : Store) (received : Memory) (now : env.chrono.Instant)
    (skewSecs : Int) : Option (Memory × Bool) :=
  match store.memories.find received.id with
  | some existing =>
      some (existing, remoteWinsLww existing
        (prepareInbound env.chrono received (env.chrono.toRfc3339 now) skewSecs))
  | none =>
      if received.id ∈ store.forgetTombstones then none
      else (store.memories.findSlot (slotOf (boundRow env now received))).map fun existing =>
        (existing, excludedWins existing (boundRow env now received))

/-- The row after a merge: the verdict picks the body and the lifecycle together. -/
structure Merges (redactForStorage : String → Option String) (existing received : Memory) (wins : Bool)
    (merged : Memory) : Prop where
  lifecycleState : merged.lifecycleState = pick wins existing.lifecycleState received.lifecycleState
  kept : wins = false → bodyOf merged = bodyOf existing
  taken : wins = true → TakenFrom redactForStorage merged received

/-- The merge of a row with the same identifier is a merge by the winner. -/
theorem merges_mergedRow (existing : Memory) :
    Merges env.redactForStorage existing received
      (remoteWinsLww existing (prepareInbound env.chrono received (env.chrono.toRfc3339 now) skewSecs))
      (mergedRow env now skewSecs existing received) := by
  obtain ⟨metadata, updatedAt, body⟩ :=
    prepareInbound_body env.chrono received (env.chrono.toRfc3339 now) skewSecs
  unfold mergedRow
  generalize prepareInbound env.chrono received (env.chrono.toRfc3339 now) skewSecs = prepared at body ⊢
  subst body
  refine ⟨rfl, fun loses => ?_, fun wins => .inl ?_⟩
  · simp only [bodyOf, mergeMemory_content, mergeMemory_title, mergeMemory_namespace, lww, loses]
    rfl
  · simp only [bodyOf, mergeMemory_content, mergeMemory_title, mergeMemory_namespace, lww, wins]
    rfl

/-- The merge of a row with the same slot is a merge by the winner. -/
theorem merges_newerWins {existing : Memory}
    (found : store.memories.findSlot (slotOf (boundRow env now received)) = some existing) :
    Merges env.redactForStorage existing received (excludedWins existing (boundRow env now received))
      (newerWins existing (boundRow env now received)) := by
  have slot := ((store.memories.findSlot_eq_some_iff _ _).mp found).2
  obtain ⟨title, «namespace»⟩ := Prod.mk.inj slot
  refine ⟨rfl, fun loses => ?_, fun wins => .inr ?_⟩
  · simp only [bodyOf, newerWins, loses]
    rfl
  · simp only [bodyOf, newerWins, wins, title, «namespace»]
    rfl

/-- A successful merge leaves a forgotten row away, or writes one row: into its target, or as the received one. -/
theorem mergeInbound_merges (ok : mergeInbound env store received now skewSecs = .ok (written, id)) :
    (written = store ∧ store.memories.find id = none ∧ mergeTarget env store received now skewSecs = none) ∨
      ∃ merged, (∀ query, written.memories.find query =
          if query = id then some merged else store.memories.find query) ∧
        match mergeTarget env store received now skewSecs with
        | some (existing, wins) => store.memories.find id = some existing ∧
            Merges env.redactForStorage existing received wins merged
        | none => merged.lifecycleState = received.lifecycleState ∧
            TakenFrom env.redactForStorage merged received := by
  unfold mergeTarget
  rcases mergeInbound_eq_ok ok with ⟨existing, stored, rfl, _, here, overwritten⟩ | ⟨stored, inserted⟩
  · rw [stored]
    exact .inr ⟨mergedRow env now skewSecs existing received, find_overwriteFullRowById here overwritten, here,
      merges_mergedRow existing⟩
  · rw [stored]
    rcases insertIfNewer_ok inserted with ⟨forgotten, rfl, rfl⟩ | ⟨alive, upserted⟩
    · exact .inl ⟨rfl, stored, if_pos forgotten⟩
    · dsimp only
      rw [if_neg alive]
      rcases find_upsertNewerWins upserted with ⟨existing, found, rfl, lookups⟩ | ⟨free, _, rfl, lookups⟩
      · refine .inr ⟨_, lookups, ?_⟩
        rw [found]
        have present := ((store.memories.findSlot_eq_some_iff _ _).mp found).1
        exact ⟨(store.memories.find_eq_some_iff _ _).mpr ⟨present, rfl⟩, merges_newerWins found⟩
      · refine .inr ⟨_, lookups, ?_⟩
        rw [free]
        exact ⟨rfl, .inr rfl⟩

end Merge

section Opening

variable {now : String}

theorem bodyOf_dequarantineRow (row : Memory) : bodyOf (dequarantineRow now row) = bodyOf row := by
  unfold dequarantineRow
  split_ifs <;> rfl

/-- A dequarantined row is visible. -/
theorem dequarantineRow_visible (row : Memory) : (dequarantineRow now row).lifecycleState ≠ .quarantined := by
  unfold dequarantineRow
  split_ifs with hidden
  · show LifecycleState.open ≠ .quarantined
    decide
  · exact hidden

end Opening

section Steps

variable {env : ReceiverEnvironment}

/-- A receiver, with the inbound rows that were attested when it received them. -/
structure QuarantineRun (env : ReceiverEnvironment) where
  receiver : Receiver env
  attested : List Memory

structure InboundPush (chrono : Chrono) where
  peerHeader : Option String
  senderAgentId : String
  row : Memory
  now : chrono.Instant

/-- The row of a push as its receiver merges it, with the agent that the receiver charges. -/
def receivedRow (receiver : Receiver env) (push : InboundPush env.chrono) : Except AttestError (Memory × String) :=
  receiveRow env.lineage (receivePolicy env receiver.toDatabase) push.peerHeader push.senderAgentId push.row

def attestedRows (receiver : Receiver env) (push : InboundPush env.chrono) : List Memory :=
  match receivedRow receiver push with
  | .ok (received, _) => if rowIsAgentAttested received then [push.row] else []
  | .error _ => []

def quarantineStep (state : QuarantineRun env) (push : InboundPush env.chrono) : QuarantineRun env where
  receiver := (pushMemory env push.peerHeader push.senderAgentId state.receiver push.row push.now).1
  attested := state.attested ++ attestedRows state.receiver push

/-- Some attested row brought the body of the row. -/
def Vouched (redactForStorage : String → Option String) (attested : List Memory) (row : Memory) : Prop :=
  ∃ inbound ∈ attested, TakenFrom redactForStorage row inbound

/-- Every row that is not quarantined has a body that an attested row brought. -/
def QuarantineSound (redactForStorage : String → Option String) (store : Store) (attested : List Memory) : Prop :=
  ∀ id row, store.memories.find id = some row → row.lifecycleState ≠ .quarantined →
    Vouched redactForStorage attested row

def QuarantineRun.Sound (state : QuarantineRun env) : Prop :=
  QuarantineSound env.redactForStorage state.receiver.toStore state.attested

/-- The ledger charges the received row and the store takes it. -/
def Accepts (receiver : Receiver env) (push : InboundPush env.chrono) (received : Memory)
    (merged : Store × String) : Prop :=
  ∃ agent charged, receivedRow receiver push = .ok (received, agent) ∧
    env.checkAndRecordStorageOnly receiver.ledger agent push.row.namespace (bytesEstimate env received) =
      .ok charged ∧
    mergeReceived env receiver.toStore received push.now = .ok merged

/-- An accepted attested row does not lose against a quarantined row of another body. -/
def KeepsQuarantine (state : QuarantineRun env) (push : InboundPush env.chrono) : Prop :=
  ∀ received merged existing, Accepts state.receiver push received merged → rowIsAgentAttested received = true →
    mergeTarget env.toEnvironment state.receiver.toStore received push.now env.skewSecs = some (existing, false) →
    existing.lifecycleState = .quarantined →
    Vouched env.redactForStorage (state.attested ++ [push.row]) existing

section Merged

variable {store written : Store} {received inbound merged : Memory} {attested : List Memory}
  {now : env.chrono.Instant} {id : String}

theorem Vouched.more (vouched : Vouched env.redactForStorage attested merged) (more : List Memory) :
    Vouched env.redactForStorage (attested ++ more) merged := by
  obtain ⟨inbound, present, taken⟩ := vouched
  exact ⟨inbound, List.mem_append_left _ present, taken⟩

/-- A row is vouched for by its body only. -/
theorem vouched_congr {row : Memory} (same : bodyOf merged = bodyOf row) :
    Vouched env.redactForStorage attested merged ↔ Vouched env.redactForStorage attested row := by
  unfold Vouched TakenFrom
  rw [same]

theorem QuarantineSound.more (sound : QuarantineSound env.redactForStorage store attested) (more : List Memory) :
    QuarantineSound env.redactForStorage store (attested ++ more) :=
  fun id row found visible => (sound id row found visible).more more

/-- A quarantined row merges without opening another body. -/
theorem sound_of_hidden (sound : QuarantineSound env.redactForStorage store attested)
    (hidden : received.lifecycleState = .quarantined)
    (ok : mergeInbound env.toEnvironment store received now env.skewSecs = .ok (written, id)) :
    QuarantineSound env.redactForStorage written attested := by
  rcases mergeInbound_merges ok with ⟨rfl, _, _⟩ | ⟨merged, lookups, merges⟩
  · exact sound
  · intro query row found visible
    rw [lookups] at found
    split_ifs at found with here
    · cases found
      cases target : mergeTarget env.toEnvironment store received now env.skewSecs with
      | none =>
          rw [target] at merges
          exact absurd (merges.1.trans hidden) visible
      | some pair =>
          obtain ⟨existing, wins⟩ := pair
          rw [target] at merges
          obtain ⟨stored, merges⟩ := merges
          have lifecycle := merges.lifecycleState
          rw [hidden] at lifecycle
          cases wins with
          | true => exact absurd lifecycle visible
          | false =>
              have shown : existing.lifecycleState ≠ .quarantined := fun closed => visible (lifecycle.trans closed)
              exact (vouched_congr (merges.kept rfl)).mpr (sound id existing stored shown)
    · exact sound query row found visible

/-- An attested row opens its row, so the row stays sound exactly when the body that it keeps is vouched for. -/
theorem sound_of_attested_iff (sound : QuarantineSound env.redactForStorage store attested)
    (present : inbound ∈ attested) (sameBody : ∀ row, TakenFrom env.redactForStorage row received →
      TakenFrom env.redactForStorage row inbound)
    (ok : mergeInbound env.toEnvironment store received now env.skewSecs = .ok (written, id)) :
    (∀ existing, mergeTarget env.toEnvironment store received now env.skewSecs = some (existing, false) →
        existing.lifecycleState = .quarantined → Vouched env.redactForStorage attested existing) ↔
      QuarantineSound env.redactForStorage (dequarantine written id (env.chrono.toRfc3339 now)) attested := by
  have opened (query : String) : (dequarantine written id (env.chrono.toRfc3339 now)).memories.find query =
      (written.memories.find query).map fun row =>
        if query = id then dequarantineRow (env.chrono.toRfc3339 now) row else row := find_rewriteRow ..
  rcases mergeInbound_merges ok with ⟨rfl, absent, untargeted⟩ | ⟨merged, lookups, merges⟩
  · refine iff_of_true (fun existing target => ?_) fun query row found visible => ?_
    · rw [untargeted] at target
      cases target
    · rw [opened] at found
      obtain ⟨stored, was, rfl⟩ := Option.map_eq_some_iff.mp found
      have other : query ≠ id := fun same => by
        rw [same, absent] at was
        cases was
      rw [if_neg other] at visible ⊢
      exact sound query stored was visible
  · -- Only the merged row is new, and it is open now.
    have own : (dequarantine written id (env.chrono.toRfc3339 now)).memories.find id =
        some (dequarantineRow (env.chrono.toRfc3339 now) merged) := by
      rw [opened, lookups, if_pos rfl, Option.map_some, if_pos rfl]
    have sound_iff : QuarantineSound env.redactForStorage (dequarantine written id (env.chrono.toRfc3339 now))
        attested ↔ Vouched env.redactForStorage attested merged := by
      rw [← vouched_congr (@bodyOf_dequarantineRow (env.chrono.toRfc3339 now) merged)]
      refine ⟨fun all => all id _ own (dequarantineRow_visible merged), fun vouched query row found visible => ?_⟩
      by_cases here : query = id
      · rw [here, own] at found
        cases found
        exact vouched
      · rw [opened, lookups, if_neg here] at found
        obtain ⟨stored, was, rfl⟩ := Option.map_eq_some_iff.mp found
        rw [if_neg here] at visible ⊢
        exact sound query stored was visible
    rw [sound_iff]
    cases target : mergeTarget env.toEnvironment store received now env.skewSecs with
    | none =>
        rw [target] at merges
        exact iff_of_true (fun _ none => by cases none) ⟨inbound, present, sameBody _ merges.2⟩
    | some pair =>
        obtain ⟨existing, wins⟩ := pair
        rw [target] at merges
        obtain ⟨stored, merges⟩ := merges
        cases wins with
        | true => exact iff_of_true (fun _ other => by cases other) ⟨inbound, present, sameBody _ (merges.taken rfl)⟩
        | false =>
            rw [vouched_congr (merges.kept rfl)]
            constructor
            · intro vouches
              by_cases closed : existing.lifecycleState = .quarantined
              · exact vouches existing rfl closed
              · exact sound id existing stored closed
            · rintro vouched _ same _
              cases same
              exact vouched

end Merged

section Pushes

variable {state : QuarantineRun env} {push : InboundPush env.chrono} {received : Memory} {agent : String}

/-- A received row has the body of its push. -/
theorem receivedRow_body (accepted : receivedRow state.receiver push = .ok (received, agent)) (row : Memory) :
    TakenFrom env.redactForStorage row received → TakenFrom env.redactForStorage row push.row := by
  obtain ⟨metadata, level, lifecycleState, rfl⟩ := receiveRow_ok accepted
  exact id

/-- The switch hides every received row that is not attested. -/
theorem receivedRow_hidden (enabled : env.quarantineUnattributed = true)
    (accepted : receivedRow state.receiver push = .ok (received, agent))
    (unattested : rowIsAgentAttested received = false) : received.lifecycleState = .quarantined := by
  obtain ⟨attested, _, same⟩ := map_eq_ok.mp accepted
  obtain ⟨rfl, _⟩ := Prod.mk.inj same
  unfold maybeQuarantineUnattributed at unattested ⊢
  split_ifs with condition
  · rfl
  · rw [if_neg condition] at unattested
    exact absurd ⟨enabled, unattested⟩ condition

/-- A push stores what it merges, or leaves the store alone. -/
theorem quarantineStep_store (state : QuarantineRun env) (push : InboundPush env.chrono) :
    (∃ received merged, Accepts state.receiver push received merged ∧
        (quarantineStep state push).receiver.toStore = merged.1) ∨
      (∀ received merged, ¬ Accepts state.receiver push received merged) ∧
        (quarantineStep state push).receiver.toStore = state.receiver.toStore := by
  unfold Accepts receivedRow
  simp only [quarantineStep, pushMemory]
  cases receiveRow env.lineage (receivePolicy env state.receiver.toDatabase) push.peerHeader push.senderAgentId
      push.row with
  | error refused => exact .inr ⟨fun _ _ accepted => by simp at accepted, rfl⟩
  | ok result =>
      obtain ⟨received, agent⟩ := result
      dsimp only
      cases paid : env.checkAndRecordStorageOnly state.receiver.ledger agent push.row.namespace
          (bytesEstimate env received) with
      | exceeded =>
          refine .inr ⟨?_, rfl⟩
          rintro _ _ ⟨_, _, same, other, _⟩
          cases same
          rw [paid] at other
          cases other
      | unreadable =>
          refine .inr ⟨?_, rfl⟩
          rintro _ _ ⟨_, _, same, other, _⟩
          cases same
          rw [paid] at other
          cases other
      | ok charged =>
          cases landed : mergeReceived env state.receiver.toStore received push.now with
          | error refused =>
              refine .inr ⟨?_, rfl⟩
              rintro _ _ ⟨_, _, same, _, other⟩
              cases same
              rw [landed] at other
              cases other
          | ok merged => exact .inl ⟨received, merged, ⟨agent, charged, rfl, paid, landed⟩, rfl⟩

/-- A push keeps the quarantine sound exactly when no losing row opens the body of another. -/
theorem quarantineStep_sound_iff (enabled : env.quarantineUnattributed = true)
    (sound : state.Sound) : KeepsQuarantine state push ↔ (quarantineStep state push).Sound := by
  unfold QuarantineRun.Sound at sound ⊢
  rcases quarantineStep_store state push with ⟨received, merged, accepts, stored⟩ | ⟨refused, stored⟩
  · obtain ⟨agent, charged, accepted, paid, landed⟩ := accepts
    have only (other : Memory) (result : Store × String) (accepts : Accepts state.receiver push other result) :
        other = received := by
      obtain ⟨_, _, same, _⟩ := accepts
      rw [accepted] at same
      exact (Prod.mk.inj (Except.ok.inj same)).1.symm
    have recorded : (quarantineStep state push).attested =
        state.attested ++ if rowIsAgentAttested received then [push.row] else [] := by
      simp only [quarantineStep, attestedRows, accepted]
    rw [stored, recorded]
    obtain ⟨⟨written, id⟩, merges, rfl⟩ := map_eq_ok.mp landed
    cases attested : rowIsAgentAttested received with
    | false =>
        refine iff_of_true (fun other result existing accepts signed => ?_) ?_
        · rw [only other result accepts, attested] at signed
          cases signed
        · exact (sound_of_hidden sound (receivedRow_hidden enabled accepted attested) merges).more _
    | true =>
        have opens := sound_of_attested_iff (sound.more [push.row]) (List.mem_append_right _ List.mem_cons_self)
          (receivedRow_body accepted) merges
        simp only [if_true]
        rw [← opens]
        constructor
        · intro keeps existing target closed
          exact keeps received _ existing ⟨agent, charged, accepted, paid, landed⟩ attested target closed
        · intro keeps other result existing accepts _ target closed
          rw [only other result accepts] at target
          exact keeps existing target closed
  · rw [stored]
    refine iff_of_true (fun received merged existing accepts => ?_) (sound.more _)
    exact absurd accepts (refused received merged)

/-- Over every sequence of pushes into an empty store the quarantine stays sound exactly when no losing row opens
the body of another. -/
theorem quarantine_sound_iff (enabled : env.quarantineUnattributed = true) (start : Receiver env)
    (empty : start.memories.rows = []) (pushes : List (InboundPush env.chrono)) :
    EveryStep quarantineStep KeepsQuarantine ⟨start, []⟩ pushes ↔
      ∀ taken rest, pushes = taken ++ rest → (run quarantineStep ⟨start, []⟩ taken).Sound := by
  have initially : QuarantineRun.Sound (⟨start, []⟩ : QuarantineRun env) := by
    intro id row found
    have present := ((start.memories.find_eq_some_iff _ _).mp found).1
    rw [empty] at present
    exact absurd present List.not_mem_nil
  exact @EveryStep.iff_reached _ _ quarantineStep KeepsQuarantine (fun _ _ => True) (fun _ => True)
    QuarantineRun.Sound (fun _ _ _ _ => trivial) (fun _ _ _ _ sound => quarantineStep_sound_iff enabled sound) _ _
    (EveryStep.of_forall (fun _ _ => trivial) _ _) trivial initially

end Pushes

end Steps

section Samples

def aliceSignature : Bytes :=
  beBytes 32 0xbf38978dfdebcfb1aea36371c72b51c4dfb1ddf10465a97be09fca98f44e0aff ++
    beBytes 32 0x3199b76baff68c33d998944115c8ac2a60e90da29cc126508c6ce6436406bb04

def aliceSignatureB64 : String :=
  "vziXjf3rz7Guo2NxxytRxN+x3fEEZal74J/KmPROCv8xmbdrr/aMM9mYlEEVyKwqYOkNopzBJlCMbOZDZAa7BA=="

def alicePubkeyB64 : String := "ebVWLo_mVPlAeLES6KmLp5AfhTrmlb7X4OORC60ElmQ"

/-- Alice has signed her row, and it is older than the row that mallory writes under its identifier. -/
def signedRow : Memory :=
  { Memory.base "same-id" "2026-06-16T10:00:00+00:00" with
    metadata := (Json.empty.insert "agent_id" (.string "alice")).insert "write_signature"
      (.string aliceSignatureB64) }

def malloryRow : Memory :=
  { Memory.base "same-id" "2026-06-16T10:05:00+00:00" with
    content := "forged"
    metadata := Json.empty.insert "agent_id" (.string "mallory") }

/-- The digests cover the content of one row. -/
def writeOnly : Lineage.Environment :=
  { writerOnly with
    sha256 := digestOfTable [(utf8 "c", 0x2e7d2c03a9507ae265ecf5b5356885a53393a2029d241394997265a1a25aefc6)] }

/-- The key of alice accepts her signature over her row and nothing else. -/
def aliceVerifyingKey : VerifyingKey where
  toBytes := aliceKey
  verifyStrict message signature :=
    some message = canonicalCborWrite writeOnly (signableWrite writeOnly signedRow "alice") ∧
      signature.1 = aliceSignature

/-- The receiver binds the key of alice and hides what nobody attests. -/
def quarantineReceiver : ReceiverEnvironment :=
  { openReceiver ⟨[]⟩ with
    lineage := { writeOnly with
      urlSafeNoPadDecode := fun text => if text = alicePubkeyB64 then some aliceKey.1 else none
      standardDecode := fun text => if text = aliceSignatureB64 then some aliceSignature else none
      verifyingKeyFromBytes := fun key => if key = aliceKey then some aliceVerifyingKey else none }
    quarantineUnattributed := true
    agentPubkey := fun _ agent => if agent = "alice" then some alicePubkeyB64 else none }

def emptyReceiver : Receiver quarantineReceiver where
  memories := KeyedTable.empty
  archivedMemories := []
  forgetTombstones := []
  recordStop := none
  memoryLinks := []
  archivedMemoryLinks := []
  namespaceMeta := []
  atomOf _ := none
  archivedAtomOf _ := none
  pendingActions := []
  ledger := ()

def signedPush : InboundPush quarantineReceiver.chrono := ⟨some "hub", "hub", signedRow, (0 : Int)⟩

def malloryPush : InboundPush quarantineReceiver.chrono := ⟨some "mallory", "mallory", malloryRow, (0 : Int)⟩

/-- This row of mallory is older than the one of alice. -/
def earlierPush : InboundPush quarantineReceiver.chrono :=
  ⟨some "mallory", "mallory", { malloryRow with updatedAt := "2026-06-16T09:55:00+00:00" }, (0 : Int)⟩

def afterPushes (pushes : List (InboundPush quarantineReceiver.chrono)) : QuarantineRun quarantineReceiver :=
  run quarantineStep ⟨emptyReceiver, []⟩ pushes

/-- What a push finds out about the row that it brings. -/
def asksReceived {Answer : Type} (receiver : Receiver quarantineReceiver)
    (push : InboundPush quarantineReceiver.chrono) (asks : Memory → Answer) : Option Answer :=
  match receivedRow receiver push with
  | .ok (received, _) => some (asks received)
  | .error _ => none

theorem asksReceived_ok {Answer : Type} {receiver : Receiver quarantineReceiver}
    {push : InboundPush quarantineReceiver.chrono} {received : Memory} {agent : String}
    (ok : receivedRow receiver push = .ok (received, agent)) (asks : Memory → Answer) :
    asksReceived receiver push asks = some (asks received) := by
  rw [asksReceived, ok]

/-- Whether the received row wins against a row that it meets. -/
def winsAgainst (receiver : Receiver quarantineReceiver) (push : InboundPush quarantineReceiver.chrono)
    (received : Memory) : Option Bool :=
  (mergeTarget quarantineReceiver.toEnvironment receiver.toStore received push.now quarantineReceiver.skewSecs).map
    Prod.snd

/-- The row of alice replaces the hidden one under her identifier and is shown, until a newer unattested one hides
it. -/
theorem signedPush_sound :
    ((afterPushes [earlierPush, signedPush]).receiver.memories.find "same-id").map
        (fun row => (row.content, row.lifecycleState)) = some ("c", .open) ∧
      ((afterPushes [earlierPush, signedPush, malloryPush]).receiver.memories.find "same-id").map
        (fun row => (row.content, row.lifecycleState)) = some ("forged", .quarantined) ∧
      ∀ taken rest, [earlierPush, signedPush, malloryPush] = taken ++ rest → (afterPushes taken).Sound := by
  refine ⟨by decide +kernel, by decide +kernel, ?_⟩
  refine (quarantine_sound_iff rfl emptyReceiver rfl [earlierPush, signedPush, malloryPush]).mp ⟨?_, ?_, ?_, trivial⟩
  · intro received merged existing _ _ target
    exact absurd target (by simp [mergeTarget, emptyReceiver, KeyedTable.empty, KeyedTable.find, KeyedTable.findSlot])
  · rintro received merged existing ⟨_, _, ok, _⟩ _ target
    have wins : asksReceived (afterPushes [earlierPush]).receiver signedPush
        (winsAgainst (afterPushes [earlierPush]).receiver signedPush) = some (some true) := by decide +kernel
    have loses : winsAgainst (afterPushes [earlierPush]).receiver signedPush received = some false :=
      congrArg (Option.map Prod.snd) target
    have same := (asksReceived_ok ok _).symm.trans wins
    cases loses.symm.trans (Option.some.inj same)
  · rintro received merged existing ⟨_, _, ok, _⟩ attested
    have unattested : asksReceived (afterPushes [earlierPush, signedPush]).receiver malloryPush rowIsAgentAttested =
        some false := by decide +kernel
    have same := (asksReceived_ok ok _).symm.trans unattested
    cases attested.symm.trans (Option.some.inj same)

/-- The row of alice loses against the hidden one and shows it. -/
theorem signedPush_opens_mallory :
    ¬ (run quarantineStep ⟨emptyReceiver, []⟩ [malloryPush, signedPush]).Sound := by
  have shown : ((run quarantineStep ⟨emptyReceiver, []⟩ [malloryPush, signedPush]).receiver.memories.find
      "same-id").map (fun row => (row.content, row.lifecycleState)) = some ("forged", .open) ∧
      (run quarantineStep ⟨emptyReceiver, []⟩ [malloryPush, signedPush]).attested.map (·.content) = ["c"] := by
    decide +kernel
  generalize run quarantineStep ⟨emptyReceiver, []⟩ [malloryPush, signedPush] = reached at shown ⊢
  intro sound
  obtain ⟨row, found, body⟩ := Option.map_eq_some_iff.mp shown.1
  obtain ⟨content, lifecycle⟩ := Prod.mk.inj body
  obtain ⟨inbound, attested, taken⟩ := sound "same-id" row found (by rw [lifecycle]; decide)
  have inboundContent : inbound.content = "c" :=
    List.mem_singleton.mp (shown.2 ▸ List.mem_map_of_mem attested)
  have same : row.content = inbound.content := by
    rcases taken with plain | masked
    · exact (Prod.mk.inj plain).1
    · exact (Prod.mk.inj masked).1
  rw [content, inboundContent] at same
  exact absurd same (by decide)

end Samples
end AiMemory.Federation
