import AiMemory.Federation.Replay

/-
This file proves which version a drained queue has delivered.
-/

namespace AiMemory.Federation
open AiMemory.Crdt AiMemory.Library

variable {config : FederationConfig} {serde : PayloadSerde}

/-- The rows that the worker has still to settle. -/
def Replayer.held : Replayer → List FederationPushDlqRow
  | .draining rows => rows
  | .settling row _ rest => row :: rest
  | _ => []

/-- A row of the worker is the pending row that it was read from, up to the attempts and the error. -/
def Mirrors (serde : PayloadSerde) (dlq : PushDlq) (row : FederationPushDlqRow) : Prop :=
  ∃ stored, dlq.pending row.memoryId row.peerId = some stored ∧ stored.id = row.id ∧
    serde.readPayload stored.payloadJson = row.payloadJson

/-- The body of a version as its column gives it back. -/
def PushFailure.body (serde : PayloadSerde) (failure : PushFailure) : Json :=
  serde.readPayload (serde.valueToString failure.payloadJson)

/-- Every pending row holds the version that opened it, and a pair without one has delivered that version. -/
structure Sound (serde : PayloadSerde) (leader : Leader) : Prop where
  mirrored : ∀ row ∈ leader.replayer.held, Mirrors serde leader.dlq row
  distinct : (leader.replayer.held.map FederationPushDlqRow.id).Nodup
  acknowledged : ∀ row rest, leader.replayer = .settling row .ack rest →
    leader.lastAcked row.memoryId row.peerId = some row.payloadJson
  opened : ∀ memoryId peerId stored, leader.dlq.pending memoryId peerId = some stored →
    ∃ failure, leader.lastOpened memoryId peerId = some failure ∧
      stored.payloadJson = serde.valueToString failure.payloadJson
  delivered : ∀ memoryId peerId, leader.dlq.pending memoryId peerId = none →
    leader.lastAcked memoryId peerId = (leader.lastOpened memoryId peerId).map (PushFailure.body serde)

/-- The empty leader is sound. -/
theorem sound_start : Sound serde Leader.start where
  mirrored := by simp [Leader.start, Replayer.held]
  distinct := List.nodup_nil
  acknowledged := nofun
  opened := nofun
  delivered _ _ _ := rfl

section Steps

variable {leader : Leader}

/-- The pending rows keep their keys and their payloads. -/
def SamePending (dlq next : PushDlq) : Prop :=
  ∀ memoryId peerId, (next.pending memoryId peerId).map (fun row => (row.id, row.payloadJson)) =
    (dlq.pending memoryId peerId).map fun row => (row.id, row.payloadJson)

/-- A retry keeps the pending rows. -/
theorem samePending_retry (dlq : PushDlq) (matching : DlqRow → Bool) (count : Nat → Nat)
    (error : String → String) : SamePending dlq (dlq.retry matching count error) := by
  intro memoryId peerId
  rw [PushDlq.pending_retry, Option.map_map]
  congr 1
  funext row
  by_cases matched : matching row = true <;> simp [matched, DlqRow.retried]

/-- A row is mirrored by a queue with the same pending rows. -/
theorem SamePending.mirrors {dlq next : PushDlq} (same : SamePending dlq next) {row : FederationPushDlqRow}
    (mirrors : Mirrors serde dlq row) : Mirrors serde next row := by
  obtain ⟨stored, found, id, payload⟩ := mirrors
  have kept := same row.memoryId row.peerId
  rw [found, Option.map_some, Option.map_eq_some_iff] at kept
  obtain ⟨later, laterFound, fields⟩ := kept
  obtain ⟨laterId, laterPayload⟩ := Prod.mk.inj fields
  exact ⟨later, laterFound, laterId.trans id, laterPayload ▸ payload⟩

/-- A queue with the same pending rows keeps the leader sound. -/
theorem Sound.retouch (sound : Sound serde leader) {dlq : PushDlq} (same : SamePending leader.dlq dlq) :
    Sound serde { leader with dlq := dlq } where
  mirrored row held := same.mirrors (sound.mirrored row held)
  distinct := sound.distinct
  acknowledged := sound.acknowledged
  opened memoryId peerId stored found := by
    have kept := same memoryId peerId
    rw [show dlq.pending memoryId peerId = some stored from found, Option.map_some] at kept
    obtain ⟨earlier, earlierFound, fields⟩ := Option.map_eq_some_iff.mp kept.symm
    obtain ⟨failure, last, payload⟩ := sound.opened memoryId peerId earlier earlierFound
    exact ⟨failure, last, (Prod.mk.inj fields).2 ▸ payload⟩
  delivered memoryId peerId drained := by
    have kept := same memoryId peerId
    rw [show dlq.pending memoryId peerId = none from drained, Option.map_none] at kept
    exact sound.delivered memoryId peerId (Option.map_eq_none_iff.mp kept.symm)

/-- The worker may drop rows, unless it goes on to wait for the stamp of an acknowledged one. -/
theorem Sound.forward (sound : Sound serde leader) {replayer : Replayer}
    (fewer : replayer.held.Sublist leader.replayer.held)
    (quiet : ∀ row rest, replayer ≠ .settling row .ack rest) :
    Sound serde { leader with replayer := replayer } where
  mirrored row held := sound.mirrored row (fewer.subset held)
  distinct := sound.distinct.sublist (fewer.map _)
  acknowledged row rest waits := absurd waits (quiet row rest)
  opened := sound.opened
  delivered := sound.delivered

/-- A leader that has written what it settles stays sound. -/
theorem Sound.write (sound : Sound serde leader) {dlq : PushDlq} (same : SamePending leader.dlq dlq)
    {replayer : Replayer} (fewer : replayer.held.Sublist leader.replayer.held)
    (quiet : ∀ row rest, replayer ≠ .settling row .ack rest) (completes : Bool) :
    Sound serde (leader.write completes dlq replayer) := by
  cases completes with
  | false => exact sound.forward fewer quiet
  | true => exact (sound.retouch same).forward fewer quiet

/-- A new failure is the last one of its slot and of no other. -/
theorem lastOpened_cons (dlq : PushDlq) (failure : PushFailure) (memoryId peerId : String) :
    ({ leader with dlq := dlq, opened := failure :: leader.opened } : Leader).lastOpened memoryId peerId =
      if failure.memoryId = memoryId ∧ failure.peerId = peerId then some failure
      else leader.lastOpened memoryId peerId := by
  by_cases own : failure.memoryId = memoryId ∧ failure.peerId = peerId <;>
    simp [Leader.lastOpened, own]

/-- An enqueue that meets no pending row opens one with its version. -/
theorem Sound.insert (sound : Sound serde leader) {failure : PushFailure} (now : String)
    (free : leader.dlq.pending failure.memoryId failure.peerId = none) :
    Sound serde { leader with
      dlq := leader.dlq.insert serde failure now free, opened := failure :: leader.opened } where
  mirrored row held := by
    obtain ⟨stored, found, fields⟩ := sound.mirrored row held
    refine ⟨stored, ?_, fields⟩
    rw [PushDlq.pending_insert, if_neg]
    · exact found
    · rintro ⟨sameMemory, samePeer⟩
      rw [← sameMemory, ← samePeer, free] at found
      cases found
  distinct := sound.distinct
  acknowledged := sound.acknowledged
  opened memoryId peerId stored found := by
    rw [PushDlq.pending_insert] at found
    rw [lastOpened_cons]
    by_cases own : failure.memoryId = memoryId ∧ failure.peerId = peerId
    · rw [if_pos own] at found ⊢
      exact ⟨failure, rfl, (Option.some.inj found) ▸ rfl⟩
    · rw [if_neg own] at found ⊢
      exact sound.opened memoryId peerId stored found
  delivered memoryId peerId drained := by
    rw [PushDlq.pending_insert] at drained
    rw [lastOpened_cons]
    by_cases own : failure.memoryId = memoryId ∧ failure.peerId = peerId
    · rw [if_pos own] at drained
      cases drained
    · rw [if_neg own] at drained ⊢
      exact sound.delivered memoryId peerId drained

/-- An enqueued failure keeps the leader sound. -/
theorem Sound.enqueue (sound : Sound serde leader) (failure : PushFailure) (now : String) :
    Sound serde (leader.enqueue serde failure now) := by
  unfold Leader.enqueue PushDlq.enqueuePushFailure
  by_cases free : leader.dlq.pending failure.memoryId failure.peerId = none
  · rw [dif_pos free, if_pos free]
    have opened := sound.insert now free
    exact ⟨opened.mirrored, opened.distinct, opened.acknowledged, opened.opened, opened.delivered⟩
  · rw [dif_neg free, if_neg free]
    have kept := sound.retouch (samePending_retry leader.dlq
      (fun row => row.slot = .inl (failure.memoryId, failure.peerId)) (· + 1) fun _ => failure.lastError)
    exact ⟨kept.mirrored, kept.distinct, kept.acknowledged, kept.opened, kept.delivered⟩

/-- A new delivery is the last one of its slot and of no other. -/
theorem lastAcked_cons (replayer : Replayer) (delivery : Delivery) (memoryId peerId : String) :
    ({ leader with replayer := replayer, acked := delivery :: leader.acked } : Leader).lastAcked
        memoryId peerId =
      if delivery.memoryId = memoryId ∧ delivery.peerId = peerId then some delivery.body
      else leader.lastAcked memoryId peerId := by
  by_cases own : delivery.memoryId = memoryId ∧ delivery.peerId = peerId <;>
    simp [Leader.lastAcked, own]

/-- A POST keeps the pending row, so the pair that acknowledges is not drained. -/
theorem Sound.post (sound : Sound serde leader) {row : FederationPushDlqRow}
    {rest : List FederationPushDlqRow} (draining : leader.replayer = .draining (row :: rest))
    (peer : PeerEndpoint) (outcome : AckOutcome) :
    Sound serde (leader.post row rest peer outcome) := by
  have held : (Replayer.settling row outcome rest).held = leader.replayer.held := by rw [draining]; rfl
  unfold Leader.post
  by_cases acknowledges : outcome = .ack
  · subst acknowledges
    rw [if_pos rfl]
    exact {
      mirrored := fun other present => sound.mirrored other (held ▸ present)
      distinct := held ▸ sound.distinct
      acknowledged := fun other later waits => by
        obtain ⟨rfl, -, -⟩ := Replayer.settling.inj waits
        rw [lastAcked_cons, if_pos ⟨rfl, rfl⟩]
      opened := sound.opened
      delivered := fun memoryId peerId drained => by
        obtain ⟨stored, found, _⟩ := sound.mirrored row (by rw [draining]; exact List.mem_cons_self)
        rw [lastAcked_cons, if_neg]
        · exact sound.delivered memoryId peerId drained
        · rintro ⟨rfl, rfl⟩
          rw [show leader.dlq.pending row.memoryId row.peerId = none from drained] at found
          cases found }
  · rw [if_neg acknowledges]
    refine sound.forward (held ▸ List.Sublist.refl _) ?_
    rintro other later waits
    exact acknowledges (Replayer.settling.inj waits).2.1

/-- The stamp of an acknowledged row drains its pair, and the acknowledged body is the one that the row
held. -/
theorem Sound.mark (sound : Sound serde leader) {row : FederationPushDlqRow}
    {rest : List FederationPushDlqRow} (settling : leader.replayer = .settling row .ack rest) (now : String) :
    Sound serde { leader with
      dlq := leader.dlq.markDlqRowReplayed row.id now, replayer := .draining rest } := by
  have held : leader.replayer.held = row :: rest := by rw [settling]; rfl
  obtain ⟨stored, found, sameId, payload⟩ := sound.mirrored row (held ▸ List.mem_cons_self)
  have ids := sound.distinct
  rw [held, List.map_cons, List.nodup_cons] at ids
  exact {
    mirrored := fun other present => by
      obtain ⟨otherStored, otherFound, otherId, otherPayload⟩ :=
        sound.mirrored other (held ▸ List.mem_cons_of_mem _ present)
      refine ⟨otherStored, ?_, otherId, otherPayload⟩
      rw [PushDlq.pending_mark, otherFound, Option.filter_some, if_pos]
      have differs : otherStored.id ≠ row.id := fun same =>
        ids.1 (same ▸ otherId ▸ List.mem_map_of_mem present)
      exact decide_eq_true differs
    distinct := ids.2
    acknowledged := nofun
    opened := fun memoryId peerId later laterFound => by
      rw [PushDlq.pending_mark, Option.filter_eq_some_iff] at laterFound
      exact sound.opened memoryId peerId later laterFound.1
    delivered := fun memoryId peerId drained => by
      by_cases own : row.memoryId = memoryId ∧ row.peerId = peerId
      · obtain ⟨rfl, rfl⟩ := own
        obtain ⟨failure, last, written⟩ := sound.opened _ _ stored found
        have acknowledged := sound.acknowledged row rest settling
        show leader.lastAcked row.memoryId row.peerId =
          (leader.lastOpened row.memoryId row.peerId).map (PushFailure.body serde)
        rw [acknowledged, last, Option.map_some, PushFailure.body, ← written, payload]
      · refine sound.delivered memoryId peerId ?_
        rw [PushDlq.pending_mark] at drained
        cases other : leader.dlq.pending memoryId peerId with
        | none => rfl
        | some otherStored =>
            have differs : otherStored.id ≠ row.id := fun same =>
              own (PushDlq.pair_of_id found other (sameId.trans same.symm))
            rw [other, Option.filter_some, if_pos (decide_eq_true differs)] at drained
            cases drained }

/-- A taken batch keeps the leader sound. -/
theorem Sound.take (sound : Sound serde leader) (batch : Nat) :
    Sound serde { leader with replayer := .draining (leader.dlq.takePendingDlqRows serde batch) } where
  mirrored row present := by
    obtain ⟨stored, found, rfl⟩ := PushDlq.taken_of_take present
    exact ⟨stored, found, rfl, rfl⟩
  distinct := PushDlq.nodup_take serde leader.dlq batch
  acknowledged := nofun
  opened := sound.opened
  delivered := sound.delivered

/-- A drained row keeps the leader sound. -/
theorem Sound.drain (sound : Sound serde leader) {row : FederationPushDlqRow}
    {rest : List FederationPushDlqRow} (draining : leader.replayer = .draining (row :: rest))
    (reply : Reply) :
    Sound serde (leader.drain config row rest reply) := by
  have fewer : (Replayer.draining rest).held.Sublist leader.replayer.held := by
    rw [draining]
    exact List.sublist_cons_self row rest
  unfold Leader.drain
  split
  · exact sound.forward fewer nofun
  split
  · exact sound.write (samePending_retry _ _ _ _) fewer nofun reply.completes
  · exact sound.post draining _ reply.outcome

/-- A settled row keeps the leader sound. -/
theorem Sound.settle (sound : Sound serde leader) {row : FederationPushDlqRow} {outcome : AckOutcome}
    {rest : List FederationPushDlqRow} (settling : leader.replayer = .settling row outcome rest)
    (reply : Reply) :
    Sound serde
      (leader.write reply.completes (leader.dlq.settle row reply.now outcome) (.draining rest)) := by
  have fewer : (Replayer.draining rest).held.Sublist leader.replayer.held := by
    rw [settling]
    exact List.sublist_cons_self row rest
  cases outcome with
  | ack =>
      cases completes : reply.completes with
      | false => exact sound.forward fewer nofun
      | true => exact sound.mark settling reply.now
  | idDrift => exact sound.write (samePending_retry _ _ _ _) fewer nofun _
  | fail reason => exact sound.write (samePending_retry _ _ _ _) fewer nofun _
  | throttled reason => exact sound.write (samePending_retry _ _ _ _) fewer nofun _

/-- A reply to the replayer keeps the leader sound. -/
theorem Sound.replay (sound : Sound serde leader) (reply : Reply) :
    Sound serde (leader.replay config serde reply) := by
  unfold Leader.replay
  cases working : leader.replayer with
  | resetting =>
      have fewer : Replayer.counting.held.Sublist leader.replayer.held := List.nil_sublist _
      exact sound.write (samePending_retry _ _ _ _) fewer nofun reply.completes
  | counting => exact sound.forward (List.nil_sublist _) nofun
  | taking batch =>
      cases completes : reply.completes with
      | false => exact sound.forward (List.nil_sublist _) nofun
      | true => exact sound.take batch
  | draining rows =>
      cases rows with
      | nil => exact sound.forward (List.nil_sublist _) nofun
      | cons row rest => exact sound.drain working reply
  | settling row outcome rest => exact sound.settle working reply

/-- Every turn keeps the leader sound. -/
theorem Sound.next (sound : Sound serde leader) (turn : Turn) :
    Sound serde (leader.next config serde turn) := by
  cases turn with
  | enqueue failure now completes =>
      cases completes with
      | false => exact sound
      | true => exact sound.enqueue failure now
  | replay reply => exact sound.replay reply

end Steps

/-- An enqueue that meets a pending row bumps it and leaves its body. -/
theorem pending_enqueue {dlq : PushDlq} {failure : PushFailure} {now : String} {row : DlqRow}
    (met : dlq.pending failure.memoryId failure.peerId = some row) :
    (dlq.enqueuePushFailure serde failure now).pending failure.memoryId failure.peerId =
      some { row with attemptCount := row.attemptCount + 1, lastError := failure.lastError } := by
  have slot : row.slot = .inl (failure.memoryId, failure.peerId) :=
    (row.slot_eq_pair_iff _ _).mpr ((PushDlq.pending_eq_some_iff dlq _ _ row).mp met).2
  have waits : dlq.pending failure.memoryId failure.peerId ≠ none := by simp [met]
  rw [PushDlq.enqueuePushFailure, dif_neg waits, PushDlq.pending_retry, met, Option.map_some,
    if_pos (decide_eq_true slot)]
  rfl

/-- An enqueue that meets a pending row leaves the other rows. -/
theorem rows_enqueue {dlq : PushDlq} {failure : PushFailure} {now : String} {row : DlqRow}
    (met : dlq.pending failure.memoryId failure.peerId = some row) :
    (dlq.enqueuePushFailure serde failure now).rows.rows = dlq.rows.rows.map fun other =>
      if other = row then { row with attemptCount := row.attemptCount + 1, lastError := failure.lastError }
      else other := by
  have waits : dlq.pending failure.memoryId failure.peerId ≠ none := by simp [met]
  rw [PushDlq.enqueuePushFailure, dif_neg waits]
  refine List.map_congr_left fun other present => ?_
  have own : decide (other.slot = .inl (failure.memoryId, failure.peerId)) = decide (other = row) := by
    refine decide_eq_decide.mpr ⟨fun same => ?_, ?_⟩
    · exact Option.some.inj (((dlq.rows.findSlot_eq_some_iff _ _).mpr ⟨present, same⟩).symm.trans met)
    · rintro rfl
      exact ((dlq.rows.findSlot_eq_some_iff _ _).mp met).2
  simp only [own, decide_eq_true_eq]
  split
  · rename_i same
    rw [same]
    rfl
  · rfl

/-- A drained pair has last acknowledged the version that opened its last row; the versions that met a pending
row changed its attempts and its error alone. -/
theorem drained_delivers_opener (config : FederationConfig) (serde : PayloadSerde) (turns : List Turn)
    (memoryId peerId : String) :
    ((run (Leader.next config serde) Leader.start turns).dlq.pending memoryId peerId = none →
      (run (Leader.next config serde) Leader.start turns).lastAcked memoryId peerId =
        ((run (Leader.next config serde) Leader.start turns).lastOpened memoryId peerId).map
          (PushFailure.body serde)) ∧
      ∀ failure now row, failure.memoryId = memoryId → failure.peerId = peerId →
        (run (Leader.next config serde) Leader.start turns).dlq.pending memoryId peerId = some row →
          ((run (Leader.next config serde) Leader.start turns).dlq.enqueuePushFailure serde failure
            now).pending memoryId peerId =
              some { row with attemptCount := row.attemptCount + 1, lastError := failure.lastError } ∧
          ((run (Leader.next config serde) Leader.start turns).dlq.enqueuePushFailure serde failure now).rows.rows =
            (run (Leader.next config serde) Leader.start turns).dlq.rows.rows.map fun other =>
              if other = row then { row with attemptCount := row.attemptCount + 1, lastError := failure.lastError }
              else other := by
  have preserved : ∀ leader turn, Sound serde leader → Sound serde (leader.next config serde turn) :=
    fun _ turn sound => sound.next turn
  have sound := run_invariant_always preserved turns sound_start
  refine ⟨sound.delivered memoryId peerId, ?_⟩
  rintro failure now row rfl rfl met
  exact ⟨pending_enqueue met, rows_enqueue met⟩

section Samples

def sampleConfig : FederationConfig := ⟨[⟨"peer-0", "https://peer-0/api/v1/sync/push"⟩], "ai:leader"⟩

def sampleMemory (content : String) : Json :=
  (Json.empty.insert "id" (.string "mem-1")).insert "content" (.string content)

def sampleBody (content : String) : Json := storeBody sampleConfig (sampleMemory content) none

def firstItem : Json → Option Json
  | .array length items => if positive : 0 < length then some (items ⟨0, positive⟩) else none
  | _ => none

def contentOf (body : Json) : String :=
  ((((body.get "memories").bind firstItem).bind fun memory => memory.get "content").bind Json.asStr).getD ""

def bodyText (content : String) : String :=
  "\x7b\"dry_run\":false,\"memories\":[\x7b\"content\":\"" ++ content ++
    "\",\"id\":\"mem-1\"\x7d],\"sender_agent_id\":\"ai:leader\"\x7d"

/-- The serializer covers two versions of one memory. -/
def samplePayloads : PayloadSerde where
  valueToString body := bodyText (contentOf body)
  valueFromStr text := (["first", "second"].find? fun content => bodyText content = text).map sampleBody

def peerDown : String := "first: http 500; retry: http 500"

def landed (content now : String) : List Turn :=
  (landedFailures ["peer-0"] [] [("peer-0", peerDown)] "mem-1" (sampleBody content)).map fun failure =>
    .enqueue failure now true

/-- One pass resets, counts, takes, posts, stamps and refreshes the gauge. -/
def ackedPass : List Turn := List.replicate 6 (.replay ⟨true, .ack, "2026-06-16T10:02:00+00:00", none⟩)

abbrev sampleRun (turns : List Turn) : Leader :=
  run (Leader.next sampleConfig samplePayloads) Leader.start turns

def landedOnce : List Turn := landed "first" "2026-06-16T10:00:00+00:00"

def landedTwice : List Turn := landedOnce ++ landed "second" "2026-06-16T10:01:00+00:00"

def openedRow : DlqRow :=
  ⟨1, "mem-1", "peer-0", bodyText "first", 1, peerDown, "2026-06-16T10:00:00+00:00", none⟩

/-- A version that lands on the pending row of an earlier one is never delivered. -/
theorem secondVersion_lost :
    (sampleRun (landedTwice ++ ackedPass)).dlq.pending "mem-1" "peer-0" = none ∧
      (sampleRun (landedTwice ++ ackedPass)).lastAcked "mem-1" "peer-0" ≠
        ((sampleRun (landedTwice ++ ackedPass)).lastEnqueued "mem-1" "peer-0").map
          (PushFailure.body samplePayloads) := by
  refine ⟨by decide +kernel, fun same => ?_⟩
  have contents := congrArg (Option.map contentOf) same
  revert contents
  decide +kernel

/-- The second version bumps the row of the first one, and the pass delivers the first one. -/
theorem firstVersion_delivered :
    (sampleRun (landedTwice ++ ackedPass)).lastAcked "mem-1" "peer-0" =
        ((sampleRun (landedTwice ++ ackedPass)).lastOpened "mem-1" "peer-0").map
          (PushFailure.body samplePayloads) ∧
      ((sampleRun landedOnce).dlq.enqueuePushFailure samplePayloads
          ⟨"mem-1", "peer-0", sampleBody "second", peerDown⟩ "2026-06-16T10:01:00+00:00").pending
        "mem-1" "peer-0" = some { openedRow with attemptCount := 2 } :=
  ⟨(drained_delivers_opener sampleConfig samplePayloads (landedTwice ++ ackedPass) "mem-1" "peer-0").1
      (by decide +kernel),
    ((drained_delivers_opener sampleConfig samplePayloads landedOnce "mem-1" "peer-0").2
      ⟨"mem-1", "peer-0", sampleBody "second", peerDown⟩ "2026-06-16T10:01:00+00:00" openedRow rfl rfl
      (by decide +kernel)).1⟩

end Samples
end AiMemory.Federation
