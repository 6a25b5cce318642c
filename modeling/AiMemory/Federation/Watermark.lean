import AiMemory.Federation.Catchup

/-
This file says what each writer of the table of watermarks does to the entry of a peer.
-/

namespace AiMemory.Federation
open AiMemory.Crdt AiMemory.Library AiMemory.Machine AiMemory.Storage

section Marks

/-- A mark is a peer with a time that someone has seen from it. -/
abbrev Mark := String × String

def observeAll (state : SyncState) (agentId : String) (marks : List Mark) (now : String) : SyncState :=
  marks.foldl (fun state mark => syncStateObserve state agentId mark.1 mark.2 now) state

variable {state : SyncState} {agentId peerId query now : String}

/-- A written watermark is read back for its agent and peer. -/
theorem syncStateLoad_write (row : SyncStateRow) (agent : String) :
    syncStateLoad (state.write agentId peerId row) agent query =
      if agent = agentId ∧ query = peerId then some row.lastSeenAt else syncStateLoad state agent query := by
  unfold syncStateLoad SyncState.write
  split_ifs <;> rfl

/-- An observation keeps the entry or moves it up to the mark. -/
theorem syncStateLoad_observe (seenAt agent : String) :
    syncStateLoad (syncStateObserve state agentId peerId seenAt now) agent query =
      if agent = agentId ∧ query = peerId then
        some ((syncStateLoad state agentId peerId).elim seenAt fun known => max known seenAt)
      else syncStateLoad state agent query := by
  unfold syncStateObserve
  rw [syncStateLoad_write]
  unfold syncStateLoad
  cases state agentId peerId with
  | none => rfl
  | some row =>
      dsimp only [Option.map_some, Option.elim_some]
      rw [show (if row.lastSeenAt < seenAt then seenAt else row.lastSeenAt) = max row.lastSeenAt seenAt from
        larger_eq_max _ _]

/-- The first push starts the entry of its peer. -/
theorem syncStateLoad_recordPush (pushedAt agent : String) :
    syncStateLoad (syncStateRecordPush state agentId peerId pushedAt now) agent query =
      if agent = agentId ∧ query = peerId then some ((syncStateLoad state agentId peerId).getD now)
      else syncStateLoad state agent query := by
  unfold syncStateRecordPush
  rw [syncStateLoad_write]
  unfold syncStateLoad
  cases state agentId peerId <;> rfl

/-- The clock has passed no time that it had not passed before, the marks apart. -/
structure Advances (agentId : String) (marks : List Mark) (before after : SyncState) : Prop where
  grows : ∀ peerId known, syncStateLoad before agentId peerId = some known →
    ∃ watermark, syncStateLoad after agentId peerId = some watermark ∧ known ≤ watermark
  bounded : ∀ peerId watermark, syncStateLoad after agentId peerId = some watermark →
    syncStateLoad before agentId peerId = some watermark ∨ (peerId, watermark) ∈ marks

theorem Advances.refl (marks : List Mark) (state : SyncState) : Advances agentId marks state state where
  grows _ known loaded := ⟨known, loaded, le_rfl⟩
  bounded _ _ loaded := .inl loaded

theorem Advances.trans {first second : List Mark} {before middle after : SyncState}
    (left : Advances agentId first before middle) (right : Advances agentId second middle after) :
    Advances agentId (first ++ second) before after where
  grows peerId known loaded := by
    obtain ⟨reached, loadedMiddle, below⟩ := left.grows peerId known loaded
    obtain ⟨watermark, loadedAfter, above⟩ := right.grows peerId reached loadedMiddle
    exact ⟨watermark, loadedAfter, below.trans above⟩
  bounded peerId watermark loaded := by
    rcases right.bounded peerId watermark loaded with middle | marked
    · exact (left.bounded peerId watermark middle).imp_right (List.mem_append_left _)
    · exact .inr (List.mem_append_right _ marked)

theorem advances_observe (seenAt : String) :
    Advances agentId [(peerId, seenAt)] state (syncStateObserve state agentId peerId seenAt now) where
  grows other known loaded := by
    rw [syncStateLoad_observe]
    split_ifs with here
    · obtain ⟨_, rfl⟩ := here
      rw [loaded]
      exact ⟨_, rfl, le_max_left known seenAt⟩
    · exact ⟨known, loaded, le_rfl⟩
  bounded other watermark loaded := by
    rw [syncStateLoad_observe] at loaded
    split_ifs at loaded with here
    · obtain ⟨_, rfl⟩ := here
      cases known : syncStateLoad state agentId other with
      | none =>
          rw [known] at loaded
          obtain rfl := Option.some.inj loaded
          exact .inr (List.mem_singleton_self _)
      | some earlier =>
          rw [known] at loaded
          obtain rfl := Option.some.inj loaded
          rcases max_choice earlier seenAt with kept | moved
          · exact .inl (by rw [Option.elim_some, kept])
          · exact .inr (by rw [Option.elim_some, moved]; exact List.mem_singleton_self _)
    · exact .inl loaded

/-- The observed stamps advance their marks one by one. -/
theorem advances_observeAll (marks : List Mark) :
    Advances agentId marks state (observeAll state agentId marks now) := by
  induction marks generalizing state with
  | nil => exact .refl _ _
  | cons mark rest ih => exact (advances_observe mark.2).trans ih

/-- A record of a push moves the clock only to start an entry at the present. -/
theorem advances_recordPush (agent pushedAt : String) :
    ∃ marks : List Mark, Advances agent marks state (syncStateRecordPush state agentId peerId pushedAt now) ∧
      ∀ mark ∈ marks, mark = (peerId, now) ∧ agentId = agent ∧ syncStateLoad state agent peerId = none := by
  by_cases starts : agentId = agent ∧ syncStateLoad state agent peerId = none
  · obtain ⟨rfl, unseen⟩ := starts
    refine ⟨[(peerId, now)], ⟨fun other known loaded => ?_, fun other watermark loaded => ?_⟩, fun mark listed =>
      ⟨List.mem_singleton.mp listed, rfl, unseen⟩⟩
    · have apart : other ≠ peerId := by
        rintro rfl
        cases unseen.symm.trans loaded
      rw [syncStateLoad_recordPush, if_neg fun same => apart same.2]
      exact ⟨known, loaded, le_rfl⟩
    · rw [syncStateLoad_recordPush, unseen] at loaded
      split_ifs at loaded with here
      · obtain ⟨_, rfl⟩ := here
        obtain rfl := Option.some.inj loaded
        exact .inr (List.mem_singleton_self _)
      · exact .inl loaded
  · have same (query : String) : syncStateLoad (syncStateRecordPush state agentId peerId pushedAt now) agent query =
        syncStateLoad state agent query := by
      rw [syncStateLoad_recordPush]
      split_ifs with here
      · obtain ⟨rfl, rfl⟩ := here
        cases known : syncStateLoad state agent query with
        | none => exact absurd ⟨rfl, known⟩ starts
        | some earlier => rfl
      · rfl
    refine ⟨[], ⟨fun other known loaded => ⟨known, ?_, le_rfl⟩, fun other watermark loaded => ?_⟩, fun mark none =>
      nomatch none⟩
    · rw [same, loaded]
    · exact .inl (same other ▸ loaded)

/-- The clock of another agent is not this one's. -/
theorem syncStateLoad_observeAll_other (marks : List Mark) {agent : String} (other : agent ≠ agentId) :
    syncStateLoad (observeAll state agentId marks now) agent query = syncStateLoad state agent query := by
  induction marks generalizing state with
  | nil => rfl
  | cons mark rest ih =>
      change syncStateLoad (observeAll (syncStateObserve state agentId mark.1 mark.2 now) agentId rest now) _ _ = _
      rw [ih, syncStateLoad_observe, if_neg fun same => other same.1]

end Marks

section Receipt

variable (env : ReceiverEnvironment)

/-- The highest stamp of the well-formed rows, also of the ones that the receiver then skips. -/
def latestSeen (memories : List Memory) : Option String :=
  memories.foldl (fun latest row =>
    if (validateMemory env.toValidators env.chrono row).isSome then latest
    else if latest.all (· < row.updatedAt) then some row.updatedAt else latest) none

/-- The end of a push observes the sender and merges the sender's clock. -/
def advanceClock (state : SyncState) (localAgentId : String) (body : SyncPushBody) (senderClock : VectorClock)
    (now : String) : SyncState :=
  let observed :=
    match latestSeen env body.memories with
    | none => state
    | some «at» => syncStateObserve state localAgentId body.senderAgentId «at» now
  syncStateMerge observed localAgentId senderClock now

/-- A refused push and a preview leave the clock. -/
def syncPushClock (request : PushRequest) (senderClock : VectorClock) (stamps : Nat → Stamp env.chrono)
    (receiver : Receiver env) (state : SyncState) (now : String) : SyncState :=
  match preflight env request, request.localAgentId, (syncPush env request stamps receiver).2 with
  | .ok body, some localAgentId, .ok _ false => advanceClock env state localAgentId body senderClock now
  | _, _, _ => state

/-- An answer that is no preview comes from a body that is none. -/
theorem dryRun_of_answered {request : PushRequest} {body : SyncPushBody} {stamps : Nat → Stamp env.chrono}
    {receiver : Receiver env} {counted : Counter → Nat} (checked : preflight env request = .ok body)
    (answered : (syncPush env request stamps receiver).2 = .ok counted false) : body.dryRun = false := by
  unfold syncPush at answered
  rw [checked] at answered
  dsimp only at answered
  split_ifs at answered
  exact (PushResponse.ok.inj answered).2

/-- The marks that a push brings. -/
def pushMarks (body : SyncPushBody) (senderClock : VectorClock) : List Mark :=
  (latestSeen env body.memories).toList.map (body.senderAgentId, ·) ++ senderClock.entries.entries

theorem advanceClock_eq (state : SyncState) (localAgentId : String) (body : SyncPushBody)
    (senderClock : VectorClock) (now : String) :
    advanceClock env state localAgentId body senderClock now =
      observeAll state localAgentId (pushMarks env body senderClock) now := by
  unfold advanceClock pushMarks observeAll
  rw [List.foldl_append]
  cases latestSeen env body.memories <;> rfl

end Receipt
end AiMemory.Federation
