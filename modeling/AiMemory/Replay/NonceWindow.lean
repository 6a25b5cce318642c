import AiMemory.Library.SlidingWindow
import AiMemory.Replay.NonceRestart

/-
This file proves that the answers of a cache in memory are a sliding window over the nonces of each peer.
-/

namespace AiMemory.Replay
open AiMemory.Library AiMemory.Machine

def FederationNonceCache.new : FederationNonceCache := ⟨.empty, 0, 0⟩

section Memory
variable (sha256 : Bytes → Digest)

/-- A cache without a path persists nothing. -/
def recordInMemory (cache : FederationNonceCache) (call : NonceCall) : ReplayDecision × FederationNonceCache :=
  let (decision, state) := recordAndCheck sha256 ⟨cache, .empty⟩ call
  (decision, state.cache)

def nextInMemory (cache : FederationNonceCache) (call : NonceCall) : FederationNonceCache :=
  (recordInMemory sha256 cache call).2

def cacheAfter (calls : List NonceCall) : FederationNonceCache :=
  run (nextInMemory sha256) .new calls

@[simp] theorem cacheAfter_concat (calls : List NonceCall) (call : NonceCall) :
    cacheAfter sha256 (calls ++ [call]) = nextInMemory sha256 (cacheAfter sha256 calls) call := by
  rw [cacheAfter, run_append, run_cons, run_nil, cacheAfter]

/-- The answer of a call and the peer that it evicted. -/
structure NonceEvent where
  call : NonceCall
  decision : ReplayDecision
  evicted : Option String

def eventOf (cache : FederationNonceCache) (call : NonceCall) : NonceEvent :=
  ⟨call, (recordInMemory sha256 cache call).1, (evictPeer cache call.peerId).2⟩

def eventsFrom (cache : FederationNonceCache) : List NonceCall → List NonceEvent
  | [] => []
  | call :: rest => eventOf sha256 cache call :: eventsFrom (nextInMemory sha256 cache call) rest

/-- The events of a run from a fresh cache. -/
def history (calls : List NonceCall) : List NonceEvent := eventsFrom sha256 .new calls

/-- The events of two parts follow each other. -/
theorem eventsFrom_append (cache : FederationNonceCache) (first second : List NonceCall) :
    eventsFrom sha256 cache (first ++ second) =
      eventsFrom sha256 cache first ++ eventsFrom sha256 (run (nextInMemory sha256) cache first) second := by
  induction first generalizing cache with
  | nil => rfl
  | cons call rest ih => rw [List.cons_append, eventsFrom, eventsFrom, ih, run_cons, List.cons_append]

/-- One more call adds its event to the history. -/
theorem history_concat (calls : List NonceCall) (call : NonceCall) :
    history sha256 (calls ++ [call]) =
      history sha256 calls ++ [eventOf sha256 (cacheAfter sha256 calls) call] :=
  eventsFrom_append sha256 .new calls [call]

/-- An event of a run is about one of its calls and never evicts its own peer. -/
theorem mem_history {calls : List NonceCall} {event : NonceEvent} (present : event ∈ history sha256 calls) :
    event.call ∈ calls ∧ event.evicted ≠ some event.call.peerId := by
  induction calls using List.reverseRecOn with
  | nil => cases present
  | append_singleton calls call ih =>
      rw [history_concat, List.mem_append, List.mem_singleton] at present
      rw [List.mem_append]
      rcases present with earlier | rfl
      · exact ⟨.inl (ih earlier).1, (ih earlier).2⟩
      · exact ⟨.inr List.mem_cons_self, evictPeer_keeps⟩

/-- The slot of a peer after its call. -/
def settledSlot (cache : FederationNonceCache) (call : NonceCall) : PeerNonceSlot :=
  if fingerprint sha256 call.peerId call.nonce ∈ (touchedSlot cache call.peerId).seen then
    touchedSlot cache call.peerId
  else (touchedSlot cache call.peerId).popFront.1.pushBack (fingerprint sha256 call.peerId call.nonce)

/-- A call is a replay exactly when its fingerprint was seen. -/
theorem recordInMemory_fst (cache : FederationNonceCache) (call : NonceCall) :
    (recordInMemory sha256 cache call).1 =
      if fingerprint sha256 call.peerId call.nonce ∈ (touchedSlot cache call.peerId).seen then .replay
      else .fresh := by
  rw [recordInMemory]
  split_ifs with known
  · rw [@recordAndCheck_replay sha256 ⟨cache, .empty⟩ call known]
  · rw [@recordAndCheck_fresh sha256 ⟨cache, .empty⟩ call known]

/-- A call settles the slot of its peer and drops the slot of the peer that it evicts. -/
theorem slotOf_nextInMemory (cache : FederationNonceCache) (call : NonceCall) (query : String) :
    slotOf (nextInMemory sha256 cache call).inner query =
      if query = call.peerId then some (settledSlot sha256 cache call)
      else if (evictPeer cache call.peerId).2 = some query then none
      else slotOf cache.inner query := by
  have same : nextInMemory sha256 cache call = (next sha256 ⟨cache, .empty⟩ call).cache := rfl
  rw [same, settledSlot]
  by_cases known : fingerprint sha256 call.peerId call.nonce ∈ (touchedSlot cache call.peerId).seen
  · rw [if_pos known, evictPeer_of_known known, if_neg (Option.some_ne_none query).symm]
    exact @slotOf_replay sha256 ⟨cache, .empty⟩ call known query
  · rw [if_neg known]
    exact @slotOf_fresh sha256 ⟨cache, .empty⟩ call known query

/-- Every call in memory advances the counter by one. -/
theorem nextInMemory_counter (cache : FederationNonceCache) (call : NonceCall) :
    (nextInMemory sha256 cache call).touchCounter = (cache.touchCounter + 1) % 2 ^ 64 :=
  @next_counter sha256 ⟨cache, .empty⟩ call

end Memory

namespace PeerNonceSlot

/-- The set and the queue of a slot hold the same fingerprints once. -/
structure Lockstep (slot : PeerNonceSlot) : Prop where
  seen : slot.seen = slot.order.toFinset
  distinct : slot.order.Nodup

variable {slot : PeerNonceSlot}

/-- In lockstep the set and the queue hold the same fingerprints. -/
theorem Lockstep.mem_seen (lockstep : slot.Lockstep) {fp : Digest} : fp ∈ slot.seen ↔ fp ∈ slot.order := by
  rw [lockstep.seen, List.mem_toFinset]

theorem lockstep_empty : empty.Lockstep := ⟨rfl, List.nodup_nil⟩

/-- The pop leaves the tail of a full queue. -/
theorem popFront_order (slot : PeerNonceSlot) : slot.popFront.1.order =
    if slot.order.length ≥ federationNonceCapacityPerPeer then slot.order.tail else slot.order := by
  rw [popFront]
  split_ifs with full
  · split
    · rename_i shape
      rw [shape, List.tail_cons]
    · rename_i shape
      rw [shape, List.tail_nil]
  · rfl

/-- A popped slot stays in lockstep. -/
theorem Lockstep.popFront (lockstep : slot.Lockstep) : slot.popFront.1.Lockstep := by
  obtain ⟨seen, distinct⟩ := lockstep
  rw [PeerNonceSlot.popFront]
  split_ifs with full
  · split
    · rename_i oldest rest shape
      rw [shape, List.nodup_cons] at distinct
      refine ⟨?_, distinct.2⟩
      rw [seen, shape, List.toFinset_cons, Finset.erase_insert]
      exact fun present => distinct.1 (List.mem_toFinset.mp present)
    · exact ⟨seen, distinct⟩
  · exact ⟨seen, distinct⟩

/-- A pushed slot stays in lockstep. -/
theorem Lockstep.pushBack (lockstep : slot.Lockstep) {fp : Digest} (new : fp ∉ slot.order) :
    (slot.pushBack fp).Lockstep where
  seen := by
    ext other
    simp only [PeerNonceSlot.pushBack, lockstep.seen, Finset.mem_insert, List.mem_toFinset, List.mem_append,
      List.mem_singleton]
    exact or_comm
  distinct := List.nodup_append.mpr ⟨lockstep.distinct, List.nodup_singleton _, fun other present last held =>
    fun same => new (List.mem_singleton.mp held ▸ same ▸ present)⟩

end PeerNonceSlot

section Window
variable (sha256 : Bytes → Digest)

/-- What an event means for the window of a peer. -/
def markOf (peerId : String) (event : NonceEvent) : Option (WindowMark String) :=
  if event.evicted = some peerId then some .reset
  else if event.call.peerId = peerId ∧ event.decision = .fresh then some (.push event.call.nonce)
  else none

/-- The nonces that a peer may not repeat. -/
def nonceWindow (past : List NonceEvent) (peerId : String) : List String :=
  windowAfter federationNonceCapacityPerPeer (past.filterMap (markOf peerId))

/-- The queue of each peer holds the fingerprints of its window. -/
structure Windowed (past : List NonceEvent) (cache : FederationNonceCache) (peerId : String) : Prop where
  lockstep : ((slotOf cache.inner peerId).getD .empty).Lockstep
  order : ((slotOf cache.inner peerId).getD .empty).order =
    (nonceWindow past peerId).map (fingerprint sha256 peerId)

/-- One more event slides the window of its peer. -/
theorem nonceWindow_concat (past : List NonceEvent) (event : NonceEvent) (peerId : String) :
    nonceWindow (past ++ [event]) peerId = match markOf peerId event with
      | some mark => slide federationNonceCapacityPerPeer (nonceWindow past peerId) mark
      | none => nonceWindow past peerId := by
  rw [nonceWindow, List.filterMap_append, List.filterMap_cons, List.filterMap_nil]
  cases markOf peerId event with
  | none => rw [List.append_nil, nonceWindow]
  | some mark => exact windowAfter_concat _ mark

variable {sha256} {past : List NonceEvent} {cache : FederationNonceCache}

/-- The slot that a call reads holds the window of its peer. -/
theorem Windowed.touched {peerId : String} (windowed : Windowed sha256 past cache peerId) :
    (touchedSlot cache peerId).Lockstep ∧
      (touchedSlot cache peerId).order = (nonceWindow past peerId).map (fingerprint sha256 peerId) :=
  ⟨⟨windowed.lockstep.seen, windowed.lockstep.distinct⟩, windowed.order⟩

/-- A fresh answer enters the window of its peer and a replay leaves it. -/
theorem Windowed.settle {call : NonceCall} (windowed : Windowed sha256 past cache call.peerId) :
    Windowed sha256 (past ++ [eventOf sha256 cache call]) (nextInMemory sha256 cache call) call.peerId := by
  obtain ⟨touched, sameOrder⟩ := windowed.touched
  have slot : (slotOf (nextInMemory sha256 cache call).inner call.peerId).getD .empty =
      settledSlot sha256 cache call := by rw [slotOf_nextInMemory, if_pos rfl, Option.getD_some]
  have mark : markOf call.peerId (eventOf sha256 cache call) =
      if fingerprint sha256 call.peerId call.nonce ∈ (touchedSlot cache call.peerId).seen then none
      else some (.push call.nonce) := by
    have keeps : (eventOf sha256 cache call).evicted ≠ some call.peerId := evictPeer_keeps
    rw [markOf, if_neg keeps]
    simp only [eventOf, recordInMemory_fst, true_and]
    by_cases known : fingerprint sha256 call.peerId call.nonce ∈ (touchedSlot cache call.peerId).seen <;>
      simp [known]
  by_cases known : fingerprint sha256 call.peerId call.nonce ∈ (touchedSlot cache call.peerId).seen
  · rw [if_pos known] at mark
    constructor
    · rw [slot, settledSlot, if_pos known]
      exact touched
    · rw [slot, settledSlot, if_pos known, nonceWindow_concat, mark]
      exact sameOrder
  · rw [if_neg known] at mark
    have new : fingerprint sha256 call.peerId call.nonce ∉ (touchedSlot cache call.peerId).popFront.1.order := by
      rw [PeerNonceSlot.popFront_order]
      split_ifs
      · exact fun present => known (touched.mem_seen.mpr (List.mem_of_mem_tail present))
      · exact fun present => known (touched.mem_seen.mpr present)
    constructor
    · rw [slot, settledSlot, if_neg known]
      exact touched.popFront.pushBack new
    · rw [slot, settledSlot, if_neg known, nonceWindow_concat, mark]
      simp only [PeerNonceSlot.pushBack, PeerNonceSlot.popFront_order, sameOrder, slide, List.length_map]
      split_ifs
      · rw [List.map_append, List.map_tail, List.map_singleton]
      · rw [List.map_append, List.map_singleton]

/-- A call keeps the windows of all peers. -/
theorem Windowed.next (windowed : ∀ peerId, Windowed sha256 past cache peerId) (call : NonceCall)
    (peerId : String) :
    Windowed sha256 (past ++ [eventOf sha256 cache call]) (nextInMemory sha256 cache call) peerId := by
  by_cases own : peerId = call.peerId
  · subst own
    exact (windowed call.peerId).settle
  · have slot := slotOf_nextInMemory sha256 cache call peerId
    rw [if_neg own] at slot
    by_cases evicted : (evictPeer cache call.peerId).2 = some peerId
    · have mark : markOf peerId (eventOf sha256 cache call) = some .reset := if_pos evicted
      rw [if_pos evicted] at slot
      constructor
      · rw [slot]
        exact PeerNonceSlot.lockstep_empty
      · rw [slot, nonceWindow_concat, mark]
        rfl
    · have mark : markOf peerId (eventOf sha256 cache call) = none :=
        (if_neg evicted).trans (if_neg fun held => own held.1.symm)
      rw [if_neg evicted] at slot
      constructor
      · rw [slot]
        exact (windowed peerId).lockstep
      · rw [slot, nonceWindow_concat, mark]
        exact (windowed peerId).order

/-- After every run the slot of a peer is its window. -/
theorem windowed_cacheAfter (sha256 : Bytes → Digest) (calls : List NonceCall) (peerId : String) :
    Windowed sha256 (history sha256 calls) (cacheAfter sha256 calls) peerId := by
  induction calls using List.reverseRecOn generalizing peerId with
  | nil => exact ⟨PeerNonceSlot.lockstep_empty, rfl⟩
  | append_singleton calls call ih =>
      rw [history_concat, cacheAfter_concat]
      exact Windowed.next ih call peerId

end Window

section Replays

/-- The event is a fresh answer for the peer. -/
def NonceEvent.freshFor (peerId : String) (event : NonceEvent) : Bool :=
  event.call.peerId = peerId ∧ event.decision = .fresh

/-- The pair was answered fresh, fewer fresh answers than fit followed for its peer, and its slot stayed. -/
def StillHeld (past : List NonceEvent) (call : NonceCall) : Prop :=
  ∃ before event later, past = before ++ event :: later ∧ event.call = call ∧ event.decision = .fresh ∧
    later.countP (NonceEvent.freshFor call.peerId) < federationNonceCapacityPerPeer ∧
    ∀ other ∈ later, other.evicted ≠ some call.peerId

/-- The window of a peer was never reset exactly when the peer was never evicted. -/
theorem reset_notMem_marks {events : List NonceEvent} {peerId : String} :
    .reset ∉ events.filterMap (markOf peerId) ↔ ∀ event ∈ events, event.evicted ≠ some peerId := by
  simp only [List.mem_filterMap, not_exists, not_and]
  refine forall₂_congr fun event present => ?_
  rw [markOf]
  split_ifs with evicted fresh <;> simp [evicted]

/-- The pushes of a peer that keeps its slot are its fresh answers. -/
theorem countP_marks {events : List NonceEvent} {peerId : String}
    (kept : ∀ event ∈ events, event.evicted ≠ some peerId) :
    (events.filterMap (markOf peerId)).countP WindowMark.isPush = events.countP (NonceEvent.freshFor peerId) := by
  rw [List.countP_filterMap]
  apply List.countP_congr
  intro event present
  rw [markOf, if_neg (kept event present), NonceEvent.freshFor]
  split_ifs with fresh <;> simp [fresh, WindowMark.isPush]

/-- A mark pushes the nonce of a fresh call. -/
theorem markOf_eq_push {event : NonceEvent} {peerId nonce : String}
    (marked : markOf peerId event = some (.push nonce)) : event.call = ⟨peerId, nonce⟩ ∧ event.decision = .fresh := by
  rw [markOf] at marked
  split_ifs at marked with evicted fresh
  · cases marked
  · obtain ⟨⟨own, other⟩, decision, gone⟩ := event
    obtain ⟨rfl, rfl⟩ := fresh
    cases marked
    exact ⟨rfl, rfl⟩

/-- The window of a peer holds a nonce exactly when its fresh answer still counts. -/
theorem mem_nonceWindow_iff {past : List NonceEvent} {call : NonceCall}
    (spared : ∀ event ∈ past, event.evicted ≠ some event.call.peerId) :
    call.nonce ∈ nonceWindow past call.peerId ↔ StillHeld past call := by
  rw [nonceWindow, mem_windowAfter_iff (by decide)]
  constructor
  · rintro ⟨before, later, split, few, kept⟩
    obtain ⟨front, rest, rfl, _, tail⟩ := List.filterMap_eq_append_iff.mp split
    obtain ⟨skipped, event, newer, rfl, _, marked, rfl⟩ := List.filterMap_eq_cons_iff.mp tail
    rw [reset_notMem_marks] at kept
    rw [countP_marks kept] at few
    exact ⟨front ++ skipped, event, newer, (List.append_assoc ..).symm, (markOf_eq_push marked).1,
      (markOf_eq_push marked).2, few, kept⟩
  · rintro ⟨before, event, later, rfl, rfl, fresh, few, kept⟩
    have own := spared event (List.mem_append_right _ List.mem_cons_self)
    have marked : markOf event.call.peerId event = some (.push event.call.nonce) := by
      rw [markOf, if_neg own, if_pos ⟨rfl, fresh⟩]
    refine ⟨before.filterMap (markOf event.call.peerId), later.filterMap (markOf event.call.peerId), ?_, ?_,
      reset_notMem_marks.mpr kept⟩
    · rw [List.filterMap_append, List.filterMap_cons, marked]
    · rwa [countP_marks kept]

/-- The bytes that a fingerprint hashes. -/
def NonceCall.preimage (call : NonceCall) : Bytes :=
  beBytes 4 (utf8 call.peerId).length ++ utf8 call.peerId ++ beBytes 4 (utf8 call.nonce).length ++ utf8 call.nonce

/-- The nonce is what follows the peer, so one peer has one preimage for each nonce. -/
theorem nonce_eq_of_preimage {peerId first second : String}
    (same : NonceCall.preimage ⟨peerId, first⟩ = NonceCall.preimage ⟨peerId, second⟩) : first = second := by
  simp only [NonceCall.preimage, List.append_assoc] at same
  have lengths := List.append_cancel_left (List.append_cancel_left same)
  exact utf8_injective (List.append_inj lengths (by simp)).2

variable {sha256 : Bytes → Digest} {calls : List NonceCall} {call : NonceCall}

/-- A call is refused exactly when its nonce is in the window of its peer. -/
theorem replay_iff_stillHeld
    (collisionFree : CollisionFree sha256 ((calls ++ [call]).map NonceCall.preimage)) :
    (recordInMemory sha256 (cacheAfter sha256 calls) call).1 = .replay ↔ StillHeld (history sha256 calls) call := by
  obtain ⟨lockstep, order⟩ := (windowed_cacheAfter sha256 calls call.peerId).touched
  have spared (event : NonceEvent) (present : event ∈ history sha256 calls) :
      event.evicted ≠ some event.call.peerId := (mem_history sha256 present).2
  have known : fingerprint sha256 call.peerId call.nonce ∈ (touchedSlot (cacheAfter sha256 calls) call.peerId).seen ↔
      StillHeld (history sha256 calls) call := by
    rw [lockstep.mem_seen, order, List.mem_map, ← mem_nonceWindow_iff spared]
    constructor
    · rintro ⟨nonce, held, same⟩
      obtain ⟨before, event, later, split, own, _⟩ := (@mem_nonceWindow_iff _ ⟨call.peerId, nonce⟩ spared).mp held
      have asked : event ∈ history sha256 calls := split ▸ List.mem_append_right _ List.mem_cons_self
      have earlier : ⟨call.peerId, nonce⟩ ∈ calls ++ [call] :=
        List.mem_append_left _ (own ▸ (mem_history sha256 asked).1)
      have preimages := collisionFree _ (List.mem_map_of_mem earlier) _
        (List.mem_map_of_mem (List.mem_append_right _ List.mem_cons_self)) same
      exact nonce_eq_of_preimage preimages ▸ held
    · exact fun held => ⟨call.nonce, held, rfl⟩
  rw [recordInMemory_fst, ← known]
  split_ifs with seen <;> simp [seen]

end Replays
end AiMemory.Replay
