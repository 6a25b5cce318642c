import AiMemory.Library.Run
import AiMemory.Replay.NonceMirror

/-
This file compares a cache with the one that a restart builds over its table.
-/

namespace AiMemory.Replay
open AiMemory.Library AiMemory.Machine

/-- The counter fits the signed column. -/
def CounterFits (state : PersistentCache) (_ : NonceCall) : Prop := state.cache.touchCounter < 2 ^ 63

/-- Every other peer has a row that is newer than all rows of a peer that a new one may evict. -/
def EvictsOldest (state : PersistentCache) (call : NonceCall) : Prop :=
  slotOf state.cache.inner call.peerId = none → state.cache.inner.rows.length ≥ federationNonceMaxPeers →
    ∀ victim ∈ state.cache.inner.rows,
      (∀ other ∈ state.cache.inner.rows, victim.2.lastTouch ≤ other.2.lastTouch) →
        ∀ other ∈ state.cache.inner.rows, other.1 ≠ victim.1 →
          ∃ row ∈ state.table.rows, row.peerId = other.1 ∧
            ∀ own ∈ state.table.rows, own.peerId = victim.1 → own.lastTouch < row.lastTouch

section Simulation

/-- The touches moved together since the restart or the copy has the newest touch of the table. -/
inductive Aged (start restart : Nat) (table : NonceTable) (peerId : String) : Nat → Nat → Prop where
  | since (steps : Nat) : Aged start restart table peerId (start + steps) (restart + steps)
  | before {touch copied : Nat} (old : touch < start) (loaded : copied < restart)
      (newest : NewestTouch table peerId copied) : Aged start restart table peerId touch copied

/-- The copied cache has the same fingerprints and touches that aged. -/
structure Follows (start restart : Nat) (state : PersistentCache) (copy : FederationNonceCache) : Prop where
  counter : ∃ steps, state.cache.touchCounter = start + steps ∧ copy.touchCounter = restart + steps
  vacant : ∀ peerId, slotOf state.cache.inner peerId = none ↔ slotOf copy.inner peerId = none
  slots : ∀ peerId, ∀ slot ∈ slotOf state.cache.inner peerId, ∀ copied ∈ slotOf copy.inner peerId,
    copied = { slot with lastTouch := copied.lastTouch } ∧
      Aged start restart state.table peerId slot.lastTouch copied.lastTouch

/-- The newest touch of a peer depends on its persisted rows only. -/
theorem NewestTouch.of_persisted {first second : NonceTable} {peerId : String} {touch : Nat}
    (same : persisted second peerId = persisted first peerId) (newest : NewestTouch first peerId touch) :
    NewestTouch second peerId touch where
  reached := by
    obtain ⟨row, present, own, stamp⟩ := newest.reached
    have kept := mem_persisted_iff.mpr ⟨present, own⟩
    rw [← same] at kept
    exact ⟨row, (mem_persisted_iff.mp kept).1, own, stamp⟩
  bounds := by
    intro row present own
    have kept := mem_persisted_iff.mpr ⟨present, own⟩
    rw [same] at kept
    exact newest.bounds row (mem_persisted_iff.mp kept).1 own

theorem Aged.of_persisted {start restart : Nat} {first second : NonceTable} {peerId : String}
    {touch copied : Nat} (same : persisted second peerId = persisted first peerId)
    (aged : Aged start restart first peerId touch copied) :
    Aged start restart second peerId touch copied := by
  cases aged with
  | since steps => exact .since steps
  | before old loaded newest => exact .before old loaded (newest.of_persisted same)

theorem popFront_touch (slot : PeerNonceSlot) (touch : Nat) :
    { slot with lastTouch := touch : PeerNonceSlot }.popFront =
      ({ slot.popFront.1 with lastTouch := touch }, slot.popFront.2) := by
  obtain ⟨seen, order, _⟩ := slot
  unfold PeerNonceSlot.popFront
  split_ifs
  · cases order <;> rfl
  · rfl

namespace Follows

variable {start restart : Nat} {state : PersistentCache} {copy : FederationNonceCache}

/-- A restart of a mirrored state loads a copy of its cache. -/
theorem ofRestart (mirrored : Mirrored state) :
    Follows state.cache.touchCounter (hydrateFromDisk state.table).touchCounter state
      (hydrateFromDisk state.table) where
  counter := ⟨0, rfl, rfl⟩
  vacant := by
    intro peerId
    rw [(mirrored.reflects peerId).vacant, (hydrateFromDisk_slot mirrored.wellFormed peerId).1.vacant,
      newest_of_bounded (mirrored.reflects peerId).holds.bounded]
  slots := by
    intro peerId slot found copied reached
    obtain ⟨reflects, newest⟩ := hydrateFromDisk_slot mirrored.wellFormed peerId
    have holds := (mirrored.reflects peerId).holds
    have loaded := reflects.holds
    rw [newest_of_bounded holds.bounded] at loaded
    rw [Option.mem_def.mp found, Option.getD_some] at holds
    rw [Option.mem_def.mp reached, Option.getD_some] at loaded
    have order : copied.order = slot.order :=
      List.map_injective_iff.mpr Subtype.val_injective (loaded.order.trans holds.order.symm)
    have seen : copied.seen = slot.seen := by
      rw [loaded.seen, holds.seen, order]
    refine ⟨?_, .before (mirrored.stamped.below peerId slot found) ?_ (newest copied reached)⟩
    · rw [← order, ← seen]
    · obtain ⟨row, present, _, stamp⟩ := (newest copied reached).reached
      have below := (hydrateFromDisk_counter mirrored.wellFormed).2.1 row present
      omega

variable {call : NonceCall}

/-- The restarted cache touches a slot with the same nonces. -/
theorem touchedSlot_eq (follows : Follows start restart state copy) (peerId : String) :
    touchedSlot copy peerId = { touchedSlot state.cache peerId with lastTouch := copy.touchCounter } := by
  cases found : slotOf state.cache.inner peerId with
  | none =>
      rw [touchedSlot, touchedSlot, found, (follows.vacant peerId).mp found]
  | some slot =>
      cases reached : slotOf copy.inner peerId with
      | none =>
          rw [(follows.vacant peerId).mpr reached] at found
          cases found
      | some copied =>
          obtain ⟨same, _⟩ := follows.slots peerId slot found copied reached
          rw [touchedSlot, touchedSlot, found, reached, Option.getD_some, Option.getD_some, same]

/-- A peer whose touch is least in both caches is the same peer where its rows are the oldest. -/
theorem least_eq (mirrored : Mirrored state) (follows : Follows start restart state copy)
    {victim chosen : String} {slot other copied moved : PeerNonceSlot}
    (found : slot ∈ slotOf state.cache.inner victim) (otherFound : other ∈ slotOf state.cache.inner chosen)
    (reached : copied ∈ slotOf copy.inner victim) (movedReached : moved ∈ slotOf copy.inner chosen)
    (least : slot.lastTouch ≤ other.lastTouch) (copiedLeast : moved.lastTouch ≤ copied.lastTouch)
    (oldest : chosen ≠ victim → ∃ row ∈ state.table.rows, row.peerId = chosen ∧
      ∀ own ∈ state.table.rows, own.peerId = victim → own.lastTouch < row.lastTouch) :
    chosen = victim := by
  obtain ⟨_, aged⟩ := follows.slots victim slot found copied reached
  obtain ⟨_, otherAged⟩ := follows.slots chosen other otherFound moved movedReached
  have apart := mirrored.stamped.apart chosen victim other otherFound slot found
  generalize slot.lastTouch = touch at *
  generalize copied.lastTouch = copiedTouch at *
  generalize other.lastTouch = otherTouch at *
  generalize moved.lastTouch = movedTouch at *
  cases aged with
  | since steps =>
      cases otherAged with
      | since otherSteps => exact apart (by omega)
      | before old _ _ => omega
  | before old loaded newest =>
      cases otherAged with
      | since otherSteps => omega
      | before _ _ otherNewest =>
          by_contra other
          obtain ⟨row, present, own, newer⟩ := oldest other
          obtain ⟨last, held, lastOwn, stamp⟩ := newest.reached
          have below := newer last held lastOwn
          have above := otherNewest.bounds row present own
          omega

/-- The caches evict the same peer where the table has the order of the touches. -/
theorem evicted_eq (mirrored : Mirrored state) (follows : Follows start restart state copy)
    (oldest : EvictsOldest state call) :
    (evictPeer copy call.peerId).2 = (evictPeer state.cache call.peerId).2 := by
  have vacant := follows.vacant call.peerId
  have length := length_eq_of_vacant follows.vacant
  rcases @evictPeer_cases state.cache call.peerId with
    ⟨room, stays⟩ | ⟨victim, full, ⟨slot, found, least⟩, leaves⟩ <;>
    rcases @evictPeer_cases copy call.peerId with
      ⟨otherRoom, otherStays⟩ | ⟨chosen, otherFull, ⟨moved, movedReached, otherLeast⟩, otherLeaves⟩
  · rw [stays, otherStays]
  · exact absurd ⟨vacant.mpr otherFull.1, length ▸ otherFull.2⟩ room
  · exact absurd ⟨vacant.mp full.1, length ▸ full.2⟩ otherRoom
  · obtain ⟨copied, reached⟩ := Option.ne_none_iff_exists'.mp fun absent =>
      Option.some_ne_none slot (found.symm.trans ((follows.vacant victim).mpr absent))
    obtain ⟨other, otherFound⟩ := Option.ne_none_iff_exists'.mp fun absent =>
      Option.some_ne_none moved (movedReached.symm.trans ((follows.vacant chosen).mp absent))
    rw [leaves, otherLeaves]
    refine congrArg some (least_eq mirrored follows found otherFound reached movedReached
      (least chosen other otherFound) (otherLeast victim copied reached) fun apart => ?_)
    refine oldest full.1 full.2 (victim, slot) (slotOf_eq_some_iff.mp found) ?_ (chosen, other)
      (slotOf_eq_some_iff.mp otherFound) apart
    exact fun entry present => least entry.1 entry.2 (slotOf_eq_some_iff.mpr present)

/-- A slot that the call leaves alone keeps its age. -/
theorem aged_next {sha256 : Bytes → Digest} (mirrored : Mirrored state)
    (counted : state.cache.touchCounter < 2 ^ 63) {query : String} (other : query ≠ call.peerId)
    {slot : PeerNonceSlot} (found : slot ∈ slotOf (next sha256 state call).cache.inner query)
    {touch copied : Nat}
    (aged : Aged start restart state.table query touch copied) :
    Aged start restart (next sha256 state call).table query touch copied := by
  apply aged.of_persisted
  by_cases known : fingerprint sha256 call.peerId call.nonce ∈ (touchedSlot state.cache call.peerId).seen
  · rw [Replay.next, recordAndCheck_replay sha256 known]
  · rw [slotOf_fresh sha256 known, if_neg other] at found
    split_ifs at found with evicted
    · cases found
    · rw [mirrored.persisted_next counted known, if_neg other, if_neg evicted]

/-- A call has one answer on both caches and the copy goes on following. -/
theorem next (sha256 : Bytes → Digest) (mirrored : Mirrored state)
    (counted : state.cache.touchCounter < 2 ^ 63) (earlier : restart ≤ start)
    (oldest : EvictsOldest state call) {other : PersistentCache}
    (follows : Follows start restart state other.cache) :
    (recordAndCheck sha256 other call).1 = (recordAndCheck sha256 state call).1 ∧
      Follows start restart (next sha256 state call) (next sha256 other call).cache := by
  obtain ⟨steps, counter, otherCounter⟩ := follows.counter
  have touched := follows.touchedSlot_eq call.peerId
  have evicted := follows.evicted_eq mirrored oldest
  have stamp : Aged start restart (Replay.next sha256 state call).table call.peerId
      state.cache.touchCounter other.cache.touchCounter := counter ▸ otherCounter ▸ .since steps
  have counters : ∃ steps, (Replay.next sha256 state call).cache.touchCounter = start + steps ∧
      (Replay.next sha256 other call).cache.touchCounter = restart + steps := by
    refine ⟨steps + 1, ?_, ?_⟩ <;> rw [next_counter, Nat.mod_eq_of_lt] <;> omega
  by_cases known : fingerprint sha256 call.peerId call.nonce ∈ (touchedSlot state.cache call.peerId).seen
  · have otherKnown : fingerprint sha256 call.peerId call.nonce ∈
        (touchedSlot other.cache call.peerId).seen := touched ▸ known
    refine ⟨by rw [recordAndCheck_replay sha256 known, recordAndCheck_replay sha256 otherKnown],
      counters, fun query => ?_, fun query slot found copied reached => ?_⟩
    · rw [slotOf_replay sha256 known, slotOf_replay sha256 otherKnown]
      split_ifs
      · exact Iff.rfl
      · exact follows.vacant query
    · have kept := found
      rw [slotOf_replay sha256 known] at found
      rw [slotOf_replay sha256 otherKnown] at reached
      split_ifs at found reached with own
      · cases found
        cases reached
        exact ⟨touched, own ▸ stamp⟩
      · obtain ⟨same, aged⟩ := follows.slots query slot found copied reached
        exact ⟨same, aged_next mirrored counted own kept aged⟩
  · have otherNew : fingerprint sha256 call.peerId call.nonce ∉
        (touchedSlot other.cache call.peerId).seen := touched ▸ known
    refine ⟨by rw [recordAndCheck_fresh sha256 known, recordAndCheck_fresh sha256 otherNew],
      counters, fun query => ?_, fun query slot found copied reached => ?_⟩
    · rw [slotOf_fresh sha256 known, slotOf_fresh sha256 otherNew, evicted]
      split_ifs
      · exact Iff.rfl
      · exact Iff.rfl
      · exact follows.vacant query
    · have kept := found
      rw [slotOf_fresh sha256 known] at found
      rw [slotOf_fresh sha256 otherNew, evicted] at reached
      split_ifs at found reached with own gone
      · cases found
        cases reached
        rw [pushed_lastTouch, pushed_lastTouch, own, touched, popFront_touch]
        exact ⟨rfl, stamp⟩
      · cases found
      · obtain ⟨same, aged⟩ := follows.slots query slot found copied reached
        exact ⟨same, aged_next mirrored counted own kept aged⟩

/-- The restarted cache answers every call as before. -/
theorem answers_eq (sha256 : Bytes → Digest) (earlier : restart ≤ start) {other : PersistentCache}
    (mirrored : Mirrored state) (follows : Follows start restart state other.cache)
    {calls : List NonceCall} (counted : EveryStep (Replay.next sha256) CounterFits state calls)
    (oldest : EveryStep (Replay.next sha256) EvictsOldest state calls) :
    answers sha256 other calls = answers sha256 state calls := by
  induction calls generalizing state other with
  | nil => rfl
  | cons call rest ih =>
      obtain ⟨same, following⟩ := next sha256 mirrored counted.1 earlier oldest.1 follows
      rw [answers, answers, same, ih (mirrored.next counted.1) following counted.2 oldest.2]

end Follows
end Simulation

/-- A restart leaves every later answer as it was. -/
theorem restart_unnoticed (sha256 : Bytes → Digest) (table : NonceTable) (wellFormed : WellFormed table)
    (earlier later : List NonceCall)
    (counted : EveryStep (next sha256) CounterFits (newWithDbPersistence table) (earlier ++ later))
    (oldest : EveryStep (next sha256) EvictsOldest
      (run (next sha256) (newWithDbPersistence table) earlier) later) :
    answers sha256
        (newWithDbPersistence (run (next sha256) (newWithDbPersistence table) earlier).table) later =
      answers sha256 (run (next sha256) (newWithDbPersistence table) earlier) later := by
  obtain ⟨countedEarlier, countedLater⟩ := EveryStep.append_iff.mp counted
  have mirrored := run_invariant (fun _ _ fits mirrored => Mirrored.next mirrored fits) countedEarlier
    (newWithDbPersistence_mirrored wellFormed)
  have before := (hydrateFromDisk_counter mirrored.wellFormed).2.2 _ mirrored.started
    fun row present => (mirrored.counted row present).2
  exact Follows.answers_eq sha256 before mirrored (Follows.ofRestart mirrored) countedLater oldest

section Crowd

variable (sha256 : Bytes → Digest) (nonce : String)

/-- Each peer of a crowd has one slot and one row under its position. -/
structure Crowded (peers : List String) (state : PersistentCache) : Prop where
  mirrored : Mirrored state
  counter : state.cache.touchCounter = peers.length + 1
  slots : state.cache.inner.rows = (peers.zipIdx 1).map fun peer =>
    (peer.1, ⟨{fingerprint sha256 peer.1 nonce}, [fingerprint sha256 peer.1 nonce], peer.2⟩)
  rows : state.table.rows = (peers.zipIdx 1).map fun peer =>
    freshRow peer.1 (fingerprint sha256 peer.1 nonce) peer.2

variable {sha256 nonce} {peers : List String} {state : PersistentCache}

/-- A peer outside the crowd has no slot. -/
theorem Crowded.absent (crowded : Crowded sha256 nonce peers state) {peerId : String} (new : peerId ∉ peers) :
    slotOf state.cache.inner peerId = none := by
  refine Option.eq_none_iff_forall_ne_some.mpr fun slot found => new ?_
  have present := slotOf_eq_some_iff.mp found
  rw [crowded.slots] at present
  obtain ⟨peer, held, same⟩ := List.mem_map.mp present
  rw [← (Prod.mk.inj same).1]
  exact List.fst_mem_of_mem_zipIdx held

theorem Crowded.absent_row (crowded : Crowded sha256 nonce peers state) {peerId : String}
    (new : peerId ∉ peers) (blob : Bytes) : state.table.lookup (peerId, blob) = none := by
  refine Option.eq_none_iff_forall_ne_some.mpr fun row found => new ?_
  obtain ⟨present, same⟩ := Table.lookup_eq_some_iff.mp found
  rw [crowded.rows] at present
  obtain ⟨peer, held, rfl⟩ := List.mem_map.mp present
  rw [← (Prod.mk.inj same).1]
  exact List.fst_mem_of_mem_zipIdx held

/-- A new peer below the ceiling joins the crowd. -/
theorem Crowded.join (crowded : Crowded sha256 nonce peers state) {peerId : String} (new : peerId ∉ peers)
    (room : peers.length < federationNonceMaxPeers) :
    Crowded sha256 nonce (peers ++ [peerId]) (next sha256 state ⟨peerId, nonce⟩) := by
  have ceiling : federationNonceMaxPeers < 2 ^ 62 := by decide
  have stays : evictPeer state.cache peerId = (state.cache, none) := by
    apply if_neg
    intro full
    have size := full.2
    rw [crowded.slots, List.length_map, List.length_zipIdx] at size
    omega
  have slot : touchedSlot state.cache peerId = ⟨∅, [], peers.length + 1⟩ := by
    rw [touchedSlot, crowded.absent new, crowded.counter]
    rfl
  have popped : (touchedSlot state.cache peerId).popFront = (⟨∅, [], peers.length + 1⟩, none) := by
    rw [slot]
    exact if_neg (show ¬ 0 ≥ federationNonceCapacityPerPeer by decide)
  have fresh := @recordAndCheck_fresh sha256 state ⟨peerId, nonce⟩
    (by rw [slot]; exact Finset.notMem_empty _)
  have column : touchColumn (peers.length + 1) = (peers.length + 1 : Nat) := touchColumn_eq (by omega)
  have mirrored : Mirrored (next sha256 state ⟨peerId, nonce⟩) :=
    crowded.mirrored.next (by rw [crowded.counter]; omega)
  rw [next, fresh] at mirrored ⊢
  simp only [stays, popped, crowded.counter] at mirrored ⊢
  refine ⟨mirrored, ?_, ?_, ?_⟩
  · rw [List.length_append, Nat.mod_eq_of_lt (by omega)]
    rfl
  · have vacant := crowded.absent new
    rw [slotOf, Option.map_eq_none_iff] at vacant
    rw [Table.upsert_rows_of_absent vacant, crowded.slots, List.zipIdx_append, List.map_append,
      Nat.add_comm 1]
    rfl
  · rw [persistFingerprintAndEvict, column, Table.upsert_rows_of_absent (crowded.absent_row new _),
      crowded.rows, List.zipIdx_append, List.map_append, Nat.add_comm 1]
    rfl

/-- More peers join the crowd while there is room. -/
theorem Crowded.run (crowded : Crowded sha256 nonce peers state) {others : List String}
    (lone : (peers ++ others).Nodup) (room : (peers ++ others).length ≤ federationNonceMaxPeers) :
    Crowded sha256 nonce (peers ++ others)
      (run (next sha256) state (others.map fun peerId => ⟨peerId, nonce⟩)) := by
  induction others generalizing peers state with
  | nil => rwa [List.append_nil]
  | cons peerId rest ih =>
      rw [List.append_cons] at lone room ⊢
      have new : peerId ∉ peers := by
        have apart := (List.nodup_append.mp lone).1
        rw [List.nodup_append] at apart
        exact fun present => apart.2.2 peerId present peerId List.mem_cons_self rfl
      refine ih (crowded.join new ?_) lone room
      rw [List.length_append, List.length_append, List.length_singleton] at room
      omega

variable {first second newcomer : String} {rest : List String}

/-- The first peer of a crowd has the only row with the first touch. -/
theorem Crowded.newestTouch_first (crowded : Crowded sha256 nonce (first :: rest) state)
    (lone : first ∉ rest) {peerId : String} {touch : Nat} (newest : NewestTouch state.table peerId touch) :
    (peerId = first → touch = 1) ∧ (touch ≤ 1 → peerId = first) := by
  obtain ⟨row, present, rfl, stamp⟩ := newest.reached
  rw [crowded.rows, List.zipIdx_cons, List.map_cons] at present
  rcases List.mem_cons.mp present with rfl | later
  · exact ⟨fun _ => Int.ofNat_inj.mp stamp.symm, fun _ => rfl⟩
  · obtain ⟨peer, held, rfl⟩ := List.mem_map.mp later
    have index : 1 + 1 ≤ peer.2 := List.le_snd_of_mem_zipIdx held
    have touched : peer.2 = touch := Int.ofNat_inj.mp stamp
    exact ⟨fun same => absurd (same ▸ List.fst_mem_of_mem_zipIdx held) lone, fun low => by omega⟩

/-- The peer of the first touch is evicted by a restarted cache. -/
theorem Crowded.restart_evicts (crowded : Crowded sha256 nonce (first :: rest) state) (lone : first ∉ rest)
    {slot : PeerNonceSlot}
    (found : slot ∈ slotOf (hydrateFromDisk state.table).inner first)
    (absent : slotOf (hydrateFromDisk state.table).inner newcomer = none)
    (full : (hydrateFromDisk state.table).inner.rows.length ≥ federationNonceMaxPeers) :
    (evictPeer (hydrateFromDisk state.table) newcomer).2 = some first := by
  rcases @evictPeer_cases (hydrateFromDisk state.table) newcomer with
    ⟨room, _⟩ | ⟨victim, _, ⟨moved, reached, least⟩, leaves⟩
  · exact absurd ⟨absent, full⟩ room
  · have wellFormed := crowded.mirrored.wellFormed
    have newest := (hydrateFromDisk_slot wellFormed first).2 slot found
    have touch := (crowded.newestTouch_first lone newest).1 rfl
    have low := least first slot found
    rw [touch] at low
    have victimNewest := (hydrateFromDisk_slot wellFormed victim).2 moved reached
    rw [leaves, (crowded.newestTouch_first lone victimNewest).2 low]

/-- The second call of a run sees the state that the first one leaves. -/
theorem answers_getLast (sha256 : Bytes → Digest) (state : PersistentCache) (first last : NonceCall) :
    (answers sha256 state [first, last]).getLast? =
      some (recordAndCheck sha256 (next sha256 state first) last).1 := rfl

/-- A peer without a slot has seen nothing. -/
theorem notMem_seen_of_absent {cache : FederationNonceCache} {peerId : String}
    (absent : slotOf cache.inner peerId = none) (fp : Digest) : fp ∉ (touchedSlot cache peerId).seen := by
  rw [touchedSlot, absent]
  exact Finset.notMem_empty fp

/-- A repeated nonce protects its peer from eviction until the restart only. -/
theorem Crowded.forgotten (crowded : Crowded sha256 nonce (first :: second :: rest) state)
    (lone : (first :: second :: rest).Nodup)
    (new : newcomer ∉ first :: second :: rest) (full : rest.length + 2 = federationNonceMaxPeers) :
    (answers sha256 (next sha256 state ⟨first, nonce⟩) [⟨newcomer, nonce⟩, ⟨first, nonce⟩]).getLast? =
        some .replay ∧
      (answers sha256 (newWithDbPersistence (next sha256 state ⟨first, nonce⟩).table)
        [⟨newcomer, nonce⟩, ⟨first, nonce⟩]).getLast? = some .fresh := by
  have absent := crowded.absent new
  have other : first ≠ newcomer := fun same => new (same ▸ List.mem_cons_self)
  have size : state.cache.inner.rows.length = federationNonceMaxPeers := by
    rw [crowded.slots, List.length_map, List.length_zipIdx]
    exact full
  have slotFirst : slotOf state.cache.inner first =
      some ⟨{fingerprint sha256 first nonce}, [fingerprint sha256 first nonce], 1⟩ := by
    rw [slotOf_eq_some_iff, crowded.slots]
    exact List.mem_cons_self
  have slotSecond : slotOf state.cache.inner second =
      some ⟨{fingerprint sha256 second nonce}, [fingerprint sha256 second nonce], 2⟩ := by
    rw [slotOf_eq_some_iff, crowded.slots]
    exact List.mem_cons_of_mem _ List.mem_cons_self
  have known : fingerprint sha256 first nonce ∈ (touchedSlot state.cache first).seen := by
    rw [touchedSlot, slotFirst]
    exact Finset.mem_singleton_self _
  constructor
  · have view := @slotOf_replay sha256 state ⟨first, nonce⟩ known
    have absentNow : slotOf (next sha256 state ⟨first, nonce⟩).cache.inner newcomer = none := by
      rw [view, if_neg (Ne.symm other), absent]
    have stays : (evictPeer (next sha256 state ⟨first, nonce⟩).cache newcomer).2 ≠ some first := by
      intro evicts
      obtain ⟨_, slot, found, least⟩ := evictPeer_eq_some evicts
      rw [view, if_pos rfl] at found
      cases found
      have apart : second ≠ first := fun same =>
        (List.nodup_cons.mp lone).1 (same ▸ List.mem_cons_self)
      have below := least second _ ((view second).trans ((if_neg apart).trans slotSecond))
      have counter := crowded.counter
      simp only [touchedSlot, List.length_cons] at below counter
      omega
    have kept := @slotOf_fresh sha256 (next sha256 state ⟨first, nonce⟩) ⟨newcomer, nonce⟩
      (notMem_seen_of_absent absentNow _) first
    rw [if_neg other, if_neg stays, view, if_pos rfl] at kept
    rw [answers_getLast, recordAndCheck_replay]
    rw [touchedSlot, kept]
    exact known
  · have table : (next sha256 state ⟨first, nonce⟩).table = state.table := by
      rw [next, @recordAndCheck_replay sha256 state ⟨first, nonce⟩ known]
    have follows := Follows.ofRestart crowded.mirrored
    have restartAbsent := (follows.vacant newcomer).mp absent
    obtain ⟨slot, found⟩ := Option.ne_none_iff_exists'.mp fun vacant =>
      Option.some_ne_none _ (slotFirst.symm.trans ((follows.vacant first).mpr vacant))
    have evicted := crowded.restart_evicts (List.nodup_cons.mp lone).1 found restartAbsent
      (by rw [length_eq_of_vacant follows.vacant, size])
    have gone := @slotOf_fresh sha256 (newWithDbPersistence state.table) ⟨newcomer, nonce⟩
      (notMem_seen_of_absent restartAbsent _) first
    rw [if_neg other] at gone
    rw [table, answers_getLast, recordAndCheck_fresh]
    exact notMem_seen_of_absent (gone.trans (if_pos evicted)) _

end Crowd

section Samples

instance (state : PersistentCache) (call : NonceCall) : Decidable (CounterFits state call) :=
  inferInstanceAs (Decidable (_ < _))

instance (state : PersistentCache) (call : NonceCall) : Decidable (EvictsOldest state call) :=
  inferInstanceAs (Decidable
    (_ → _ ≥ _ → ∀ _ ∈ _, (∀ _ ∈ _, _ ≤ _) → ∀ _ ∈ _, _ → ∃ _ ∈ _, _ ∧ ∀ _ ∈ _, _ → _))

/-- The sample digest keeps the end of a short input. -/
def tailDigest (bytes : Bytes) : Digest :=
  digestOf (bytes.foldl (fun number byte => number * 256 + byte.toNat) 0)

def earlierNonce : NonceTable :=
  .single ⟨"ai:carol", (tailDigest [1]).1, 7⟩

/-- Two peers repeat their nonces around a restart. -/
theorem repeatedNonces_unnoticed :
    answers tailDigest (newWithDbPersistence (run (next tailDigest) (newWithDbPersistence earlierNonce)
        [⟨"ai:alice", "n1"⟩, ⟨"ai:bob", "n2"⟩, ⟨"ai:alice", "n1"⟩]).table)
        [⟨"ai:alice", "n1"⟩, ⟨"ai:bob", "n3"⟩, ⟨"ai:bob", "n2"⟩] =
      answers tailDigest (run (next tailDigest) (newWithDbPersistence earlierNonce)
        [⟨"ai:alice", "n1"⟩, ⟨"ai:bob", "n2"⟩, ⟨"ai:alice", "n1"⟩])
        [⟨"ai:alice", "n1"⟩, ⟨"ai:bob", "n3"⟩, ⟨"ai:bob", "n2"⟩] :=
  restart_unnoticed tailDigest earlierNonce ⟨by decide, by decide, by decide⟩ _ _
    (by decide +kernel) (by decide +kernel)

def crowdPeer (index : Nat) : String := String.ofList (List.replicate (index + 1) 'p')

theorem crowdPeer_injective : Function.Injective crowdPeer := by
  intro first second same
  have letters := congrArg (fun peerId => peerId.toList.length) same
  simpa [crowdPeer] using letters

/-- A full cache of peers that send one nonce each. -/
def crowd : List String := (List.range' 0 federationNonceMaxPeers).map crowdPeer

theorem length_crowd : crowd.length = federationNonceMaxPeers := by
  rw [crowd, List.length_map, List.length_range']

theorem nodup_crowd : crowd.Nodup := (List.nodup_range' ..).map crowdPeer_injective

theorem late_notMem_crowd : crowdPeer federationNonceMaxPeers ∉ crowd := by
  intro present
  obtain ⟨index, held, same⟩ := List.mem_map.mp present
  rw [crowdPeer_injective same, List.mem_range'_1] at held
  exact absurd held.2 (by decide)

def crowdedCalls : List NonceCall :=
  crowd.map (fun peerId => ⟨peerId, "n"⟩) ++ [⟨crowdPeer 0, "n"⟩]

def lateCalls : List NonceCall :=
  [⟨crowdPeer federationNonceMaxPeers, "n"⟩, ⟨crowdPeer 0, "n"⟩]

/-- A restart forgets that a replay protected its peer and the same nonce is fresh again. -/
theorem replayTouch_forgotten :
    answers tailDigest (newWithDbPersistence
        (run (next tailDigest) (newWithDbPersistence .empty) crowdedCalls).table) lateCalls ≠
      answers tailDigest (run (next tailDigest) (newWithDbPersistence .empty) crowdedCalls) lateCalls := by
  have start : Crowded tailDigest "n" [] (newWithDbPersistence .empty) :=
    ⟨newWithDbPersistence_mirrored ⟨by decide, by decide, by decide⟩, rfl, rfl, rfl⟩
  have lone := nodup_crowd
  have size := length_crowd
  have new := late_notMem_crowd
  have crowded : Crowded tailDigest "n" crowd (run (next tailDigest) (newWithDbPersistence .empty)
      (crowd.map fun peerId => ⟨peerId, "n"⟩)) := start.run lone (Nat.le_of_eq size)
  have shape : crowd = crowdPeer 0 :: crowdPeer 1 :: (List.range' 2 1022).map crowdPeer := rfl
  rw [shape] at lone new crowded size
  obtain ⟨refused, accepted⟩ := crowded.forgotten lone new size
  intro same
  rw [crowdedCalls, run_append, run_cons, run_nil, lateCalls, shape] at same
  rw [same, refused] at accepted
  cases accepted

end Samples
end AiMemory.Replay
