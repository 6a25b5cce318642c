import AiMemory.Replay.NonceHydration

/-
This file keeps the table of nonces in step with the cache in memory.
-/

namespace AiMemory.Replay
open AiMemory.Library AiMemory.Machine

/-- The slots carry touches below the counter that differ. -/
structure Stamped (slots : PeerSlots) (counter : Nat) : Prop where
  below : ∀ peerId, ∀ slot ∈ slotOf slots peerId, slot.lastTouch < counter
  apart : ∀ first second, ∀ slot ∈ slotOf slots first, ∀ other ∈ slotOf slots second,
    slot.lastTouch = other.lastTouch → first = second

/-- A touch with the counter stamps one slot and leaves or drops the others. -/
theorem Stamped.touch {slots later : PeerSlots} {counter : Nat} (stamped : Stamped slots counter)
    {peerId : String} (view : ∀ query, ∀ slot ∈ slotOf later query,
      query = peerId ∧ slot.lastTouch = counter ∨ slot ∈ slotOf slots query) :
    Stamped later (counter + 1) where
  below := by
    intro query slot found
    rcases view query slot found with ⟨_, same⟩ | kept
    · omega
    · exact Nat.lt_succ_of_lt (stamped.below query slot kept)
  apart := by
    intro first second slot found other reached same
    rcases view first slot found with ⟨rfl, stamp⟩ | kept <;>
      rcases view second other reached with ⟨rfl, otherStamp⟩ | otherKept
    · rfl
    · have below := stamped.below second other otherKept
      omega
    · have below := stamped.below first slot kept
      omega
    · exact stamped.apart first second slot kept other otherKept same

/-- The table holds the fingerprints of the cache under touches below its counter. -/
structure Mirrored (state : PersistentCache) : Prop where
  started : 0 < state.cache.touchCounter
  bounded : state.cache.touchCounter ≤ 2 ^ 63
  distinct : (state.table.rows.map NonceRow.lastTouch).Nodup
  counted : ∀ row ∈ state.table.rows, 0 ≤ row.lastTouch ∧ row.lastTouch < state.cache.touchCounter
  stamped : Stamped state.cache.inner state.cache.touchCounter
  reflects : ∀ peerId, Reflects (slotOf state.cache.inner peerId) (persisted state.table peerId)

/-- A cache that is built over a table of its own rows mirrors it. -/
theorem newWithDbPersistence_mirrored {table : NonceTable} (wellFormed : WellFormed table) :
    Mirrored (newWithDbPersistence table) := by
  obtain ⟨started, above, least⟩ := hydrateFromDisk_counter wellFormed
  have subset : ∀ row ∈ (newWithDbPersistence table).table.rows, row ∈ table.rows :=
    fun row present => List.mem_of_mem_filter present
  have slot (peerId : String) := hydrateFromDisk_slot wellFormed peerId
  exact {
    started := started
    bounded := least (2 ^ 63) (by decide) fun row present => (wellFormed.inRange row present).2
    distinct := wellFormed.distinct.sublist (List.filter_sublist.map _)
    counted := fun row present =>
      ⟨(wellFormed.inRange row (subset row present)).1, above row (subset row present)⟩
    stamped := {
      below := fun peerId held found => by
        obtain ⟨row, present, _, same⟩ := ((slot peerId).2 held found).reached
        exact Int.ofNat_lt.mp (same ▸ above row present)
      apart := fun first second held found other reached same =>
        ((slot first).2 held found).same_peer wellFormed.distinct (same ▸ (slot second).2 other reached) }
    reflects := fun peerId => by
      rw [show persisted (newWithDbPersistence table).table peerId = _ from
        persisted_prune wellFormed.distinct peerId]
      exact (slot peerId).1 }

section Eviction

variable {cache : FederationNonceCache} {peerId : String}

/-- A cache below the ceiling or with the peer stays and a full one loses a slot of least touch. -/
theorem evictPeer_cases :
    (¬ (slotOf cache.inner peerId = none ∧ cache.inner.rows.length ≥ federationNonceMaxPeers) ∧
      evictPeer cache peerId = (cache, none)) ∨
    ∃ victim, (slotOf cache.inner peerId = none ∧ cache.inner.rows.length ≥ federationNonceMaxPeers) ∧
      (∃ slot ∈ slotOf cache.inner victim, ∀ query, ∀ other ∈ slotOf cache.inner query,
        slot.lastTouch ≤ other.lastTouch) ∧
      evictPeer cache peerId = ({ cache with
        inner := cache.inner.delete fun entry => entry.1 = victim
        peerEvictions := (cache.peerEvictions + 1) % 2 ^ 64 }, some victim) := by
  by_cases full : slotOf cache.inner peerId = none ∧ cache.inner.rows.length ≥ federationNonceMaxPeers
  · refine .inr ?_
    have nonempty : cache.inner.rows ≠ [] := by
      intro vacant
      have size := full.2
      rw [vacant] at size
      exact absurd size (by decide)
    have some : (cache.inner.rows.minOn? fun entry => entry.2.lastTouch).isSome :=
      List.isSome_minOn?_iff.mpr nonempty
    obtain ⟨⟨victim, slot⟩, least⟩ := Option.isSome_iff_exists.mp some
    refine ⟨victim, full, ⟨slot, slotOf_eq_some_iff.mpr (List.minOn?_mem least), ?_⟩, ?_⟩
    · intro query other found
      have bound := @List.apply_get_minOn?_le_of_mem _ _ _ _ _ (fun entry => entry.2.lastTouch) _ _
        (slotOf_eq_some_iff.mp found)
      simpa only [least, Option.get_some] using bound
    · rw [evictPeer, if_pos full, least]
  · exact .inl ⟨full, by rw [evictPeer, if_neg full]⟩

/-- The evicted peer had the smallest touch of a full cache without the new peer. -/
theorem evictPeer_eq_some {victim : String} (evicts : (evictPeer cache peerId).2 = some victim) :
    (slotOf cache.inner peerId = none ∧ cache.inner.rows.length ≥ federationNonceMaxPeers) ∧
      ∃ slot ∈ slotOf cache.inner victim, ∀ query, ∀ other ∈ slotOf cache.inner query,
        slot.lastTouch ≤ other.lastTouch := by
  rcases evictPeer_cases with ⟨_, stays⟩ | ⟨chosen, full, least, leaves⟩
  · rw [stays] at evicts
    cases evicts
  · rw [leaves] at evicts
    exact ⟨full, Option.some.inj evicts ▸ least⟩

variable (cache peerId)

@[simp] theorem evictPeer_counter : (evictPeer cache peerId).1.touchCounter = cache.touchCounter := by
  rcases evictPeer_cases with ⟨_, stays⟩ | ⟨chosen, _, _, leaves⟩
  · rw [stays]
  · rw [leaves]

/-- The slot of a peer is gone exactly when it was evicted. -/
theorem slotOf_evictPeer (query : String) :
    slotOf (evictPeer cache peerId).1.inner query =
      if (evictPeer cache peerId).2 = some query then none else slotOf cache.inner query := by
  rcases evictPeer_cases with ⟨_, stays⟩ | ⟨chosen, _, _, leaves⟩
  · rw [stays, if_neg (Option.some_ne_none query).symm]
  · rw [leaves, slotOf_delete]
    exact if_congr (by rw [Option.some.injEq, eq_comm]) rfl rfl

variable {cache peerId}

/-- The peer that calls is not evicted. -/
theorem evictPeer_keeps : (evictPeer cache peerId).2 ≠ some peerId := by
  intro evicts
  obtain ⟨⟨absent, _⟩, slot, found, _⟩ := evictPeer_eq_some evicts
  rw [absent] at found
  cases found

end Eviction

section Persistence

variable {table : NonceTable} {peerId : String} {fp : Digest} {touch : Nat}
  {evictedFp : Option Digest} {evictedPeer : Option String}

theorem touchColumn_eq (fits : touch < 2 ^ 63) : touchColumn touch = touch := by
  unfold touchColumn
  rw [Int.bmod_eq_of_le] <;> omega

/-- The deletes of a persisted call spare a row. -/
def Survives (peerId : String) (evictedFp : Option Digest) (evictedPeer : Option String)
    (row : NonceRow) : Bool :=
  evictedPeer ≠ some row.peerId ∧
    (row.peerId = peerId → evictedFp.map Subtype.val ≠ some row.fingerprint)

/-- The row that a fresh call inserts. -/
def freshRow (peerId : String) (fp : Digest) (touch : Nat) : NonceRow := ⟨peerId, fp.1, touch⟩

/-- A persisted fingerprint is appended, and the evicted ones are deleted. -/
theorem persistFingerprintAndEvict_rows (fits : touch < 2 ^ 63)
    (absent : table.lookup (peerId, fp.1) = none) :
    (persistFingerprintAndEvict table peerId fp touch evictedFp evictedPeer).rows =
      (table.rows ++ [freshRow peerId fp touch]).filter (Survives peerId evictedFp evictedPeer) := by
  have inserted : (table.upsert (freshRow peerId fp touch)).rows = table.rows ++ [freshRow peerId fp touch] :=
    Table.upsert_rows_of_absent absent
  rw [← inserted, freshRow]
  unfold persistFingerprintAndEvict Survives
  rw [touchColumn_eq fits]
  cases evictedFp <;> cases evictedPeer <;>
    simp [Table.delete, List.filter_filter, eq_comm]

/-- A later touch keeps the touches apart. -/
theorem distinct_append (distinct : (table.rows.map NonceRow.lastTouch).Nodup)
    (above : ∀ row ∈ table.rows, row.lastTouch < touch) :
    ((table.rows ++ [freshRow peerId fp touch]).map NonceRow.lastTouch).Nodup := by
  rw [List.map_append]
  refine List.nodup_append.mpr ⟨distinct, List.nodup_singleton _, ?_⟩
  intro stamp present other only
  obtain ⟨row, held, rfl⟩ := List.mem_map.mp present
  rw [List.mem_singleton.mp only]
  exact Int.ne_of_lt (above row held)

/-- The peer gains a row and the deletes drop the evicted ones. -/
theorem persisted_persist (fits : touch < 2 ^ 63) (absent : table.lookup (peerId, fp.1) = none)
    (distinct : (table.rows.map NonceRow.lastTouch).Nodup)
    (above : ∀ row ∈ table.rows, row.lastTouch < touch)
    (spared : Survives peerId evictedFp evictedPeer (freshRow peerId fp touch)) (query : String) :
    persisted (persistFingerprintAndEvict table peerId fp touch evictedFp evictedPeer) query =
      (persisted table query).filter (Survives peerId evictedFp evictedPeer) ++
        if query = peerId then [freshRow peerId fp touch] else [] := by
  have last : sortOn NonceRow.lastTouch (table.rows ++ [freshRow peerId fp touch]) =
      sortOn NonceRow.lastTouch table.rows ++ [freshRow peerId fp touch] := sortOn_append_last distinct above
  rw [persisted, persistFingerprintAndEvict_rows fits absent, sortOn_filter (distinct_append distinct above),
    last, List.filter_comm, List.filter_append, List.filter_append]
  apply congrArg (List.filter _ (persisted table query) ++ ·)
  have peer : (freshRow peerId fp touch).peerId = peerId := rfl
  by_cases own : query = peerId
  · simp [own, peer, spared]
  · simp [own, peer, Ne.symm own]

end Persistence

section Step

variable (sha256 : Bytes → Digest) {state : PersistentCache} {call : NonceCall}

/-- The slot that a call reads has its touch already. -/
def touchedSlot (cache : FederationNonceCache) (peerId : String) : PeerNonceSlot :=
  { (slotOf cache.inner peerId).getD .empty with lastTouch := cache.touchCounter }

theorem slotOf_evictPeer_self (cache : FederationNonceCache) (peerId : String) :
    slotOf (evictPeer cache peerId).1.inner peerId = slotOf cache.inner peerId := by
  rw [slotOf_evictPeer, if_neg evictPeer_keeps]

/-- A peer with a known fingerprint has a slot, so its call evicts nobody. -/
theorem evictPeer_of_known {cache : FederationNonceCache} {peerId : String} {fp : Digest}
    (known : fp ∈ (touchedSlot cache peerId).seen) : evictPeer cache peerId = (cache, none) := by
  rcases evictPeer_cases with ⟨_, stays⟩ | ⟨_, ⟨absent, _⟩, _, _⟩
  · exact stays
  · simp [touchedSlot, absent, PeerNonceSlot.empty] at known

/-- A known fingerprint moves the touch of its slot and nothing else. -/
theorem recordAndCheck_replay
    (known : fingerprint sha256 call.peerId call.nonce ∈ (touchedSlot state.cache call.peerId).seen) :
    recordAndCheck sha256 state call = (.replay, { state with
      cache := { state.cache with
        inner := state.cache.inner.upsert (call.peerId, touchedSlot state.cache call.peerId)
        touchCounter := (state.cache.touchCounter + 1) % 2 ^ 64 } }) := by
  unfold recordAndCheck
  simp only [evictPeer_of_known known]
  exact if_pos known

/-- A new fingerprint enters its slot and the table follows the evictions. -/
theorem recordAndCheck_fresh
    (new : fingerprint sha256 call.peerId call.nonce ∉ (touchedSlot state.cache call.peerId).seen) :
    recordAndCheck sha256 state call = (.fresh, {
      cache := { (evictPeer state.cache call.peerId).1 with
        inner := (evictPeer state.cache call.peerId).1.inner.upsert (call.peerId,
          (touchedSlot state.cache call.peerId).popFront.1.pushBack
            (fingerprint sha256 call.peerId call.nonce))
        touchCounter := (state.cache.touchCounter + 1) % 2 ^ 64 }
      table := persistFingerprintAndEvict state.table call.peerId
        (fingerprint sha256 call.peerId call.nonce) state.cache.touchCounter
        (touchedSlot state.cache call.peerId).popFront.2 (evictPeer state.cache call.peerId).2 }) := by
  unfold recordAndCheck
  simp only [slotOf_evictPeer_self, evictPeer_counter]
  exact if_neg new

/-- A replay only touches the slot of its peer. -/
theorem slotOf_replay
    (known : fingerprint sha256 call.peerId call.nonce ∈ (touchedSlot state.cache call.peerId).seen)
    (query : String) :
    slotOf (next sha256 state call).cache.inner query =
      if query = call.peerId then some (touchedSlot state.cache call.peerId)
      else slotOf state.cache.inner query := by
  rw [next, recordAndCheck_replay sha256 known, slotOf_upsert]

/-- A fresh nonce is pushed into the slot of its peer. -/
theorem slotOf_fresh
    (new : fingerprint sha256 call.peerId call.nonce ∉ (touchedSlot state.cache call.peerId).seen)
    (query : String) :
    slotOf (next sha256 state call).cache.inner query =
      if query = call.peerId then some ((touchedSlot state.cache call.peerId).popFront.1.pushBack
        (fingerprint sha256 call.peerId call.nonce))
      else if (evictPeer state.cache call.peerId).2 = some query then none
      else slotOf state.cache.inner query := by
  rw [next, recordAndCheck_fresh sha256 new, slotOf_upsert, slotOf_evictPeer]

/-- Every call advances the counter by one. -/
theorem next_counter :
    (next sha256 state call).cache.touchCounter = (state.cache.touchCounter + 1) % 2 ^ 64 := by
  by_cases known : fingerprint sha256 call.peerId call.nonce ∈ (touchedSlot state.cache call.peerId).seen
  · rw [next, recordAndCheck_replay sha256 known]
  · rw [next, recordAndCheck_fresh sha256 known]

theorem popFront_lastTouch (slot : PeerNonceSlot) : slot.popFront.1.lastTouch = slot.lastTouch := by
  unfold PeerNonceSlot.popFront
  split_ifs
  · split <;> rfl
  · rfl

theorem pushed_lastTouch (cache : FederationNonceCache) (peerId : String) (fp : Digest) :
    ((touchedSlot cache peerId).popFront.1.pushBack fp).lastTouch = cache.touchCounter :=
  popFront_lastTouch _

/-- Each slot of the next state has the new touch or was there before. -/
theorem slotOf_next {query : String} {slot : PeerNonceSlot}
    (found : slot ∈ slotOf (next sha256 state call).cache.inner query) :
    query = call.peerId ∧ slot.lastTouch = state.cache.touchCounter ∨
      slot ∈ slotOf state.cache.inner query := by
  by_cases known : fingerprint sha256 call.peerId call.nonce ∈ (touchedSlot state.cache call.peerId).seen
  · rw [slotOf_replay sha256 known] at found
    split_ifs at found with own
    · cases found
      exact .inl ⟨own, rfl⟩
    · exact .inr found
  · rw [slotOf_fresh sha256 known] at found
    split_ifs at found with own evicted
    · cases found
      exact .inl ⟨own, pushed_lastTouch _ _ _⟩
    · cases found
    · exact .inr found

end Step

namespace Mirrored

variable {sha256 : Bytes → Digest} {state : PersistentCache} {call : NonceCall}

/-- The rows of a mirrored state are rows that a restart can load. -/
theorem wellFormed (mirrored : Mirrored state) : WellFormed state.table where
  sized := fun row present => by
    have stored : row.fingerprint ∈ (persisted state.table row.peerId).map NonceRow.fingerprint :=
      List.mem_map_of_mem (mem_persisted_iff.mpr ⟨present, rfl⟩)
    rw [← (mirrored.reflects row.peerId).holds.order] at stored
    obtain ⟨fp, _, bytes⟩ := List.mem_map.mp stored
    exact bytes ▸ fp.2
  inRange := fun row present => by
    have bounds := mirrored.counted row present
    have bounded := mirrored.bounded
    omega
  distinct := mirrored.distinct

/-- The touched slot holds the persisted rows of its peer. -/
theorem touchedSlot_holds (mirrored : Mirrored state) (peerId : String) :
    (touchedSlot state.cache peerId).Holds (persisted state.table peerId) :=
  (mirrored.reflects peerId).holds.touch _

/-- A fingerprint that the slot lacks has no row. -/
theorem absent_of_new (mirrored : Mirrored state) {peerId : String} {fp : Digest}
    (new : fp ∉ (touchedSlot state.cache peerId).seen) : state.table.lookup (peerId, fp.1) = none := by
  refine Option.eq_none_iff_forall_ne_some.mpr fun row found => new ?_
  obtain ⟨present, same⟩ := Table.lookup_eq_some_iff.mp found
  obtain ⟨own, bytes⟩ := Prod.mk.inj same
  rw [(mirrored.touchedSlot_holds peerId).mem_seen_iff, ← bytes]
  exact List.mem_map_of_mem (mem_persisted_iff.mpr ⟨present, own⟩)

/-- The deletes of a fresh call spare the row that it inserts. -/
theorem spares_fresh (mirrored : Mirrored state) {peerId : String} {fp : Digest} {touch : Nat}
    (new : fp ∉ (touchedSlot state.cache peerId).seen) :
    Survives peerId (touchedSlot state.cache peerId).popFront.2 (evictPeer state.cache peerId).2
      (freshRow peerId fp touch) := by
  refine decide_eq_true ⟨evictPeer_keeps, fun _ same => new ?_⟩
  obtain ⟨evicted, pops, bytes⟩ := Option.map_eq_some_iff.mp same
  rw [(mirrored.touchedSlot_holds peerId).seen, List.mem_toFinset, ← Subtype.ext bytes]
  exact PeerNonceSlot.Holds.mem_order_of_popFront pops

/-- The rows of a fresh call are those that the slots keep. -/
theorem persisted_next (mirrored : Mirrored state) (counted : state.cache.touchCounter < 2 ^ 63)
    (new : fingerprint sha256 call.peerId call.nonce ∉ (touchedSlot state.cache call.peerId).seen)
    (query : String) :
    persisted (next sha256 state call).table query =
      if query = call.peerId then trimmed (persisted state.table query) ++
        [freshRow call.peerId (fingerprint sha256 call.peerId call.nonce) state.cache.touchCounter]
      else if (evictPeer state.cache call.peerId).2 = some query then []
      else persisted state.table query := by
  have own : ∀ row ∈ persisted state.table query, row.peerId = query :=
    fun row present => (mem_persisted_iff.mp present).2
  rw [next, recordAndCheck_fresh sha256 new, persisted_persist counted (mirrored.absent_of_new new)
    mirrored.distinct (fun row present => (mirrored.counted row present).2) (mirrored.spares_fresh new)]
  split_ifs with same evicted
  · subst same
    obtain ⟨_, _, kept⟩ := (mirrored.touchedSlot_holds call.peerId).popFront (nodup_fingerprints _ _)
    rw [← kept]
    refine congrArg (· ++ _) (List.filter_congr fun row present => ?_)
    simp [Survives, own row present, evictPeer_keeps]
  · rw [List.append_nil]
    exact List.filter_eq_nil_iff.mpr fun row present => by simp [Survives, own row present, evicted]
  · rw [List.append_nil]
    exact List.filter_eq_self.mpr fun row present => by simp [Survives, own row present, evicted, same]

/-- A call on a mirrored state keeps each slot in step with the rows of its peer. -/
theorem reflects_next (mirrored : Mirrored state) (counted : state.cache.touchCounter < 2 ^ 63)
    (query : String) :
    Reflects (slotOf (next sha256 state call).cache.inner query)
      (persisted (next sha256 state call).table query) := by
  by_cases known : fingerprint sha256 call.peerId call.nonce ∈ (touchedSlot state.cache call.peerId).seen
  · have table : (next sha256 state call).table = state.table := by
      rw [next, recordAndCheck_replay sha256 known]
    rw [slotOf_replay sha256 known, table]
    split_ifs with own
    · subst own
      have stored := ((mirrored.touchedSlot_holds _).mem_seen_iff _).mp known
      obtain ⟨row, present, _⟩ := List.mem_map.mp stored
      exact ⟨iff_of_false (Option.some_ne_none _) (List.ne_nil_of_mem present), mirrored.touchedSlot_holds _⟩
    · exact mirrored.reflects query
  · rw [slotOf_fresh sha256 known, mirrored.persisted_next counted known]
    split_ifs with own evicted
    · subst own
      obtain ⟨popped, room, _⟩ := (mirrored.touchedSlot_holds call.peerId).popFront (nodup_fingerprints _ _)
      exact ⟨iff_of_false (Option.some_ne_none _) (by simp), popped.pushBack room rfl⟩
    · exact ⟨iff_of_true rfl rfl, .nil⟩
    · exact mirrored.reflects query

/-- The rows of the next state are old rows and the row of a fresh call. -/
theorem mem_rows_next (mirrored : Mirrored state) (counted : state.cache.touchCounter < 2 ^ 63)
    {row : NonceRow} (present : row ∈ (next sha256 state call).table.rows) :
    row ∈ state.table.rows ∨ row = freshRow call.peerId (fingerprint sha256 call.peerId call.nonce)
      state.cache.touchCounter := by
  by_cases known : fingerprint sha256 call.peerId call.nonce ∈ (touchedSlot state.cache call.peerId).seen
  · rw [next, recordAndCheck_replay sha256 known] at present
    exact .inl present
  · rw [next, recordAndCheck_fresh sha256 known, persistFingerprintAndEvict_rows counted
      (mirrored.absent_of_new known)] at present
    exact (List.mem_append.mp (List.mem_of_mem_filter present)).imp id List.mem_singleton.mp

/-- A call keeps the touches apart. -/
theorem distinct_next (mirrored : Mirrored state) (counted : state.cache.touchCounter < 2 ^ 63) :
    ((next sha256 state call).table.rows.map NonceRow.lastTouch).Nodup := by
  by_cases known : fingerprint sha256 call.peerId call.nonce ∈ (touchedSlot state.cache call.peerId).seen
  · rw [next, recordAndCheck_replay sha256 known]
    exact mirrored.distinct
  · rw [next, recordAndCheck_fresh sha256 known, persistFingerprintAndEvict_rows counted
      (mirrored.absent_of_new known)]
    exact (distinct_append mirrored.distinct fun row present => (mirrored.counted row present).2).sublist
      (List.filter_sublist.map _)

/-- A call keeps the table a mirror of the cache. -/
theorem next (mirrored : Mirrored state) (counted : state.cache.touchCounter < 2 ^ 63) :
    Mirrored (next sha256 state call) := by
  have counter : (Replay.next sha256 state call).cache.touchCounter = state.cache.touchCounter + 1 := by
    rw [next_counter, Nat.mod_eq_of_lt (by omega)]
  exact {
    started := counter ▸ Nat.succ_pos _
    bounded := counter ▸ counted
    distinct := mirrored.distinct_next counted
    counted := fun row present => by
      rw [counter]
      rcases mirrored.mem_rows_next counted present with old | rfl
      · have bounds := mirrored.counted row old
        omega
      · simp only [freshRow]
        omega
    stamped := counter ▸ mirrored.stamped.touch fun query slot found => slotOf_next sha256 found
    reflects := mirrored.reflects_next counted }

end Mirrored
end AiMemory.Replay
