import AiMemory.Replay.NonceWindow
import Mathlib.Data.Finset.Card
import Mathlib.Data.Finset.Lattice.Lemmas

/-
This file proves when the peer that a full cache evicts is the least recently touched one.
-/

namespace AiMemory.Replay
open AiMemory.Library AiMemory.Machine

/-- The peer made this call of the run and no later one. -/
structure LastCall (calls : List NonceCall) (peerId : String) (index : Nat) : Prop where
  made : calls[index]?.map NonceCall.peerId = some peerId
  last : ∀ later ∈ calls.drop (index + 1), later.peerId ≠ peerId

namespace LastCall

variable {calls : List NonceCall} {call : NonceCall} {peerId : String} {index : Nat}

/-- A peer that called later is among the later callers. -/
theorem mem_drop {other : String} {later : Nat} (lastCall : LastCall calls other later) (after : index < later) :
    other ∈ (calls.drop (index + 1)).map NonceCall.peerId := by
  obtain ⟨call, made, own⟩ := Option.map_eq_some_iff.mp lastCall.made
  rw [← own]
  apply List.mem_map_of_mem
  rw [List.mem_iff_getElem?]
  refine ⟨later - (index + 1), ?_⟩
  rw [List.getElem?_drop, Nat.add_sub_cancel' after, made]

/-- A peer has one last call. -/
theorem not_lt {later : Nat} (lastCall : LastCall calls peerId index) (other : LastCall calls peerId later) :
    ¬ index < later := by
  intro after
  obtain ⟨call, present, own⟩ := List.mem_map.mp (other.mem_drop after)
  exact lastCall.last call present own

/-- A peer has one last call. -/
theorem unique {later : Nat} (lastCall : LastCall calls peerId index) (other : LastCall calls peerId later) :
    index = later :=
  le_antisymm (Nat.not_lt.mp (other.not_lt lastCall)) (Nat.not_lt.mp (lastCall.not_lt other))

theorem lt_length (lastCall : LastCall calls peerId index) : index < calls.length := by
  obtain ⟨call, made, _⟩ := Option.map_eq_some_iff.mp lastCall.made
  exact (List.getElem?_eq_some_iff.mp made).1

theorem concat_self (calls : List NonceCall) (call : NonceCall) :
    LastCall (calls ++ [call]) call.peerId calls.length where
  made := by rw [List.getElem?_concat_length, Option.map_some]
  last := by
    rw [List.drop_of_length_le (by rw [List.length_append, List.length_singleton])]
    exact List.forall_mem_nil _

theorem concat (lastCall : LastCall calls peerId index) (other : call.peerId ≠ peerId) :
    LastCall (calls ++ [call]) peerId index where
  made := by rw [List.getElem?_append_left lastCall.lt_length, lastCall.made]
  last := by
    rw [List.drop_append_of_le_length lastCall.lt_length]
    intro later present
    rcases List.mem_append.mp present with earlier | latest
    · exact lastCall.last later earlier
    · rwa [List.mem_singleton.mp latest]

end LastCall

section Touches
variable (sha256 : Bytes → Digest)

/-- The counter numbers the calls and each slot has the number of its last call, both in 64 bits. -/
structure Numbered (calls : List NonceCall) (cache : FederationNonceCache) : Prop where
  counter : cache.touchCounter = calls.length % 2 ^ 64
  touches : ∀ peerId, ∀ slot ∈ slotOf cache.inner peerId, ∃ index,
    LastCall calls peerId index ∧ slot.lastTouch = index % 2 ^ 64

/-- The settled slot carries the counter of its call. -/
theorem settledSlot_lastTouch (cache : FederationNonceCache) (call : NonceCall) :
    (settledSlot sha256 cache call).lastTouch = cache.touchCounter := by
  rw [settledSlot]
  split_ifs
  · rfl
  · exact pushed_lastTouch _ _ _

/-- The slots of a run carry the numbers of the last calls. -/
theorem numbered_cacheAfter (calls : List NonceCall) : Numbered calls (cacheAfter sha256 calls) := by
  induction calls using List.reverseRecOn with
  | nil => exact ⟨rfl, fun peerId slot found => nomatch found⟩
  | append_singleton calls call ih =>
      rw [cacheAfter_concat]
      constructor
      · rw [nextInMemory_counter, ih.counter, List.length_append, List.length_singleton, Nat.mod_add_mod]
      · intro peerId slot found
        rw [slotOf_nextInMemory] at found
        split_ifs at found with own evicted
        · cases found
          subst own
          exact ⟨calls.length, .concat_self calls call, (settledSlot_lastTouch ..).trans ih.counter⟩
        · cases found
        · obtain ⟨index, lastCall, touch⟩ := ih.touches peerId slot found
          exact ⟨index, lastCall.concat (Ne.symm own), touch⟩

/-- The counter did not wrap between the last calls of the peers with a slot. -/
def OneTurn (calls : List NonceCall) (cache : FederationNonceCache) : Prop :=
  ∃ turn, ∀ peerId index, slotOf cache.inner peerId ≠ none → LastCall calls peerId index → index / 2 ^ 64 = turn

/-- As many other peers as the cache holds were touched since the last call of the victim. -/
def Overtaken (calls : List NonceCall) (call : NonceCall) (victim : String) : Prop :=
  ∃ index, LastCall calls victim index ∧ federationNonceMaxPeers ≤
    (((calls.drop (index + 1) ++ [call]).map NonceCall.peerId).toFinset.erase victim).card

theorem slotOf_ne_none_iff {slots : PeerSlots} {peerId : String} :
    slotOf slots peerId ≠ none ↔ peerId ∈ slots.rows.map Prod.fst := by
  rw [← Table.lookup_isSome_iff, ← Option.ne_none_iff_isSome, slotOf, ne_eq, Option.map_eq_none_iff]

/-- The cache has as many rows as peers with a slot. -/
theorem length_rows {slots : PeerSlots} {peers : Finset String}
    (holds : ∀ peerId, slotOf slots peerId ≠ none ↔ peerId ∈ peers) : slots.rows.length = peers.card := by
  have keys : (slots.rows.map Prod.fst).toFinset = peers := by
    ext peerId
    rw [List.mem_toFinset, ← slotOf_ne_none_iff, holds]
  rw [← keys, List.toFinset_card_of_nodup slots.unique, List.length_map]

variable {sha256} {calls : List NonceCall} {call : NonceCall} {victim : String}

/-- The peer that a call evicts was touched before all others, unless the counter wrapped between their calls. -/
theorem overtaken_of_evicted (oneTurn : OneTurn calls (cacheAfter sha256 calls))
    (evicts : (evictPeer (cacheAfter sha256 calls) call.peerId).2 = some victim) : Overtaken calls call victim := by
  obtain ⟨⟨absent, full⟩, slot, found, least⟩ := evictPeer_eq_some evicts
  have numbered := numbered_cacheAfter sha256 calls
  obtain ⟨index, lastCall, touch⟩ := numbered.touches victim slot found
  obtain ⟨turn, sameTurn⟩ := oneTurn
  have victimTurn := sameTurn victim index (Option.ne_none_iff_exists'.mpr ⟨slot, found⟩) lastCall
  let holders := ((cacheAfter sha256 calls).inner.rows.map Prod.fst).toFinset
  have holds (peerId : String) : slotOf (cacheAfter sha256 calls).inner peerId ≠ none ↔ peerId ∈ holders := by
    rw [List.mem_toFinset, slotOf_ne_none_iff]
  have held : victim ∈ holders := (holds victim).mp (Option.ne_none_iff_exists'.mpr ⟨slot, found⟩)
  have new : call.peerId ∉ holders := fun present => (holds call.peerId).mpr present absent
  have newer : insert call.peerId (holders.erase victim) ⊆
      ((calls.drop (index + 1) ++ [call]).map NonceCall.peerId).toFinset.erase victim := by
    intro peerId present
    rw [Finset.mem_erase, List.mem_toFinset, List.map_append, List.mem_append]
    rcases Finset.mem_insert.mp present with rfl | other
    · exact ⟨fun same => new (same ▸ held), .inr List.mem_cons_self⟩
    · obtain ⟨apart, kept⟩ := Finset.mem_erase.mp other
      obtain ⟨otherSlot, otherFound⟩ := Option.ne_none_iff_exists'.mp ((holds peerId).mpr kept)
      obtain ⟨later, otherCall, otherTouch⟩ := numbered.touches peerId otherSlot otherFound
      have otherTurn := sameTurn peerId later ((holds peerId).mpr kept) otherCall
      have bound := least peerId otherSlot otherFound
      have distinct : index ≠ later := by
        rintro rfl
        exact apart (Option.some.inj (otherCall.made.symm.trans lastCall.made))
      exact ⟨apart, .inl (otherCall.mem_drop (by omega))⟩
  have grown : (insert call.peerId (holders.erase victim)).card = holders.card := by
    rw [Finset.card_insert_of_notMem fun kept => new (Finset.mem_of_mem_erase kept), Finset.card_erase_add_one held]
  rw [length_rows holds, ← grown] at full
  exact ⟨index, lastCall, full.trans (Finset.card_le_card newer)⟩

/-- The peers with a slot are those that called, as long as the cache has room for all of them. -/
theorem holders_of_few (sha256 : Bytes → Digest)
    (few : (calls.map NonceCall.peerId).toFinset.card ≤ federationNonceMaxPeers) (peerId : String) :
    slotOf (cacheAfter sha256 calls).inner peerId ≠ none ↔ peerId ∈ calls.map NonceCall.peerId := by
  induction calls using List.reverseRecOn generalizing peerId with
  | nil => exact iff_of_false (not_not.mpr rfl) List.not_mem_nil
  | append_singleton calls call ih =>
      rw [List.map_append, List.toFinset_append] at few
      have holds := ih ((Finset.card_le_card Finset.subset_union_left).trans few)
      have stays (victim : String) : (evictPeer (cacheAfter sha256 calls) call.peerId).2 ≠ some victim := by
        intro evicts
        obtain ⟨⟨absent, full⟩, _⟩ := evictPeer_eq_some evicts
        have inPeers (query : String) : slotOf (cacheAfter sha256 calls).inner query ≠ none ↔
            query ∈ (calls.map NonceCall.peerId).toFinset := by rw [holds, List.mem_toFinset]
        have new : call.peerId ∉ (calls.map NonceCall.peerId).toFinset :=
          fun present => (inPeers call.peerId).mpr present absent
        rw [length_rows inPeers] at full
        rw [List.map_singleton, List.toFinset_cons, List.toFinset_nil, Finset.union_insert, Finset.union_empty,
          Finset.card_insert_of_notMem new] at few
        omega
      rw [cacheAfter_concat, slotOf_nextInMemory, List.map_append, List.mem_append, List.map_singleton,
        List.mem_singleton]
      split_ifs with own evicted
      · exact iff_of_true (Option.some_ne_none _) (.inr own)
      · exact absurd evicted (stays peerId)
      · rw [holds, or_iff_left own]

end Touches

/-- The replay answers of a run are a sliding window; while the counter stays in one turn, only overtaken peers
are evicted; and the set and the queue of each slot agree. -/
theorem slidingWindow (sha256 : Bytes → Digest) (calls : List NonceCall) (call : NonceCall)
    (collisionFree : CollisionFree sha256 ((calls ++ [call]).map NonceCall.preimage)) :
    ((recordInMemory sha256 (cacheAfter sha256 calls) call).1 = .replay ↔
        StillHeld (history sha256 calls) call) ∧
      (∀ victim, (evictPeer (cacheAfter sha256 calls) call.peerId).2 = some victim →
        OneTurn calls (cacheAfter sha256 calls) → Overtaken calls call victim) ∧
      ∀ peerId, ∀ slot ∈ slotOf (cacheAfter sha256 calls).inner peerId, slot.Lockstep := by
  refine ⟨replay_iff_stillHeld collisionFree, fun victim evicts oneTurn => overtaken_of_evicted oneTurn evicts, ?_⟩
  intro peerId slot found
  have lockstep := (windowed_cacheAfter sha256 calls peerId).lockstep
  rwa [Option.mem_def.mp found, Option.getD_some] at lockstep

section Samples

/-- The digests of the sample preimages. -/
def sampleNonceSha : Bytes → Digest :=
  digestOfTable
    [(NonceCall.preimage ⟨"ai:alice", "n1"⟩, 0x09db18fd8c0efeb5a3df50f91d1a21ac383d8da6774c4575481073f03a7b49a7),
      (NonceCall.preimage ⟨"ai:bob", "n1"⟩, 0xcccc945302a2fb692ca770855ec8b81ade8437ca6ad860a0b8db552d62fd65ca),
      (NonceCall.preimage ⟨"ai:alice", "n2"⟩, 0xd8f5bcaec5a3db8e81877bbfe1f6e159d933507af877af7f1b9fc41b1f4e068b)]

/-- A nonce of two calls ago is refused. -/
theorem sampleNonce_refused :
    (recordInMemory sampleNonceSha (cacheAfter sampleNonceSha
      [⟨"ai:alice", "n1"⟩, ⟨"ai:bob", "n1"⟩, ⟨"ai:alice", "n2"⟩]) ⟨"ai:alice", "n1"⟩).1 = .replay := by
  apply (slidingWindow sampleNonceSha _ _ (by decide +kernel)).1.mpr
  refine ⟨[], _, _, rfl, rfl, ?_, ?_, ?_⟩
  · decide +kernel
  · decide +kernel
  · decide +kernel

/-- A crowd fills the cache and its first peer repeats its nonce. -/
def repeatedCalls (repeats : Nat) : List NonceCall :=
  crowd.map (fun peerId => ⟨peerId, "n"⟩) ++ List.replicate repeats ⟨crowdPeer 0, "n"⟩

def lateCall : NonceCall := ⟨crowdPeer federationNonceMaxPeers, "n"⟩

/-- The peers of the calls are the crowd and the repeats. -/
theorem repeatedCalls_peers (repeats : Nat) :
    (repeatedCalls repeats).map NonceCall.peerId = crowd ++ List.replicate repeats (crowdPeer 0) := by
  rw [repeatedCalls, List.map_append, List.map_map, List.map_replicate]
  exact congrArg (· ++ _) (List.map_id _)

theorem repeatedCalls_succ (repeats : Nat) :
    repeatedCalls (repeats + 1) = repeatedCalls repeats ++ [⟨crowdPeer 0, "n"⟩] := by
  rw [repeatedCalls, List.replicate_succ', ← List.append_assoc, repeatedCalls]

theorem length_repeatedCalls (repeats : Nat) : (repeatedCalls repeats).length = federationNonceMaxPeers + repeats := by
  rw [repeatedCalls, List.length_append, List.length_map, length_crowd, List.length_replicate]

variable {repeats index : Nat}

/-- The last repeat is the last call of the first peer. -/
theorem lastCall_first (lastCall : LastCall (repeatedCalls (repeats + 1)) (crowdPeer 0) index) :
    index = federationNonceMaxPeers + repeats := by
  rw [repeatedCalls_succ] at lastCall
  rw [← length_repeatedCalls]
  exact lastCall.unique (.concat_self (repeatedCalls repeats) ⟨crowdPeer 0, "n"⟩)

/-- The other peers called between the first call and the repeats. -/
theorem lastCall_other {peerId : String} (other : peerId ≠ crowdPeer 0)
    (lastCall : LastCall (repeatedCalls repeats) peerId index) : 0 < index ∧ index < federationNonceMaxPeers := by
  have made := lastCall.made
  rw [← List.getElem?_map, repeatedCalls_peers] at made
  constructor
  · apply Nat.pos_of_ne_zero
    rintro rfl
    exact other (Option.some.inj made).symm
  · by_contra past
    rw [List.getElem?_append_right (length_crowd ▸ Nat.not_lt.mp past)] at made
    exact other (List.eq_of_mem_replicate (List.mem_of_getElem? made))

theorem first_mem_crowd : crowdPeer 0 ∈ crowd := List.mem_map_of_mem (List.mem_range'_1.mpr (by decide))

theorem repeatedCalls_peers_toFinset (repeats : Nat) :
    ((repeatedCalls repeats).map NonceCall.peerId).toFinset = crowd.toFinset := by
  ext peerId
  rw [repeatedCalls_peers, List.mem_toFinset, List.mem_toFinset, List.mem_append, or_iff_left_of_imp]
  exact fun present => List.eq_of_mem_replicate present ▸ first_mem_crowd

/-- The first peer is evicted right after its call once the counter gives this call the first touch. -/
theorem evicts_first (sha256 : Bytes → Digest) (wraps : (federationNonceMaxPeers + repeats) % 2 ^ 64 = 0) :
    (evictPeer (cacheAfter sha256 (repeatedCalls (repeats + 1))) lateCall.peerId).2 = some (crowdPeer 0) := by
  have numbered := numbered_cacheAfter sha256 (repeatedCalls (repeats + 1))
  have size : crowd.toFinset.card = federationNonceMaxPeers :=
    (List.toFinset_card_of_nodup nodup_crowd).trans length_crowd
  have few : (((repeatedCalls (repeats + 1)).map NonceCall.peerId).toFinset).card ≤ federationNonceMaxPeers :=
    Nat.le_of_eq ((congrArg Finset.card (repeatedCalls_peers_toFinset _)).trans size)
  have holds (peerId : String) : slotOf (cacheAfter sha256 (repeatedCalls (repeats + 1))).inner peerId ≠ none ↔
      peerId ∈ crowd.toFinset := by
    rw [holders_of_few sha256 few, ← List.mem_toFinset, repeatedCalls_peers_toFinset]
  rcases @evictPeer_cases (cacheAfter sha256 (repeatedCalls (repeats + 1))) lateCall.peerId with
    ⟨room, _⟩ | ⟨victim, _, ⟨slot, found, least⟩, leaves⟩
  · have absent := not_not.mp fun held => late_notMem_crowd (List.mem_toFinset.mp ((holds _).mp held))
    exact absurd ⟨absent, ((length_rows holds).trans size).ge⟩ room
  · rw [leaves]
    apply congrArg some
    by_contra other
    obtain ⟨index, lastCall, touch⟩ := numbered.touches victim slot found
    obtain ⟨after, before⟩ := lastCall_other other lastCall
    have first := (holds (crowdPeer 0)).mpr (List.mem_toFinset.mpr first_mem_crowd)
    obtain ⟨firstSlot, firstFound⟩ := Option.ne_none_iff_exists'.mp first
    obtain ⟨latest, firstCall, firstTouch⟩ := numbered.touches (crowdPeer 0) firstSlot firstFound
    have bound := least (crowdPeer 0) firstSlot firstFound
    have ceiling : federationNonceMaxPeers < 2 ^ 64 := by decide
    rw [touch, firstTouch, lastCall_first firstCall, wraps, Nat.mod_eq_of_lt (by omega)] at bound
    omega

/-- The victim was the last one to call. -/
theorem not_overtaken (repeats : Nat) : ¬ Overtaken (repeatedCalls (repeats + 1)) lateCall (crowdPeer 0) := by
  rintro ⟨index, lastCall, many⟩
  rw [lastCall_first lastCall, List.drop_of_length_le (by rw [length_repeatedCalls, Nat.add_assoc])] at many
  have one := many.trans (Finset.card_erase_le.trans (List.toFinset_card_le _))
  exact absurd one (by decide)

/-- A peer is evicted in the first call after its own once the counter has wrapped, whatever the digest. -/
theorem wrappedTouch_evicts_latest :
    ¬ Overtaken (repeatedCalls (2 ^ 64 - federationNonceMaxPeers + 1)) lateCall (crowdPeer 0) ∧
      ∀ sha256, (evictPeer (cacheAfter sha256 (repeatedCalls (2 ^ 64 - federationNonceMaxPeers + 1)))
        lateCall.peerId).2 = some (crowdPeer 0) :=
  ⟨not_overtaken _, fun sha256 => evicts_first sha256 (by decide)⟩

end Samples
end AiMemory.Replay
