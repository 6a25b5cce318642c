import AiMemory.Replay.NonceCache

/-
This file loads the cache from the newest rows of each peer.
-/

namespace AiMemory.Replay
open AiMemory.Library AiMemory.Machine

section Slots

variable (slots : PeerSlots)

/-- An upsert fills the slot of its peer only. -/
theorem slotOf_upsert (peerId : String) (slot : PeerNonceSlot) (query : String) :
    slotOf (slots.upsert (peerId, slot)) query =
      if query = peerId then some slot else slotOf slots query := by
  rw [slotOf, Table.lookup_upsert, apply_ite (Option.map Prod.snd)]
  rfl

/-- An eviction empties the slot of its peer only. -/
theorem slotOf_delete (evicted query : String) :
    slotOf (slots.delete fun entry => entry.1 = evicted) query =
      if query = evicted then none else slotOf slots query := by
  rw [slotOf, Table.lookup_delete, slotOf]
  cases found : slots.lookup query with
  | none => simp
  | some entry =>
      have own : entry.1 = query := Table.key_of_lookup found
      by_cases same : query = evicted <;> simp [Option.filter, own, same]

variable {slots}

theorem slotOf_eq_some_iff {peerId : String} {slot : PeerNonceSlot} :
    slotOf slots peerId = some slot ↔ (peerId, slot) ∈ slots.rows := by
  rw [slotOf, Option.map_eq_some_iff]
  constructor
  · rintro ⟨entry, found, rfl⟩
    obtain ⟨present, rfl⟩ := Table.lookup_eq_some_iff.mp found
    exact present
  · exact fun present => ⟨_, Table.lookup_eq_some_iff.mpr ⟨present, rfl⟩, rfl⟩

/-- Maps with the same peers have as many slots. -/
theorem length_eq_of_vacant {later : PeerSlots}
    (vacant : ∀ peerId, slotOf slots peerId = none ↔ slotOf later peerId = none) :
    later.rows.length = slots.rows.length := by
  apply Table.length_eq_of_lookup
  intro peerId
  have same := vacant peerId
  rw [slotOf, slotOf, Option.map_eq_none_iff, Option.map_eq_none_iff] at same
  rw [← Option.ne_none_iff_isSome, ← Option.ne_none_iff_isSome, ne_eq, ne_eq, same]

end Slots

/-- The slot holds the fingerprints of the rows in their order. -/
structure PeerNonceSlot.Holds (slot : PeerNonceSlot) (rows : List NonceRow) : Prop where
  order : slot.order.map Subtype.val = rows.map NonceRow.fingerprint
  seen : slot.seen = slot.order.toFinset
  bounded : rows.length ≤ federationNonceCapacityPerPeer

/-- The rows that a slot has room for. -/
def newest (rows : List NonceRow) : List NonceRow :=
  rows.drop (rows.length - federationNonceCapacityPerPeer)

/-- The rows that a slot keeps before the next fingerprint. -/
def trimmed (rows : List NonceRow) : List NonceRow :=
  rows.drop (rows.length + 1 - federationNonceCapacityPerPeer)

/-- A short list is its own newest part. -/
theorem newest_of_bounded {rows : List NonceRow} (bounded : rows.length ≤ federationNonceCapacityPerPeer) :
    newest rows = rows := by
  rw [newest, Nat.sub_eq_zero_of_le bounded, List.drop_zero]

/-- One more row is the last of the newest, and the first goes when there is no room. -/
theorem newest_append (rows : List NonceRow) (row : NonceRow) :
    newest (rows ++ [row]) = trimmed (newest rows) ++ [row] := by
  have room : 1 ≤ federationNonceCapacityPerPeer := by decide
  rw [newest, newest, trimmed, List.drop_drop, List.length_drop, List.length_append, List.length_singleton,
    List.drop_append_of_le_length (by omega)]
  exact congrArg (fun count => rows.drop count ++ [row]) (by omega)

theorem trimmed_of_room {rows : List NonceRow} (room : rows.length < federationNonceCapacityPerPeer) :
    trimmed rows = rows := by
  rw [trimmed, Nat.sub_eq_zero_of_le room, List.drop_zero]

theorem trimmed_of_full {first : NonceRow} {rest : List NonceRow}
    (full : rest.length + 1 = federationNonceCapacityPerPeer) : trimmed (first :: rest) = rest := by
  rw [trimmed, List.length_cons, full, Nat.add_sub_cancel_left]
  rfl

namespace PeerNonceSlot.Holds

variable {slot : PeerNonceSlot} {rows : List NonceRow}

/-- A slot that holds the rows is as long as they are. -/
theorem length_order (holds : slot.Holds rows) : slot.order.length = rows.length := by
  simpa using congrArg List.length holds.order

/-- No fingerprint is queued twice. -/
theorem nodup_order (holds : slot.Holds rows) (apart : (rows.map NonceRow.fingerprint).Nodup) :
    slot.order.Nodup := by
  rw [← holds.order] at apart
  exact apart.of_map _

/-- A slot has seen exactly the fingerprints of its rows. -/
theorem mem_seen_iff (holds : slot.Holds rows) (fp : Digest) :
    fp ∈ slot.seen ↔ fp.1 ∈ rows.map NonceRow.fingerprint := by
  rw [holds.seen, List.mem_toFinset, ← holds.order]
  exact (List.mem_map_of_injective Subtype.val_injective).symm

theorem nil : PeerNonceSlot.empty.Holds [] := ⟨rfl, rfl, Nat.zero_le _⟩

theorem touch (holds : slot.Holds rows) (lastTouch : Nat) :
    PeerNonceSlot.Holds { slot with lastTouch := lastTouch } rows :=
  ⟨holds.order, holds.seen, holds.bounded⟩

/-- A full slot loses the fingerprint of its oldest row. -/
theorem popFront (holds : slot.Holds rows) (apart : (rows.map NonceRow.fingerprint).Nodup) :
    slot.popFront.1.Holds (trimmed rows) ∧ (trimmed rows).length < federationNonceCapacityPerPeer ∧
      (rows.filter fun row => slot.popFront.2.map Subtype.val ≠ some row.fingerprint) = trimmed rows := by
  have length := holds.length_order
  by_cases full : slot.order.length ≥ federationNonceCapacityPerPeer
  · cases rows with
    | nil =>
        rw [length] at full
        exact absurd full (by decide)
    | cons first rest =>
        obtain ⟨head, tail, shape⟩ := List.exists_cons_of_length_eq_add_one length
        have sized : rest.length + 1 = federationNonceCapacityPerPeer :=
          Nat.le_antisymm holds.bounded (by rwa [length] at full)
        have order := holds.order
        have lone := holds.nodup_order apart
        rw [shape] at order lone
        obtain ⟨oldest, later⟩ := List.cons_eq_cons.mp order
        rw [PeerNonceSlot.popFront, if_pos full, trimmed_of_full sized]
        simp only [shape]
        refine ⟨⟨later, ?_, ?_⟩, ?_, ?_⟩
        · simp [holds.seen, shape, List.toFinset_cons, (List.nodup_cons.mp lone).1]
        · rw [← sized]
          exact Nat.le_succ _
        · rw [← sized]
          exact Nat.lt_succ_self _
        · obtain ⟨fresh, _⟩ := List.nodup_cons.mp apart
          rw [List.filter_cons_of_neg (by simp [oldest])]
          refine List.filter_eq_self.mpr fun row present => decide_eq_true fun same => fresh ?_
          rw [Option.map_some, oldest, Option.some.injEq] at same
          rw [same]
          exact List.mem_map_of_mem present
  · have room : rows.length < federationNonceCapacityPerPeer := by omega
    rw [PeerNonceSlot.popFront, if_neg full, trimmed_of_room room]
    exact ⟨holds, room, List.filter_eq_self.mpr fun row _ => by simp⟩

theorem mem_order_of_popFront {evicted : Digest} (pops : slot.popFront.2 = some evicted) :
    evicted ∈ slot.order := by
  unfold PeerNonceSlot.popFront at pops
  split_ifs at pops
  split at pops
  · rename_i head rest shape
    rw [shape, ← Option.some.inj pops]
    exact List.mem_cons_self
  · cases pops

/-- A pushed fingerprint is held with its row. -/
theorem pushBack (holds : slot.Holds rows) (room : rows.length < federationNonceCapacityPerPeer)
    {row : NonceRow} {fp : Digest} (same : row.fingerprint = fp.1) :
    (slot.pushBack fp).Holds (rows ++ [row]) where
  order := by simp [PeerNonceSlot.pushBack, holds.order, same]
  seen := by
    ext other
    simp only [PeerNonceSlot.pushBack, holds.seen, Finset.mem_insert, List.mem_toFinset, List.mem_append,
      List.mem_singleton]
    exact or_comm
  bounded := by
    rw [List.length_append]
    exact room

end PeerNonceSlot.Holds

/-- A peer has a slot exactly when it has rows. -/
structure Reflects (slot : Option PeerNonceSlot) (rows : List NonceRow) : Prop where
  vacant : slot = none ↔ rows = []
  holds : (slot.getD .empty).Holds rows

section Hydration

def hydrateSlot (slot : Option PeerNonceSlot) (row : NonceRow) : Option PeerNonceSlot :=
  if sized : row.fingerprint.length = 32 then
    some (loadFingerprint (slot.getD .empty) ⟨row.fingerprint, sized⟩ (touchOf row))
  else slot

/-- A hydrated row fills the slot of its peer only. -/
theorem slotOf_hydrateRow (slots : PeerSlots) (row : NonceRow) (query : String) :
    slotOf (hydrateRow slots row) query =
      if row.peerId = query then hydrateSlot (slotOf slots query) row else slotOf slots query := by
  unfold hydrateRow hydrateSlot
  split_ifs with sized own own
  · rw [slotOf_upsert, if_pos own.symm, own]
  · rw [slotOf_upsert, if_neg (Ne.symm own)]
  · rfl
  · rfl

/-- The load treats the rows of each peer on their own. -/
theorem slotOf_hydrate (rows : List NonceRow) (slots : PeerSlots) (query : String) :
    slotOf (rows.foldl hydrateRow slots) query =
      (rows.filter fun row => row.peerId = query).foldl hydrateSlot (slotOf slots query) := by
  induction rows generalizing slots with
  | nil => rfl
  | cons row rest ih =>
      rw [List.foldl_cons, ih, slotOf_hydrateRow]
      by_cases own : row.peerId = query <;> simp [own]

/-- The load of one peer keeps its newest rows and the touch of the last one. -/
theorem hydrateSlot_reflects {rows : List NonceRow} (sized : ∀ row ∈ rows, row.fingerprint.length = 32)
    (apart : (rows.map NonceRow.fingerprint).Nodup) :
    Reflects (rows.foldl hydrateSlot none) (newest rows) ∧
      (rows.foldl hydrateSlot none).map PeerNonceSlot.lastTouch = rows.getLast?.map touchOf := by
  induction rows using List.reverseRecOn with
  | nil => exact ⟨⟨iff_of_true rfl rfl, .nil⟩, rfl⟩
  | append_singleton rows row ih =>
      have fresh := apart
      rw [List.map_append] at fresh
      obtain ⟨earlier, _, _⟩ := List.nodup_append.mp fresh
      obtain ⟨reflects, _⟩ := ih (fun old present => sized old (List.mem_append_left _ present)) earlier
      obtain ⟨popped, room, _⟩ := reflects.holds.popFront (earlier.sublist ((List.drop_sublist _ _).map _))
      have here : row.fingerprint.length = 32 :=
        sized row (List.mem_append_right _ List.mem_cons_self)
      rw [List.foldl_append, List.foldl_cons, List.foldl_nil, hydrateSlot, dif_pos here, newest_append]
      refine ⟨⟨iff_of_false (by simp) (by simp), ?_⟩, by simp [loadFingerprint]⟩
      exact (popped.pushBack room rfl).touch _

theorem maxTouch_lt_iff {rows : List NonceRow} (sized : ∀ row ∈ rows, row.fingerprint.length = 32)
    (touch bound : Nat) :
    rows.foldl maxTouch touch < bound ↔ touch < bound ∧ ∀ row ∈ rows, touchOf row < bound := by
  induction rows generalizing touch with
  | nil => simp
  | cons row rest ih =>
      rw [List.foldl_cons, ih fun later present => sized later (List.mem_cons_of_mem _ present), maxTouch,
        if_pos (sized row List.mem_cons_self), Nat.max_lt, List.forall_mem_cons, and_assoc]

end Hydration

/-- The rows of a peer from the oldest one. -/
def persisted (table : NonceTable) (peerId : String) : List NonceRow :=
  (sortOn NonceRow.lastTouch table.rows).filter fun row => row.peerId = peerId

/-- The newest row of the peer has the touch. -/
structure NewestTouch (table : NonceTable) (peerId : String) (touch : Nat) : Prop where
  reached : ∃ row ∈ table.rows, row.peerId = peerId ∧ row.lastTouch = touch
  bounds : ∀ row ∈ table.rows, row.peerId = peerId → row.lastTouch ≤ touch

/-- The cache writes fingerprints under touches that differ. -/
structure WellFormed (table : NonceTable) : Prop where
  sized : ∀ row ∈ table.rows, row.fingerprint.length = 32
  inRange : ∀ row ∈ table.rows, 0 ≤ row.lastTouch ∧ row.lastTouch < 2 ^ 63
  distinct : (table.rows.map NonceRow.lastTouch).Nodup

section Tables

variable {table : NonceTable}

/-- The persisted rows of a peer are its rows in the table. -/
theorem mem_persisted_iff {peerId : String} {row : NonceRow} :
    row ∈ persisted table peerId ↔ row ∈ table.rows ∧ row.peerId = peerId := by
  simp [persisted]

/-- No fingerprint of a peer is persisted twice. -/
theorem nodup_fingerprints (table : NonceTable) (peerId : String) :
    ((persisted table peerId).map NonceRow.fingerprint).Nodup := by
  have keys : (sortOn NonceRow.lastTouch table.rows).Pairwise fun first second =>
      (first.peerId, first.fingerprint) ≠ (second.peerId, second.fingerprint) :=
    List.pairwise_map.mp (((sortOn_perm _ table.rows).map _).nodup_iff.mpr table.unique)
  refine List.pairwise_map.mpr ((keys.filter _).imp_of_mem ?_)
  intro first second firstPresent secondPresent apart same
  refine apart (Prod.ext ?_ same)
  exact (mem_persisted_iff.mp firstPresent).2.trans (mem_persisted_iff.mp secondPresent).2.symm

theorem nodup_persisted (table : NonceTable) (peerId : String) : (persisted table peerId).Nodup :=
  (nodup_fingerprints table peerId).of_map _

/-- The prune leaves the rows that the load keeps. -/
theorem persisted_prune (distinct : (table.rows.map NonceRow.lastTouch).Nodup) (peerId : String) :
    persisted (pruneNonceCacheToPerPeerCap table federationNonceCapacityPerPeer) peerId =
      newest (persisted table peerId) := by
  have own : sortOn (fun other : NonceRow => -other.lastTouch)
      (table.rows.filter fun other => other.peerId = peerId) = (persisted table peerId).reverse := by
    rw [sortOn_neg (distinct.sublist (List.filter_sublist.map _)), sortOn_filter distinct]
    rfl
  rw [newest, ← filter_not_take (nodup_persisted table peerId), persisted, pruneNonceCacheToPerPeerCap,
    Table.delete, sortOn_filter distinct, List.filter_comm]
  apply List.filter_congr
  intro row present
  rw [(mem_persisted_iff.mp present).2, own, List.drop_reverse]
  simp

theorem touchOf_eq (wellFormed : WellFormed table) {row : NonceRow} (present : row ∈ table.rows) :
    (touchOf row : Int) = row.lastTouch := by
  have low := (wellFormed.inRange row present).1
  rw [touchOf, max_eq_left low, Int.toNat_of_nonneg low]

/-- Each hydrated slot holds the newest rows of its peer and their newest touch. -/
theorem hydrateFromDisk_slot (wellFormed : WellFormed table) (peerId : String) :
    Reflects (slotOf (hydrateFromDisk table).inner peerId) (newest (persisted table peerId)) ∧
      ∀ slot ∈ slotOf (hydrateFromDisk table).inner peerId,
        NewestTouch table peerId slot.lastTouch := by
  have loaded : slotOf (hydrateFromDisk table).inner peerId =
      (persisted table peerId).foldl hydrateSlot none := slotOf_hydrate _ .empty peerId
  obtain ⟨reflects, touched⟩ := hydrateSlot_reflects
    (fun row present => wellFormed.sized row (mem_persisted_iff.mp present).1)
    (nodup_fingerprints table peerId)
  rw [loaded]
  refine ⟨reflects, fun slot found => ?_⟩
  rw [Option.mem_def.mp found, Option.map_some] at touched
  obtain ⟨last, final, same⟩ := Option.map_eq_some_iff.mp touched.symm
  obtain ⟨earlier, split⟩ := List.getLast?_eq_some_iff.mp final
  obtain ⟨present, own⟩ := mem_persisted_iff.mp (List.mem_of_getLast? final)
  have stamp : (slot.lastTouch : Int) = last.lastTouch := by
    rw [← same, touchOf_eq wellFormed present]
  refine ⟨⟨last, present, own, stamp.symm⟩, fun row held peer => ?_⟩
  have sorted : (persisted table peerId).Pairwise fun first second => first.lastTouch ≤ second.lastTouch :=
    (sortOn_sorted NonceRow.lastTouch table.rows).filter _
  have member := mem_persisted_iff.mpr ⟨held, peer⟩
  rw [split] at sorted member
  rw [stamp]
  rcases List.mem_append.mp member with before | only
  · exact (List.pairwise_append.mp sorted).2.2 row before last List.mem_cons_self
  · rw [List.mem_singleton.mp only]

/-- The hydrated counter is the first one past every touch in the table. -/
theorem hydrateFromDisk_counter (wellFormed : WellFormed table) :
    0 < (hydrateFromDisk table).touchCounter ∧
      (∀ row ∈ table.rows, row.lastTouch < (hydrateFromDisk table).touchCounter) ∧
      ∀ bound : Nat, 0 < bound → (∀ row ∈ table.rows, row.lastTouch < bound) →
        (hydrateFromDisk table).touchCounter ≤ bound := by
  have least (bound : Nat) :
      (sortOn NonceRow.lastTouch table.rows).foldl maxTouch 0 < bound ↔
        0 < bound ∧ ∀ row ∈ table.rows, row.lastTouch < bound := by
    rw [maxTouch_lt_iff fun row present => wellFormed.sized row (mem_sortOn.mp present)]
    refine and_congr_right' ⟨fun below row present => ?_, fun below row present => ?_⟩
    · rw [← touchOf_eq wellFormed present]
      exact Int.ofNat_lt.mpr (below row (mem_sortOn.mpr present))
    · have inside := below row (mem_sortOn.mp present)
      rw [← touchOf_eq wellFormed (mem_sortOn.mp present)] at inside
      exact Int.ofNat_lt.mp inside
  have fits := (least (2 ^ 63)).mpr ⟨by decide, fun row present => (wellFormed.inRange row present).2⟩
  have counter : (hydrateFromDisk table).touchCounter =
      (sortOn NonceRow.lastTouch table.rows).foldl maxTouch 0 + 1 := by
    rw [hydrateFromDisk]
    exact Nat.min_eq_left (by omega)
  rw [counter]
  refine ⟨Nat.succ_pos _, ((least _).mp (Nat.lt_succ_self _)).2, fun bound positive below => ?_⟩
  exact (least bound).mpr ⟨positive, below⟩

end Tables

/-- Two peers with one newest touch are the same. -/
theorem NewestTouch.same_peer {table : NonceTable} (distinct : (table.rows.map NonceRow.lastTouch).Nodup)
    {first second : String} {touch : Nat} (newestFirst : NewestTouch table first touch)
    (newestSecond : NewestTouch table second touch) : first = second := by
  obtain ⟨row, present, rfl, same⟩ := newestFirst.reached
  obtain ⟨other, held, rfl, stamp⟩ := newestSecond.reached
  rw [List.inj_on_of_nodup_map distinct present held (same.trans stamp.symm)]

end AiMemory.Replay
