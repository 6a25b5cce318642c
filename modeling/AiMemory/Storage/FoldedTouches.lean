import AiMemory.Storage.FoldAccesses

/-
This file proves when one fold of the recorded recalls leaves what one touch for each of them leaves.
-/

namespace AiMemory.Storage
open AiMemory.Crdt AiMemory.Library AiMemory.Machine

/-- The triggers and the validator admit no other row. -/
structure AdmittedRow (row : Memory) : Prop where
  positive : 1 ≤ row.priority
  priority : row.priority ≤ 10
  accessCount : 0 ≤ row.accessCount

section Rows

variable (chrono : Chrono) (shortExtend midExtend : Int)

/-- The instant prints its windows no later than the other one. -/
structure WindowsSort (first second : chrono.Instant) : Prop where
  short : chrono.toRfc3339 (chrono.addSeconds first shortExtend) ≤
    chrono.toRfc3339 (chrono.addSeconds second shortExtend)
  mid : chrono.toRfc3339 (chrono.addSeconds first midExtend) ≤
    chrono.toRfc3339 (chrono.addSeconds second midExtend)

/-- The accesses promote the row. -/
def Promoted (row : Memory) (count : Nat) : Prop := row.tier = .mid ∧ promotionThreshold ≤ row.accessCount + count

instance (row : Memory) (count : Nat) : Decidable (Promoted row count) := inferInstanceAs (Decidable (_ ∧ _))

theorem Promoted.grows {row : Memory} {count : Nat} (promoted : Promoted row count) : Promoted row (count + 1) :=
  ⟨promoted.1, promoted.2.trans (by omega)⟩

/-- The access columns after a number of accesses, the last of them at the given instant. -/
structure Accessed (row : Memory) (count : Nat) (latest : chrono.Instant) (after : Memory) : Prop where
  accessCount : after.accessCount = row.accessCount + count
  priority : after.priority = min (row.priority + ((row.accessCount + count) / 10 - row.accessCount / 10)) 10
  tier : after.tier = if Promoted row count then .long else row.tier
  expiresAt : after.expiresAt =
    if Promoted row count then none
    else extendExpiry chrono shortExtend midExtend latest row.tier row.expiresAt
  lastAccessedAt : after.lastAccessedAt = some (chrono.toRfc3339 latest)

variable {chrono shortExtend midExtend} {row after : Memory} {count : Nat} {latest now : chrono.Instant}

/-- A touch counts one access. -/
theorem accessCount_touchRow : (touchRow chrono shortExtend midExtend now row).accessCount =
    min (row.accessCount + 1) 1000000 := by
  unfold touchRow raisePriority promote bumpAccess
  split_ifs <;> rfl

/-- A touch sets the time of the last access. -/
theorem lastAccessedAt_touchRow : (touchRow chrono shortExtend midExtend now row).lastAccessedAt =
    some (chrono.toRfc3339 now) := by
  unfold touchRow raisePriority promote bumpAccess
  split_ifs <;> rfl

/-- A touch promotes a row of the middle tier that reaches the threshold. -/
theorem tier_touchRow : (touchRow chrono shortExtend midExtend now row).tier =
    if row.tier = .mid ∧ promotionThreshold ≤ min (row.accessCount + 1) 1000000 then .long else row.tier := by
  unfold touchRow raisePriority promote bumpAccess
  split_ifs <;> rfl

/-- A touch clears the expiry of a promoted row and extends the others. -/
theorem expiresAt_touchRow : (touchRow chrono shortExtend midExtend now row).expiresAt =
    if row.tier = .mid ∧ promotionThreshold ≤ min (row.accessCount + 1) 1000000 then none
    else extendExpiry chrono shortExtend midExtend now row.tier row.expiresAt := by
  unfold touchRow raisePriority promote bumpAccess extendExpiry
  split_ifs <;> rfl

/-- A touch raises the priority at every tenth access. -/
theorem priority_touchRow : (touchRow chrono shortExtend midExtend now row).priority =
    if 0 < min (row.accessCount + 1) 1000000 ∧ min (row.accessCount + 1) 1000000 % 10 = 0 ∧ row.priority < 10 then
      min (row.priority + 1) 10
    else row.priority := by
  unfold touchRow raisePriority promote bumpAccess
  split_ifs <;> rfl

/-- A later window wins over an earlier one. -/
theorem extendExpiry_twice (sorts : WindowsSort chrono shortExtend midExtend latest now) (tier : Tier)
    (expiresAt : Option String) :
    extendExpiry chrono shortExtend midExtend now tier
        (extendExpiry chrono shortExtend midExtend latest tier expiresAt) =
      extendExpiry chrono shortExtend midExtend now tier expiresAt := by
  cases tier with
  | long => rfl
  | short => cases expiresAt <;> simp [extendExpiry, larger_eq_max, max_assoc, max_eq_right sorts.short]
  | mid => cases expiresAt <;> simp [extendExpiry, larger_eq_max, max_assoc, max_eq_right sorts.mid]

/-- The first touch of a row. -/
theorem accessed_touchRow (admitted : AdmittedRow row) (bounded : row.accessCount + 1 ≤ 1000000) :
    Accessed chrono shortExtend midExtend row 1 now (touchRow chrono shortExtend midExtend now row) := by
  have count : min (row.accessCount + 1) 1000000 = row.accessCount + 1 := min_eq_left bounded
  constructor
  · rw [accessCount_touchRow, count]
    rfl
  · have low := admitted.accessCount
    have high := admitted.priority
    rw [priority_touchRow, count]
    split_ifs <;> omega
  · rw [tier_touchRow, count]
    rfl
  · rw [expiresAt_touchRow, count]
    rfl
  · exact lastAccessedAt_touchRow

/-- One more touch of a row. -/
theorem Accessed.touchRow (admitted : AdmittedRow row)
    (accessed : Accessed chrono shortExtend midExtend row count latest after)
    (bounded : row.accessCount + (count + 1 : Nat) ≤ 1000000)
    (sorts : WindowsSort chrono shortExtend midExtend latest now) :
    Accessed chrono shortExtend midExtend row (count + 1) now
      (touchRow chrono shortExtend midExtend now after) := by
  have total : min (after.accessCount + 1) 1000000 = row.accessCount + (count + 1 : Nat) := by
    have before := accessed.accessCount
    omega
  constructor
  · rw [accessCount_touchRow, total]
  · have low := admitted.accessCount
    have high := admitted.priority
    rw [priority_touchRow, total, accessed.priority]
    split_ifs <;> omega
  · rw [tier_touchRow, total, accessed.tier]
    by_cases before : Promoted row count
    · rw [if_pos before, if_pos before.grows]
      rfl
    · rw [if_neg before]
      rfl
  · rw [expiresAt_touchRow, total, accessed.tier, accessed.expiresAt]
    by_cases before : Promoted row count
    · rw [if_pos before, if_pos before, if_pos before.grows]
      rfl
    · rw [if_neg before, if_neg before, extendExpiry_twice sorts]
      rfl
  · exact lastAccessedAt_touchRow

/-- The touches of a row at instants in the order of their windows. -/
theorem accessed_run (admitted : AdmittedRow row) {times : List chrono.Instant}
    (accessed : Accessed chrono shortExtend midExtend row count latest after)
    (bounded : row.accessCount + (count + times.length : Nat) ≤ 1000000)
    (sorted : (latest :: times).Pairwise (WindowsSort chrono shortExtend midExtend)) :
    Accessed chrono shortExtend midExtend row (count + times.length) (times.getLastD latest)
      (times.foldl (fun row now => touchRow chrono shortExtend midExtend now row) after) := by
  induction times generalizing count latest after with
  | nil => exact accessed
  | cons now rest ih =>
      obtain ⟨first, later⟩ := List.pairwise_cons.mp sorted
      rw [List.length_cons] at bounded
      have step := accessed.touchRow admitted (by omega) (first now List.mem_cons_self)
      have run := ih step (by omega) later
      rw [List.length_cons, List.getLastD_cons, Nat.add_comm rest.length, ← Nat.add_assoc]
      exact run

theorem lastAccessedAt_promote : (promote chrono now row).lastAccessedAt = row.lastAccessedAt := by
  unfold promote
  split_ifs <;> rfl

/-- The fold keeps the larger text. -/
theorem lastAccessedAt_foldRow : (foldRow chrono shortExtend midExtend count latest now row).lastAccessedAt =
    some ((row.lastAccessedAt.map fun last => larger last (chrono.toRfc3339 latest)).getD
      (chrono.toRfc3339 latest)) := by
  rw [foldRow, lastAccessedAt_promote, bumpFolded]
  cases row.lastAccessedAt with
  | none => rfl
  | some last => exact (apply_ite some _ _ _).symm

/-- A fold promotes a row that its accesses bring to the threshold. -/
theorem tier_foldRow : (foldRow chrono shortExtend midExtend count latest now row).tier =
    if row.tier = .mid ∧ promotionThreshold ≤ min (row.accessCount + count) 1000000 then .long else row.tier := by
  unfold foldRow promote bumpFolded
  split_ifs <;> rfl

/-- A fold clears the expiry of a promoted row and extends the others. -/
theorem expiresAt_foldRow : (foldRow chrono shortExtend midExtend count latest now row).expiresAt =
    if row.tier = .mid ∧ promotionThreshold ≤ min (row.accessCount + count) 1000000 then none
    else extendExpiry chrono shortExtend midExtend latest row.tier row.expiresAt := by
  unfold foldRow promote bumpFolded
  split_ifs <;> rfl

/-- The fold of a row counts as its accesses unless it keeps a stamp whose text is larger. -/
theorem accessed_foldRow_iff (admitted : AdmittedRow row) (bounded : row.accessCount + count ≤ 1000000) :
    Accessed chrono shortExtend midExtend row count latest
        (foldRow chrono shortExtend midExtend count latest now row) ↔
      ∀ last ∈ row.lastAccessedAt, last ≤ chrono.toRfc3339 latest := by
  have total : min (row.accessCount + count) 1000000 = row.accessCount + count := min_eq_left bounded
  constructor
  · intro accessed last present
    have kept := lastAccessedAt_foldRow.symm.trans accessed.lastAccessedAt
    rw [Option.mem_def.mp present, Option.some_inj, Option.map_some, Option.getD_some, larger_eq_max] at kept
    exact max_eq_right_iff.mp kept
  · intro older
    constructor
    · unfold foldRow promote bumpFolded
      split_ifs <;> exact total
    · have low := admitted.accessCount
      have decades : (row.accessCount + count).tdiv 10 - row.accessCount.tdiv 10 =
          (row.accessCount + count) / 10 - row.accessCount / 10 := by
        rw [Int.tdiv_eq_ediv_of_nonneg (by omega), Int.tdiv_eq_ediv_of_nonneg low]
      unfold foldRow promote bumpFolded
      split_ifs <;> rw [total, decades]
    · rw [tier_foldRow, total]
      rfl
    · rw [expiresAt_foldRow, total]
      rfl
    · rw [lastAccessedAt_foldRow]
      cases stored : row.lastAccessedAt with
      | none => rfl
      | some last => rw [Option.map_some, Option.getD_some, larger_eq_max, max_eq_right (older last stored)]

/-- The columns that an access changes, without the time of the update. -/
def accessColumns (row : Memory) : Int × Int × Tier × Option String × Option String :=
  (row.accessCount, row.priority, row.tier, row.expiresAt, row.lastAccessedAt)

/-- Two rows have the same access columns exactly when both meet the description. -/
theorem Accessed.columns_iff {other : Memory}
    (accessed : Accessed chrono shortExtend midExtend row count latest after) :
    accessColumns other = accessColumns after ↔ Accessed chrono shortExtend midExtend row count latest other := by
  simp only [accessColumns, Prod.mk.injEq, accessed.accessCount, accessed.priority, accessed.tier,
    accessed.expiresAt, accessed.lastAccessedAt]
  constructor
  · rintro ⟨accessCount, priority, tier, expiresAt, lastAccessedAt⟩
    exact ⟨accessCount, priority, tier, expiresAt, lastAccessedAt⟩
  · intro same
    exact ⟨same.accessCount, same.priority, same.tier, same.expiresAt, same.lastAccessedAt⟩

end Rows

section Ledger

variable (chrono : Chrono) (shortExtend midExtend : Int) (ledger : List RecallObservation) (id : String)

/-- The unfolded stamps of a memory in their order as texts. -/
def observations : List String :=
  ((unfoldedOf ledger id).map RecallObservation.observedAt).insertionSort (· ≤ ·)

def accessTimes : List chrono.Instant := (observations ledger id).filterMap (stampInstant chrono)

/-- The calendar reads the stamps in their order, keeps it in a shift and prints the windows in it. -/
structure KeepsOrder (stamps : List String) : Prop where
  reads : ∀ stamp ∈ stamps, (stampInstant chrono stamp).isSome
  inOrder : ∀ first ∈ stamps, ∀ second ∈ stamps, first ≤ second →
    ∀ early ∈ stampInstant chrono first, ∀ late ∈ stampInstant chrono second, chrono.later early late = false
  shifted : ∀ early late seconds, chrono.later early late = false →
    chrono.later (chrono.addSeconds early seconds) (chrono.addSeconds late seconds) = false
  printed : ∀ early ∈ stamps.filterMap (stampInstant chrono), ∀ late ∈ stamps.filterMap (stampInstant chrono),
    ∀ seconds ∈ [shortExtend, midExtend],
      chrono.later (chrono.addSeconds early seconds) (chrono.addSeconds late seconds) = false →
        chrono.toRfc3339 (chrono.addSeconds early seconds) ≤ chrono.toRfc3339 (chrono.addSeconds late seconds)

/-- One touch at each instant. -/
def touchEach (times : List chrono.Instant) (store : Store) : Store :=
  times.foldl (fun store now => touch chrono shortExtend midExtend now store id) store

variable {chrono shortExtend midExtend ledger id}

theorem sorted_observations : (observations ledger id).Pairwise fun first second => first ≤ second :=
  insertionSort_sorted (fun stamp : String => stamp) _

/-- The listed times are those of the unfolded observations. -/
theorem mem_observations {stamp : String} :
    stamp ∈ observations ledger id ↔ stamp ∈ (unfoldedOf ledger id).map RecallObservation.observedAt :=
  (List.perm_insertionSort _ _).mem_iff

theorem length_observations : (observations ledger id).length = (unfoldedOf ledger id).length := by
  rw [observations, List.length_insertionSort, List.length_map]

/-- The times of the accesses sort as their windows do. -/
theorem windowsSort_accessTimes (order : KeepsOrder chrono shortExtend midExtend (observations ledger id)) :
    (accessTimes chrono ledger id).Pairwise (WindowsSort chrono shortExtend midExtend) := by
  rw [accessTimes, List.pairwise_filterMap]
  have sorted : (observations ledger id).Pairwise _ := sorted_observations
  apply sorted.imp_of_mem
  intro first second firstPresent secondPresent below early read late otherRead
  have inOrder := order.inOrder first firstPresent second secondPresent below early read late otherRead
  have printed := order.printed early (List.mem_filterMap.mpr ⟨first, firstPresent, read⟩) late
    (List.mem_filterMap.mpr ⟨second, secondPresent, otherRead⟩)
  constructor
  · exact printed shortExtend (by simp) (order.shifted early late shortExtend inOrder)
  · exact printed midExtend (by simp) (order.shifted early late midExtend inOrder)

theorem length_accessTimes (order : KeepsOrder chrono shortExtend midExtend (observations ledger id)) :
    (accessTimes chrono ledger id).length = (unfoldedOf ledger id).length := by
  rw [accessTimes, List.length_filterMap_eq_countP, List.countP_eq_length.mpr order.reads, length_observations]

/-- The touches of one memory change its row one after the other. -/
theorem find_touchEach (times : List chrono.Instant) (store : Store) :
    (touchEach chrono shortExtend midExtend id times store).memories.find id =
      (store.memories.find id).map fun row =>
        times.foldl (fun row now => touchRow chrono shortExtend midExtend now row) row := by
  induction times generalizing store with
  | nil => exact Option.map_id'.symm
  | cons now rest ih =>
      have first : (touch chrono shortExtend midExtend now store id).memories.find id = _ :=
        find_rewriteRow store id _ _ _ id
      refine (ih _).trans ?_
      rw [first, Option.map_map]
      simp [Function.comp_def]

/-- The largest stamp is one of the list and none exceeds it. -/
theorem foldl_larger (stamps : List String) (start : String) :
    (stamps.foldl larger start = start ∨ stamps.foldl larger start ∈ stamps) ∧
      start ≤ stamps.foldl larger start ∧ ∀ stamp ∈ stamps, stamp ≤ stamps.foldl larger start := by
  induction stamps generalizing start with
  | nil => exact ⟨Or.inl rfl, le_rfl, fun stamp present => nomatch present⟩
  | cons stamp rest ih =>
      obtain ⟨found, above, all⟩ := ih (larger start stamp)
      rw [List.foldl_cons]
      rw [larger_eq_max] at *
      refine ⟨?_, (le_max_left _ _).trans above, List.forall_mem_cons.mpr ⟨(le_max_right _ _).trans above, all⟩⟩
      rcases found with same | later
      · rcases max_choice start stamp with left | right
        · exact Or.inl (same.trans left)
        · exact Or.inr (List.mem_cons.mpr (Or.inl (same.trans right)))
      · exact Or.inr (List.mem_cons_of_mem _ later)

/-- The latest stamp of a group is the last of its observations. -/
theorem latest_aggregate (observed : observations ledger id ≠ []) :
    (aggregate ledger id).latest = (observations ledger id).getLast observed := by
  obtain ⟨found, -, above⟩ := foldl_larger ((unfoldedOf ledger id).map RecallObservation.observedAt) ""
  have last := mem_observations.mp (List.getLast_mem observed)
  have listed : (aggregate ledger id).latest ∈ observations ledger id := by
    rw [mem_observations]
    rcases found with empty | listed
    · have least : (observations ledger id).getLast observed ≤ "" := empty ▸ above _ last
      have blank : (observations ledger id).getLast observed = "" :=
        least.eq_of_not_lt fun below => List.not_lt_nil _ (String.lt_iff_toList_lt.mp below)
      rw [aggregate, empty, ← blank]
      exact last
    · exact listed
  apply le_antisymm
  · exact sorted_observations.rel_getLast listed
  · exact above _ last

end Ledger

section Fold

variable {chrono : Chrono} {shortExtend midExtend : Int} {clock : FoldClock chrono} {id : String}

/-- The fold of the groups of other memories leaves the row. -/
theorem find_foldGroups_other {roundOf : AccessGroup → Nat} {groups : List AccessGroup} {db : RecallDatabase}
    (others : ∀ group ∈ groups, group.memoryId ≠ id) :
    (groups.foldl (fun db group => foldGroup shortExtend midExtend clock (roundOf group) db group) db
      ).store.memories.find id = db.store.memories.find id := by
  induction groups generalizing db with
  | nil => rfl
  | cons group rest ih =>
      obtain ⟨apart, later⟩ := List.forall_mem_cons.mp others
      rw [List.foldl_cons, ih later, foldGroup, find_rewriteRow]
      simp [apart.symm]

/-- The fold rewrites the row once, by the group of its memory. -/
theorem find_foldGroups {roundOf : AccessGroup → Nat} {groups : List AccessGroup} {db : RecallDatabase}
    (distinct : (groups.map AccessGroup.memoryId).Nodup) {group : AccessGroup} (listed : group ∈ groups)
    {latest : chrono.Instant} (read : stampInstant chrono group.latest = some latest) :
    (groups.foldl (fun db group => foldGroup shortExtend midExtend clock (roundOf group) db group) db
      ).store.memories.find group.memoryId =
      (db.store.memories.find group.memoryId).map
        (foldRow chrono shortExtend midExtend group.count latest (clock.chunk (roundOf group))) := by
  induction groups generalizing db with
  | nil => cases listed
  | cons first rest ih =>
      obtain ⟨apart, later⟩ := List.nodup_cons.mp distinct
      rw [List.foldl_cons]
      rcases List.mem_cons.mp listed with rfl | behind
      · rw [find_foldGroups_other fun other present same => apart (List.mem_map.mpr ⟨other, present, same⟩),
          foldGroup, find_rewriteRow, read]
        simp
      · have other : group.memoryId ≠ first.memoryId :=
          fun same => apart (List.mem_map.mpr ⟨group, behind, same⟩)
        rw [ih later behind, foldGroup, find_rewriteRow]
        simp [other]

/-- One fold rewrites the row of a memory with unfolded observations once. -/
theorem find_foldRecallAccesses {db : RecallDatabase} (observed : unfoldedOf db.ledger id ≠ [])
    {latest : chrono.Instant} (read : stampInstant chrono (aggregate db.ledger id).latest = some latest) :
    ∃ now, (foldRecallAccesses shortExtend midExtend clock db).1.store.memories.find id =
      (db.store.memories.find id).map
        (foldRow chrono shortExtend midExtend (unfoldedOf db.ledger id).length latest now) := by
  have pending : unfolded db.ledger ≠ [] := fun none => observed (by rw [unfoldedOf, none]; rfl)
  obtain ⟨roundOf, settled⟩ :=
    (accessDrain shortExtend midExtend clock).run_eq foldChunkMemories (by decide) 0 db
  have distinct : ((aggregates db.ledger).map AccessGroup.memoryId).Nodup := by
    rw [aggregates, List.map_map]
    exact (nodup_unfoldedIds db.ledger).map fun _ _ same => same
  have listed : aggregate db.ledger id ∈ aggregates db.ledger := mem_aggregates.mpr ⟨observed, rfl⟩
  rw [foldRecallAccesses, if_neg pending, settled]
  exact ⟨_, find_foldGroups distinct listed read⟩

/-- A second fold finds nothing to do. -/
theorem foldRecallAccesses_twice (db : RecallDatabase) (later : FoldClock chrono) :
    foldRecallAccesses shortExtend midExtend later (foldRecallAccesses shortExtend midExtend clock db).1 =
      ((foldRecallAccesses shortExtend midExtend clock db).1, 0) := by
  have drained : unfolded (foldRecallAccesses shortExtend midExtend clock db).1.ledger = [] := by
    unfold foldRecallAccesses
    split_ifs with none
    · exact none
    · have empty := (accessDrain shortExtend midExtend clock).pending_run foldChunkMemories (by decide) 0 db
      exact unfolded_of_aggregates empty
  rw [foldRecallAccesses, if_pos drained]

variable (shortExtend midExtend clock id) in
/-- The fold leaves the access columns that the touches leave, and a second fold changes nothing. -/
structure FoldsLikeTouches (db : RecallDatabase) : Prop where
  sameAccess : ((foldRecallAccesses shortExtend midExtend clock db).1.store.memories.find id).map accessColumns =
    ((touchEach chrono shortExtend midExtend id (accessTimes chrono db.ledger id) db.store).memories.find id).map
      accessColumns
  settled : ∀ later : FoldClock chrono,
    foldRecallAccesses shortExtend midExtend later (foldRecallAccesses shortExtend midExtend clock db).1 =
      ((foldRecallAccesses shortExtend midExtend clock db).1, 0)

variable {db : RecallDatabase} {row : Memory}

/-- The instant of the latest stamp is the last of the times. -/
theorem getLast_accessTimes {ledger : List RecallObservation} (observed : observations ledger id ≠ [])
    (order : KeepsOrder chrono shortExtend midExtend (observations ledger id)) :
    ∃ latest, stampInstant chrono (aggregate ledger id).latest = some latest ∧
      (accessTimes chrono ledger id).getLast? = some latest := by
  obtain ⟨latest, read⟩ := Option.isSome_iff_exists.mp (order.reads _ (List.getLast_mem observed))
  refine ⟨latest, by rw [latest_aggregate observed, read], ?_⟩
  rw [accessTimes, ← List.dropLast_append_getLast observed, List.filterMap_append, List.filterMap_cons_some read,
    List.filterMap_nil, List.getLast?_concat]

/-- The touches of the row count as its accesses. -/
theorem accessed_touches (admitted : AdmittedRow row)
    (bounded : row.accessCount + (observations db.ledger id).length ≤ 1000000)
    (order : KeepsOrder chrono shortExtend midExtend (observations db.ledger id)) {latest : chrono.Instant}
    (last : (accessTimes chrono db.ledger id).getLast? = some latest) :
    Accessed chrono shortExtend midExtend row (unfoldedOf db.ledger id).length latest
      ((accessTimes chrono db.ledger id).foldl (fun row now => touchRow chrono shortExtend midExtend now row)
        row) := by
  have sorted := windowsSort_accessTimes order
  have count := length_accessTimes order
  rw [length_observations, ← count] at bounded
  rw [← count]
  cases times : accessTimes chrono db.ledger id with
  | nil => simp [times] at last
  | cons first rest =>
      rw [times, List.getLast?_cons, Option.some_inj] at last
      rw [times, List.length_cons] at bounded
      rw [times] at sorted
      have start : Accessed chrono shortExtend midExtend row 1 first _ := accessed_touchRow admitted (by omega)
      rw [List.length_cons, Nat.add_comm, List.foldl_cons, ← last, ← List.getLastD_eq_getLast?]
      exact accessed_run admitted start (by omega) sorted

/-- The columns agree exactly when the text of the last access does not sort after that of the latest observation. -/
theorem sameAccess_iff (stored : db.store.memories.find id = some row) (admitted : AdmittedRow row)
    (observed : observations db.ledger id ≠ [])
    (bounded : row.accessCount + (observations db.ledger id).length ≤ 1000000)
    (order : KeepsOrder chrono shortExtend midExtend (observations db.ledger id)) :
    ((foldRecallAccesses shortExtend midExtend clock db).1.store.memories.find id).map accessColumns =
        ((touchEach chrono shortExtend midExtend id (accessTimes chrono db.ledger id) db.store).memories.find
          id).map accessColumns ↔
      ∀ last ∈ row.lastAccessedAt, ∀ latest ∈ (accessTimes chrono db.ledger id).getLast?,
        last ≤ chrono.toRfc3339 latest := by
  obtain ⟨latest, read, last⟩ := getLast_accessTimes observed order
  have pending : unfoldedOf db.ledger id ≠ [] := by
    rw [← List.length_pos_iff_ne_nil, ← length_observations]
    exact List.length_pos_of_ne_nil observed
  obtain ⟨now, folded⟩ : ∃ now, (foldRecallAccesses shortExtend midExtend clock db).1.store.memories.find id =
      (db.store.memories.find id).map _ := find_foldRecallAccesses pending read
  have touched : Accessed chrono shortExtend midExtend row _ latest _ := accessed_touches admitted bounded order last
  rw [length_observations] at bounded
  rw [folded, find_touchEach, stored, Option.map_some, Option.map_some, Option.map_some, Option.map_some,
    Option.some_inj, touched.columns_iff, accessed_foldRow_iff admitted bounded]
  simp [last]

end Fold

/-- The fold leaves what the touches leave exactly when the text of the last access does not sort after the text of
the last observation. -/
theorem foldsLikeTouches_iff (chrono : Chrono) (shortExtend midExtend : Int) (clock : FoldClock chrono)
    (db : RecallDatabase) (row : Memory) (id : String) (stored : db.store.memories.find id = some row)
    (admitted : AdmittedRow row) (observed : observations db.ledger id ≠ [])
    (bounded : row.accessCount + (observations db.ledger id).length ≤ 1000000)
    (order : KeepsOrder chrono shortExtend midExtend (observations db.ledger id)) :
    FoldsLikeTouches shortExtend midExtend clock id db ↔
      ∀ last ∈ row.lastAccessedAt, ∀ latest ∈ (accessTimes chrono db.ledger id).getLast?,
        last ≤ chrono.toRfc3339 latest := by
  rw [← sameAccess_iff stored admitted observed bounded order]
  exact ⟨FoldsLikeTouches.sameAccess, fun same => ⟨same, foldRecallAccesses_twice db⟩⟩

section Samples

/-- The calendar of one morning prints the zero offset and reads two more spellings. -/
def morning : Chrono := .ofTable
  [("2026-01-01T00:00:00+00:00", 0), ("2026-01-01T00:10:00+00:00", 600), ("2026-01-01T00:20:00+00:00", 1200),
    ("2026-01-01T01:10:00+00:00", 4200), ("2026-01-01T01:20:00+00:00", 4800),
    ("2026-01-02T00:10:00+00:00", 87000), ("2026-01-02T00:20:00+00:00", 87600),
    ("2026-01-01T00:10:00.000Z", 600), ("2026-01-01T00:20:00.000Z", 1200), ("2026-01-01T05:00:00+05:00", 0)]

def recalledRow (lastAccessedAt : String) : Memory :=
  { Memory.base "m1" "2026-01-01T00:00:00+00:00" with
    tier := .mid
    accessCount := 8
    priority := 5
    lastAccessedAt := some lastAccessedAt
    expiresAt := some "2026-01-01T01:20:00+00:00" }

def morningLedger : List RecallObservation :=
  [⟨"m1", "2026-01-01T00:20:00.000Z", false⟩, ⟨"m1", "2026-01-01T00:10:00.000Z", false⟩,
    ⟨"m2", "2026-01-01T00:10:00.000Z", false⟩]

def recalledDatabase (lastAccessedAt : String) : RecallDatabase where
  store := ⟨⟨[recalledRow lastAccessedAt], List.nodup_singleton _, List.nodup_singleton _⟩, [], [], none⟩
  ledger := morningLedger

def morningClock : FoldClock morning := ⟨fun _ => (0 : Int), fun _ _ => (0 : Int)⟩

theorem observations_morning :
    observations morningLedger "m1" = ["2026-01-01T00:10:00.000Z", "2026-01-01T00:20:00.000Z"] := by
  decide +kernel

theorem keepsOrder_morning : KeepsOrder morning 3600 86400 (observations morningLedger "m1") := by
  rw [observations_morning]
  constructor
  · decide +kernel
  · decide +kernel
  · intro (early : Int) (late : Int) seconds inOrder
    have ordered : ¬ late < early := of_decide_eq_false inOrder
    change decide (late + seconds < early + seconds) = false
    rw [decide_eq_false_iff_not]
    omega
  · decide +kernel

theorem admitted_recalledRow (lastAccessedAt : String) : AdmittedRow (recalledRow lastAccessedAt) := by
  constructor <;> simp [recalledRow]

/-- Two recalls promote the row in the middle and complete its tenth access. -/
theorem zeroOffsetRow_folds :
    FoldsLikeTouches 3600 86400 morningClock "m1" (recalledDatabase "2026-01-01T00:00:00+00:00") :=
  (foldsLikeTouches_iff morning 3600 86400 morningClock _ _ "m1" rfl (admitted_recalledRow _) (by decide +kernel)
    (by decide +kernel) keepsOrder_morning).mpr (by decide +kernel)

/-- The row of another offset was accessed before both recalls and keeps its stamp. -/
theorem otherOffsetRow_not_folded :
    AdmittedRow (recalledRow "2026-01-01T05:00:00+05:00") ∧
      KeepsOrder morning 3600 86400 (observations morningLedger "m1") ∧
      (∀ seen ∈ stampInstant morning "2026-01-01T05:00:00+05:00", ∀ time ∈ accessTimes morning morningLedger "m1",
        morning.later seen time = false) ∧
      ¬ FoldsLikeTouches 3600 86400 morningClock "m1" (recalledDatabase "2026-01-01T05:00:00+05:00") := by
  refine ⟨admitted_recalledRow _, keepsOrder_morning, by decide +kernel, fun folds => ?_⟩
  have older : ∀ last ∈ (recalledRow "2026-01-01T05:00:00+05:00").lastAccessedAt, _ :=
    (sameAccess_iff rfl (admitted_recalledRow _) (by decide +kernel) (by decide +kernel) keepsOrder_morning).mp
      folds.sameAccess
  exact absurd older (by decide +kernel)

end Samples
end AiMemory.Storage
