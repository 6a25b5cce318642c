import AiMemory.Library.Run
import AiMemory.Storage.MergeInbound

/-
This file decides when a peer can post-date a row beyond the freshness ceiling.
-/

namespace AiMemory.Storage
open AiMemory.Crdt AiMemory.Library AiMemory.Machine

section Writers

variable {env : Environment} {store written : Store} {row : Memory} {id : String}

/-- A successful overwrite replaces the stored row and puts it into the archive. -/
theorem overwriteFullRowById_written {now : env.chrono.Instant} {existing : Memory}
    (found : store.memories.find row.id = some existing)
    (ok : overwriteFullRowById env store row now = .ok written) :
    let merged := { row with expiresAt := effectiveExpiresAt env.chrono now row, cid := existing.cid }
    ∃ noClash, written = { store with
      memories := store.memories.replace merged noClash
      archivedMemories := store.archivedMemories.filter (fun archived => archived.row.id ≠ row.id) ++
        [⟨existing, "federation_merge", env.chrono.toRfc3339 now⟩] } := by
  rw [overwriteFullRowById, found] at ok
  dsimp only at ok
  split at ok
  · contradiction
  · split_ifs at ok with noClash
    exact ⟨noClash, (Except.ok.inj ok).symm⟩

/-- A successful overwrite changes the row of its identifier alone. -/
theorem find_overwriteFullRowById {now : env.chrono.Instant} {existing : Memory}
    (found : store.memories.find row.id = some existing)
    (ok : overwriteFullRowById env store row now = .ok written) (query : String) :
    written.memories.find query =
      if query = row.id then
        some { row with expiresAt := effectiveExpiresAt env.chrono now row, cid := existing.cid }
      else store.memories.find query := by
  obtain ⟨noClash, rfl⟩ := overwriteFullRowById_written found ok
  exact KeyedTable.find_replace_stored (by exact found) noClash query

/-- A successful upsert replaces the row of the slot with its merge, or appends a row of two free keys. -/
theorem upsertNewerWins_written (ok : upsertNewerWins store row = .ok (written, id)) :
    checkConstraints row = none ∧
      ((∃ existing noClash, store.memories.findSlot (slotOf row) = some existing ∧ id = existing.id ∧
          checkConstraints (newerWins existing row) = none ∧
          written = { store with memories := store.memories.replace (newerWins existing row) noClash }) ∨
        ∃ freshId freshSlot, id = row.id ∧
          written = { store with memories := store.memories.append row freshId freshSlot }) := by
  unfold upsertNewerWins at ok
  split at ok
  · contradiction
  · rename_i checked
    refine ⟨checked, ?_⟩
    split at ok
    · rename_i existing found
      dsimp only at ok
      split at ok
      · contradiction
      · rename_i merges
        obtain ⟨rfl, rfl⟩ := Prod.mk.inj (Except.ok.inj ok)
        exact .inl ⟨existing, newerWins_noClash found, found, rfl, merges, rfl⟩
    · rename_i free
      split at ok
      · contradiction
      · rename_i fresh
        obtain ⟨rfl, rfl⟩ := Prod.mk.inj (Except.ok.inj ok)
        exact .inr ⟨fresh, free, rfl, rfl⟩

/-- The row of a slot is the only one with its identifier. -/
theorem find_of_findSlot {slot : String × String} {existing : Memory}
    (found : store.memories.findSlot slot = some existing) : store.memories.find existing.id = some existing :=
  (store.memories.find_eq_some_iff _ _).mpr ⟨((store.memories.findSlot_eq_some_iff _ _).mp found).1, rfl⟩

/-- A successful upsert merges into the row of the slot, or appends a row of a new identifier. -/
theorem find_upsertNewerWins (ok : upsertNewerWins store row = .ok (written, id)) :
    (∃ existing, store.memories.findSlot (slotOf row) = some existing ∧ id = existing.id ∧
        ∀ query, written.memories.find query =
          if query = id then some (newerWins existing row) else store.memories.find query) ∨
      (store.memories.findSlot (slotOf row) = none ∧ store.memories.find row.id = none ∧
        id = row.id ∧ ∀ query, written.memories.find query =
          if query = id then some row else store.memories.find query) := by
  obtain ⟨_, ⟨existing, noClash, found, rfl, _, rfl⟩ | ⟨fresh, free, rfl, rfl⟩⟩ := upsertNewerWins_written ok
  · have stored : store.memories.find (newerWins existing row).id = some existing := find_of_findSlot found
    exact .inl ⟨existing, found, rfl, KeyedTable.find_replace_stored stored noClash⟩
  · exact .inr ⟨free, fresh, rfl, KeyedTable.find_append _ _ fresh free⟩

/-- A successful insertion writes nothing for a forgotten row and upserts any other one. -/
theorem insertIfNewer_ok {now : env.chrono.Instant}
    (ok : insertIfNewer env store row now = .ok (written, id)) :
    (row.id ∈ store.forgetTombstones ∧ written = store ∧ id = row.id) ∨
      row.id ∉ store.forgetTombstones ∧ upsertNewerWins store (boundRow env now row) = .ok (written, id) := by
  unfold insertIfNewer at ok
  split at ok
  · contradiction
  · split at ok
    · contradiction
    · split_ifs at ok with forgotten
      · obtain ⟨rfl, rfl⟩ := Prod.mk.inj (Except.ok.inj ok)
        exact .inl ⟨forgotten, rfl, rfl⟩
      · exact .inr ⟨forgotten, ok⟩

/-- A successful merge overwrites the row of its identifier, or it inserts a row whose identifier is free. -/
theorem mergeInbound_eq_ok {now : env.chrono.Instant} {skewSecs : Int}
    (ok : mergeInbound env store row now skewSecs = .ok (written, id)) :
    (∃ existing, store.memories.find row.id = some existing ∧
        let merged := mergeMemory existing (prepareInbound env.chrono row (env.chrono.toRfc3339 now) skewSecs)
        id = merged.id ∧ merged.id = row.id ∧ store.memories.find merged.id = some existing ∧
          overwriteFullRowById env store merged now = .ok written) ∨
      store.memories.find row.id = none ∧ insertIfNewer env store row now = .ok (written, id) := by
  unfold mergeInbound at ok
  cases stored : store.memories.find row.id with
  | some existing =>
      simp only [stored] at ok
      obtain ⟨result, overwritten, same⟩ := map_eq_ok.mp ok
      obtain ⟨rfl, rfl⟩ := Prod.mk.inj same
      have sameId : existing.id = row.id := ((store.memories.find_eq_some_iff _ _).mp stored).2
      have mergedId : (mergeMemory existing
          (prepareInbound env.chrono row (env.chrono.toRfc3339 now) skewSecs)).id = row.id := by
        rw [mergeMemory_id, sameId]
      exact .inl ⟨existing, rfl, rfl, mergedId, (congrArg store.memories.find mergedId).trans stored, overwritten⟩
  | none =>
      simp only [stored] at ok
      exact .inr ⟨rfl, ok⟩

end Writers

section Bound

variable (env : Environment) (store : Store) (inbound : Memory) (now : env.chrono.Instant)
  (skewSecs : Int)

/-- The inbound row lands on the row of its identifier, or else on the row of its slot. -/
def landingRow : Option Memory :=
  (store.memories.find inbound.id).or
    (store.memories.findSlot (slotOf (boundRow env now inbound)))

/-- The bound is the ceiling, or the time that the row already had. -/
def postdatingBound (previous : Option Memory) (ceilingText : String) : String :=
  match previous with
  | some row => max row.updatedAt ceilingText
  | none => ceilingText

variable {env store inbound now skewSecs} {written : Store} {id : String} {row : Memory}

/-- The written row keeps or raises the time of the row it lands on. -/
theorem mergeInbound_updatedAt (ok : mergeInbound env store inbound now skewSecs = .ok (written, id))
    (affected : written.memories.find id = some row) :
    store.memories.find id = landingRow env store inbound now ∧
      row.updatedAt =
        match store.memories.find inbound.id, landingRow env store inbound now with
        | some existing, _ => max existing.updatedAt
            (prepareInbound env.chrono inbound (env.chrono.toRfc3339 now) skewSecs).updatedAt
        | none, some existing => max existing.updatedAt inbound.updatedAt
        | none, none => inbound.updatedAt := by
  unfold landingRow
  rcases mergeInbound_eq_ok ok with ⟨existing, stored, rfl, _, here, overwritten⟩ | ⟨stored, inserted⟩
  · rw [stored]
    rw [find_overwriteFullRowById here overwritten, if_pos rfl] at affected
    obtain rfl := Option.some.inj affected
    exact ⟨here, mergeMemory_updatedAt_max _ _⟩
  · rw [stored]
    rcases insertIfNewer_ok inserted with ⟨_, rfl, rfl⟩ | ⟨_, upserted⟩
    · rw [stored] at affected
      contradiction
    · rcases find_upsertNewerWins upserted with
        ⟨existing, found, rfl, lookups⟩ | ⟨free, fresh, rfl, lookups⟩
      · have present := ((store.memories.findSlot_eq_some_iff _ _).mp found).1
        rw [lookups, if_pos rfl] at affected
        obtain rfl := Option.some.inj affected
        rw [found]
        exact ⟨(store.memories.find_eq_some_iff _ _).mpr ⟨present, rfl⟩, larger_eq_max _ _⟩
      · rw [lookups, if_pos rfl] at affected
        obtain rfl := Option.some.inj affected
        rw [free]
        exact ⟨fresh, rfl⟩

/-- A peer stays under the bound exactly when its text already does, or when the cap applies to it. -/
theorem mergeInbound_bounded_iff {clock updated : env.chrono.Instant}
    (ok : mergeInbound env store inbound now skewSecs = .ok (written, id))
    (affected : written.memories.find id = some row)
    (nowParses : env.chrono.parseFromRfc3339 (env.chrono.toRfc3339 now) = some clock)
    (updatedParses : env.chrono.parseFromRfc3339 inbound.updatedAt = some updated) :
    let ceiling := env.chrono.addSeconds clock skewSecs
    let ceilingText := env.chrono.toRfc3339 ceiling
    row.updatedAt ≤ postdatingBound (store.memories.find id) ceilingText ↔
      inbound.updatedAt ≤ postdatingBound (landingRow env store inbound now) ceilingText ∨
        ((store.memories.find inbound.id).isSome ∧ env.chrono.later updated ceiling) := by
  intro ceiling ceilingText
  obtain ⟨lands, time⟩ := mergeInbound_updatedAt ok affected
  rw [lands, time]
  cases stored : store.memories.find inbound.id with
  | some existing =>
      have landing : landingRow env store inbound now = some existing := by simp [landingRow, stored]
      have prepared : (prepareInbound env.chrono inbound (env.chrono.toRfc3339 now) skewSecs).updatedAt =
          if env.chrono.later updated ceiling then ceilingText else inbound.updatedAt := by
        have clamped := updatedAt_clampInboundUpdatedAt env.chrono
          (sanitizeInboundAttestation inbound) (env.chrono.toRfc3339 now) skewSecs nowParses
          (by simpa using updatedParses)
        rw [updatedAt_sanitizeInboundAttestation] at clamped
        exact clamped
      simp only [landing, postdatingBound, prepared, max_le_iff, le_max_left, true_and,
        Option.isSome_some]
      by_cases capped : env.chrono.later updated ceiling <;> simp [capped]
  | none =>
      cases landingRow env store inbound now <;>
        simp only [postdatingBound, max_le_iff, le_max_left, true_and, Option.isSome_none,
          Bool.false_eq_true, false_and, or_false]

end Bound

/-- The calendar knows the texts of one postdated delivery. -/
def postdatedClock : Chrono :=
  Chrono.ofTable [("2026-06-16T10:00:00+00:00", 0), ("2026-06-16T10:05:00+00:00", 300),
    ("2026-06-17T10:00:00+00:00", 86400)]

/-- The process installs no hook and masks nothing. -/
def openEnvironment : Environment where
  chrono := postdatedClock
  governancePreWrite _ := none
  redactForStorage _ := none
  stampMemoryCid row := row.id

def emptyStore : Store := ⟨KeyedTable.empty, [], [], none⟩

/-- The row is stamped one day ahead of the receiver. -/
def postdatedRow : Memory :=
  { Memory.base "peer-id" "2026-06-17T10:00:00+00:00" with expiresAt := some "2026-07-16" }

/-- The receiver already holds a row of the peer's identifier. -/
def seededStore : Store :=
  ⟨KeyedTable.empty.append (Memory.base "peer-id" "2026-06-16T10:00:00+00:00") rfl rfl, [], [], none⟩

/-- The cap holds a stored row under the ceiling. -/
theorem storedRow_bounded :
    ∃ written row, mergeInbound openEnvironment seededStore postdatedRow (0 : Int) 300 =
        .ok (written, "peer-id") ∧ written.memories.find "peer-id" = some row ∧
      row.updatedAt ≤ postdatingBound (seededStore.memories.find "peer-id")
          (postdatedClock.toRfc3339 (postdatedClock.addSeconds (0 : Int) 300)) := by
  refine ⟨_, _, rfl, rfl, ?_⟩
  exact (@mergeInbound_bounded_iff openEnvironment seededStore postdatedRow (0 : Int) 300 _ _ _
    (0 : Int) (86400 : Int) rfl rfl rfl rfl).mpr (.inr ⟨rfl, rfl⟩)

/-- The receiver stores a new row with the time of the next day. -/
theorem freshRow_exceeds_ceiling :
    ∃ written row, mergeInbound openEnvironment emptyStore postdatedRow (0 : Int) 300 =
        .ok (written, "peer-id") ∧ written.memories.find "peer-id" = some row ∧
      ¬ row.updatedAt ≤ postdatingBound (emptyStore.memories.find "peer-id")
          (postdatedClock.toRfc3339 (postdatedClock.addSeconds (0 : Int) 300)) := by
  refine ⟨_, boundRow openEnvironment (0 : Int) postdatedRow, rfl, ?_, ?_⟩
  · rfl
  · decide

end AiMemory.Storage
