import AiMemory.Storage.Burial
import AiMemory.Storage.FoldedTouches
import AiMemory.Storage.WrittenRecords

/-
This file follows the expiry of one row over the writers and shows when a row of the long tier never expires.
-/

namespace AiMemory.Storage
open AiMemory.Crdt AiMemory.Library AiMemory.Machine

section Rows

/-- A row of the long tier that carries an expiry. -/
structure Limited (row : Memory) : Prop where
  long : row.tier = .long
  expires : row.expiresAt ≠ none

/-- The row of the identifier is not limited. -/
def Lasting (id : String) (row : Memory) : Prop := row.id = id → ¬ Limited row

/-- The property holds of the live rows and of the archived ones. -/
structure EveryRow (property : Memory → Prop) (store : Store) : Prop where
  live : ∀ row ∈ store.memories.rows, property row
  archived : ∀ entry ∈ store.archivedMemories, property entry.row

variable {row existing : Memory}

/-- A durable tier is long only where one of the two is. -/
theorem tier_of_durable {stored incoming : Tier} (long : durableTier stored incoming = .long) :
    incoming = .long ∨ stored = .long := by
  cases stored <;> cases incoming <;> simp [durableTier] at long ⊢

/-- Both conflict clauses clear the expiry of a long row. -/
theorem not_limited_storeMerge (existing row : Memory) : ¬ Limited (storeMerge existing row) :=
  fun limited => limited.expires (if_pos (tier_of_durable limited.long))

/-- A row that wins is not limited. -/
theorem not_limited_newerWins (existing row : Memory) : ¬ Limited (newerWins existing row) :=
  fun limited => limited.expires (if_pos (tier_of_durable limited.long))

/-- The default expiry is for the other tiers. -/
theorem effectiveExpiresAt_long (chrono : Chrono) (now : chrono.Instant) (long : row.tier = .long) :
    effectiveExpiresAt chrono now row = row.expiresAt := by
  unfold effectiveExpiresAt
  cases row.expiresAt with
  | some expiresAt => rfl
  | none => simp [long, defaultTtlSecs]

theorem Limited.of_boundRow {env : Environment} {now : env.chrono.Instant} (limited : Limited (boundRow env now row)) :
    Limited row := by
  have long : row.tier = .long := limited.long
  have same := @effectiveExpiresAt_long (redactMemoryForStorage env.redactForStorage row) env.chrono now long
  exact ⟨long, fun absent => limited.expires (same.trans absent)⟩

theorem tier_of_mergeTier {stored incoming : Tier} (long : mergeTier stored incoming = .long) :
    stored = .long ∨ incoming = .long := by
  cases stored <;> cases incoming <;> simp [mergeTier, Tier.rank] at long ⊢

/-- A merged expiry is present only where both are. -/
theorem mergeExpiresAt_isSome {stored incoming : Option String} (present : mergeExpiresAt stored incoming ≠ none) :
    stored ≠ none ∧ incoming ≠ none := by
  cases stored <;> cases incoming <;> simp [mergeExpiresAt] at present ⊢

/-- A merge of two rows is limited where both carry an expiry and one of them is long. -/
theorem Limited.of_mergedRow {env : Environment} {now : env.chrono.Instant} {skewSecs : Int}
    (limited : Limited (mergedRow env now skewSecs existing row)) :
    Limited existing ∨ Limited row ∧ existing.expiresAt ≠ none := by
  obtain ⟨metadata, updatedAt, prepared⟩ := prepareInbound_body env.chrono row (env.chrono.toRfc3339 now) skewSecs
  obtain ⟨long, expires⟩ := limited
  unfold mergedRow at long expires
  simp only [prepared] at long expires
  rw [effectiveExpiresAt_long env.chrono now long, mergeMemory_expiresAt] at expires
  obtain ⟨stored, incoming⟩ := mergeExpiresAt_isSome expires
  rcases tier_of_mergeTier long with here | there
  · exact .inl ⟨here, stored⟩
  · exact .inr ⟨⟨there, incoming⟩, stored⟩

section Accesses

variable {chrono : Chrono} {shortExtend midExtend : Int}

/-- The promotion of an access clears the expiry, and no access extends a long row. -/
theorem limited_of_access {promoted : Prop} [Decidable promoted] {after : Memory} {latest : chrono.Instant}
    (tier : after.tier = if promoted then .long else row.tier)
    (expires : after.expiresAt =
      if promoted then none else extendExpiry chrono shortExtend midExtend latest row.tier row.expiresAt)
    (limited : Limited after) : Limited row := by
  obtain ⟨long, present⟩ := limited
  rw [tier] at long
  rw [expires] at present
  split_ifs at long present
  · exact absurd rfl present
  · rw [long] at present
    exact ⟨long, present⟩

theorem Limited.of_touchRow {now : chrono.Instant}
    (limited : Limited (touchRow chrono shortExtend midExtend now row)) : Limited row :=
  limited_of_access tier_touchRow expiresAt_touchRow limited

theorem Limited.of_foldRow {count : Nat} {latest now : chrono.Instant}
    (limited : Limited (foldRow chrono shortExtend midExtend count latest now row)) : Limited row :=
  limited_of_access tier_foldRow expiresAt_foldRow limited

end Accesses
end Rows

section Stores

variable {property : Memory → Prop} {store written : Store} {row : Memory} {archived : List ArchivedMemory}

/-- What holds of the archive and of the row holds of the archive with the row. -/
theorem archived_archiveRow {archiveReason archivedAt : String} (every : ∀ entry ∈ archived, property entry.row)
    (holds : property row) : ∀ entry ∈ archiveRow archived row archiveReason archivedAt, property entry.row := by
  intro entry present
  rcases List.mem_append.mp present with old | new
  · exact every entry (List.mem_filter.mp old).1
  · rw [List.mem_singleton.mp new]
    exact holds

/-- What holds of every row and of the new one holds after a replacement. -/
theorem live_replace {rows : List Memory} (every : ∀ row ∈ rows, property row) (holds : property row) :
    ∀ other ∈ rows.map fun old => if old.id = row.id then row else old, property other := by
  intro other present
  obtain ⟨old, oldPresent, rfl⟩ := List.mem_map.mp present
  split_ifs with same
  · exact holds
  · exact every old oldPresent

theorem live_append {rows : List Memory} (every : ∀ row ∈ rows, property row) (holds : property row) :
    ∀ other ∈ rows ++ [row], property other := by
  intro other present
  rcases List.mem_append.mp present with old | new
  · exact every other old
  · rw [List.mem_singleton.mp new]
    exact holds

theorem EveryRow.of_found {id : String} (every : EveryRow property store)
    (found : store.memories.find id = some row) : property row :=
  every.live row ((store.memories.find_eq_some_iff _ _).mp found).1

theorem EveryRow.rewriteRow {id : String} {change : Memory → Memory} (every : EveryRow property store)
    (keepsId : ∀ row, (change row).id = row.id) (keepsSlot : ∀ row, slotOf (change row) = slotOf row)
    (kept : ∀ row, property row → property (change row)) :
    EveryRow property (rewriteRow store id change keepsId keepsSlot) := by
  unfold Storage.rewriteRow
  split
  · exact every
  · rename_i existing found
    exact ⟨live_replace every.live (kept existing (every.of_found found)), every.archived⟩

/-- The upsert of a local write leaves its merge or appends its row. -/
theorem EveryRow.upsertStoreMerge {actualId : String} (every : EveryRow property store)
    (merges : ∀ existing, property (storeMerge existing row))
    (fresh : store.memories.find row.id = none → property row)
    (ok : upsertStoreMerge store row = .ok (written, actualId)) : EveryRow property written := by
  obtain ⟨_, ⟨existing, noClash, _, _, _, rfl⟩ | ⟨freshId, freshSlot, _, rfl⟩⟩ := upsertStoreMerge_written ok
  · exact ⟨live_replace every.live (merges existing), every.archived⟩
  · exact ⟨live_append every.live (fresh freshId), every.archived⟩

/-- The upsert of a peer's row leaves its merge or appends its row. -/
theorem EveryRow.upsertNewerWins {actualId : String} (every : EveryRow property store)
    (merges : ∀ existing, property (newerWins existing row))
    (fresh : store.memories.find row.id = none → property row)
    (ok : upsertNewerWins store row = .ok (written, actualId)) : EveryRow property written := by
  obtain ⟨_, ⟨existing, noClash, _, _, _, rfl⟩ | ⟨freshId, freshSlot, _, rfl⟩⟩ := upsertNewerWins_written ok
  · exact ⟨live_replace every.live (merges existing), every.archived⟩
  · exact ⟨live_append every.live (fresh freshId), every.archived⟩

end Stores

section Writers

variable {env : WriterEnvironment} {store written : Store} {row : Memory} {id actualId : String}
  {now : env.chrono.Instant}

/-- An insertion keeps a lasting row. -/
theorem lasting_insert (lasting : EveryRow (Lasting id) store)
    (ungiven : row.id = id → store.memories.find id = none → ¬ Limited row)
    (ok : insert env store row now = .ok (written, actualId)) : EveryRow (Lasting id) written := by
  obtain ⟨_, _, running⟩ := bind_eq_ok.mp ok
  obtain ⟨_, _, upserted⟩ := bind_eq_ok.mp running
  apply lasting.upsertStoreMerge _ _ upserted
  · exact fun existing _ => not_limited_storeMerge existing _
  · intro fresh same limited
    have bound : Limited (boundRow env.toEnvironment now row) := ⟨limited.long, limited.expires⟩
    exact ungiven same (same ▸ fresh) bound.of_boundRow

/-- An inbound copy keeps a lasting row. -/
theorem lasting_insertIfNewer (lasting : EveryRow (Lasting id) store)
    (ungiven : row.id = id → store.memories.find id = none → ¬ Limited row)
    (ok : insertIfNewer env.toEnvironment store row now = .ok (written, actualId)) : EveryRow (Lasting id) written := by
  rcases insertIfNewer_ok ok with ⟨_, rfl, _⟩ | ⟨_, upserted⟩
  · exact lasting
  · apply lasting.upsertNewerWins _ _ upserted
    · exact fun existing _ => not_limited_newerWins existing _
    · exact fun fresh same limited => ungiven same (same ▸ fresh) limited.of_boundRow

/-- An inbound merge keeps a lasting row. -/
theorem lasting_mergeInbound {skewSecs : Int} (lasting : EveryRow (Lasting id) store)
    (ungiven : row.id = id → (∀ live ∈ store.memories.find id, live.expiresAt ≠ none) → ¬ Limited row)
    (ok : mergeInbound env.toEnvironment store row now skewSecs = .ok (written, actualId)) :
    EveryRow (Lasting id) written := by
  rcases mergeInbound_eq_ok ok with ⟨existing, stored, _, mergedId, here, overwritten⟩ | ⟨stored, inserted⟩
  · have old := lasting.of_found stored
    have merged : Lasting id (mergedRow env.toEnvironment now skewSecs existing row) := by
      intro isRow limited
      have existingId : existing.id = id := isRow
      rcases limited.of_mergedRow with kept | ⟨new, expires⟩
      · exact old existingId kept
      · refine ungiven (mergedId.symm.trans existingId) ?_ new
        intro live found
        rw [← existingId, show existing.id = row.id from mergedId, stored] at found
        rw [← Option.some.inj found]
        exact expires
    refine ⟨?_, ?_⟩
    · obtain ⟨noClash, rfl⟩ := overwriteFullRowById_written here overwritten
      exact live_replace lasting.live merged
    · rw [archived_overwriteFullRowById here overwritten]
      exact archived_archiveRow lasting.archived old
  · apply lasting_insertIfNewer lasting _ inserted
    intro same absent
    exact ungiven same fun live found => by simp [absent] at found

/-- An update keeps a lasting row. -/
theorem lasting_update {patch : Patch} {expectedVersion : Option Int} {target : String} {answer : Bool × Bool}
    (lasting : EveryRow (Lasting id) store)
    (ungiven : target = id → ∀ live ∈ store.memories.find id, ¬ Limited live → ¬ Limited (governedRow patch live))
    (ok : updateWithExpectedVersion env store target patch expectedVersion now = .ok (written, answer)) :
    EveryRow (Lasting id) written := by
  obtain ⟨read, readOk, committed⟩ := bind_eq_ok.mp ok
  cases read with
  | none =>
      obtain ⟨rfl, _⟩ := Prod.mk.inj (Except.ok.inj committed)
      exact lasting
  | some existing =>
      have found := readForUpdate_some readOk
      have sameId := ((store.memories.find_eq_some_iff _ _).mp found).2
      rcases commitUpdate_written committed with ⟨_, rfl, _⟩ | ⟨current, noClash, stored, _, _, rfl⟩
      · exact lasting
      · obtain rfl : existing = current := Option.some.inj (found.symm.trans stored)
        have old := lasting.of_found found
        constructor
        · apply live_replace lasting.live
          intro isRow limited
          have existingId : existing.id = id := isRow
          have targetId : target = id := sameId.symm.trans existingId
          exact ungiven targetId existing (targetId ▸ found) (old existingId) ⟨limited.long, limited.expires⟩
        · show ∀ entry ∈ ite _ _ _, _
          split_ifs
          · exact archived_archiveRow lasting.archived old
          · exact lasting.archived

/-- A fold of the accesses keeps a lasting row. -/
theorem lasting_fold {shortExtend midExtend : Int} (clock : FoldClock env.chrono) (ledger : List RecallObservation)
    (lasting : EveryRow (Lasting id) store) :
    EveryRow (Lasting id) (foldRecallAccesses shortExtend midExtend clock ⟨store, ledger⟩).1.store := by
  unfold foldRecallAccesses
  split_ifs
  · exact lasting
  · obtain ⟨roundOf, folded⟩ := (accessDrain shortExtend midExtend clock).run_eq foldChunkMemories (by decide) 0
      ⟨store, ledger⟩
    rw [folded]
    apply @run_invariant_always RecallDatabase AccessGroup _ (fun db => EveryRow (Lasting id) db.store)
    · intro db group every
      apply every.rewriteRow (id_foldRow _ _ _ _ _ _) (slotOf_foldRow _ _ _ _ _ _)
      exact fun row lasts same limited => lasts ((id_foldRow ..).symm.trans same) limited.of_foldRow
    · exact lasting

/-- A touch keeps a lasting row. -/
theorem lasting_touch {shortExtend midExtend : Int} {target : String} (lasting : EveryRow (Lasting id) store) :
    EveryRow (Lasting id) (touch env.chrono shortExtend midExtend now store target) := by
  apply lasting.rewriteRow (id_touchRow _ _ _ _) (slotOf_touchRow _ _ _ _)
  exact fun row lasts same limited => lasts ((id_touchRow ..).symm.trans same) limited.of_touchRow

variable {db changed : Database} {target : String}

/-- An archival keeps a lasting row. -/
theorem lasting_archiveMemory {reason : Option String} {moved : Bool} (lasting : EveryRow (Lasting id) db.toStore)
    (ok : archiveMemory env.chrono db target reason now = .ok (changed, moved)) :
    EveryRow (Lasting id) changed.toStore := by
  rcases archiveMemoryNoTx_eq_ok ok with ⟨_, rfl, _⟩ | ⟨row, _, found, _, rfl⟩
  · exact lasting
  · constructor
    · intro other present
      exact lasting.live other (List.mem_filter.mp present).1
    · exact archived_archiveRow lasting.archived (lasting.of_found found)

/-- A restored row is an archived row with its tier and its expiry. -/
theorem lasting_restoreArchived {restored : Bool} (lasting : EveryRow (Lasting id) db.toStore)
    (ok : restoreArchived env db target now = .ok (changed, restored)) : EveryRow (Lasting id) changed.toStore := by
  rcases restoreArchived_eq_ok ok with ⟨_, rfl, _⟩ | ⟨entry, inserted, _, _, found, _, _, _, insertedOk, _, rfl⟩
  · exact lasting
  · obtain ⟨_, _, _, _, rfl⟩ := plainInsert_written insertedOk
    have old := lasting.archived entry (List.mem_of_find?_eq_some found)
    constructor
    · apply live_append lasting.live
      exact fun same limited => old same ⟨limited.long, limited.expires⟩
    · intro other present
      exact lasting.archived other (List.mem_filter.mp present).1

end Writers

section Sweep

variable {row : Memory} {db : Database} {archive : Bool} {stamp : String}

/-- The row stays live, and nothing is archived or entombed under its identifier. -/
structure KeptBySweep (row : Memory) (before after : Database) : Prop where
  live : row ∈ after.memories.rows
  archived : ∀ entry ∈ after.archivedMemories, entry.row.id = row.id → entry ∈ before.archivedMemories
  entombed : row.id ∈ after.forgetTombstones → row.id ∈ before.forgetTombstones

theorem KeptBySweep.trans {first second third : Database} (early : KeptBySweep row first second)
    (late : KeptBySweep row second third) : KeptBySweep row first third where
  live := late.live
  archived entry present same := early.archived entry (late.archived entry present same) same
  entombed entombed := early.entombed (late.entombed entombed)

/-- An archived row was in the archive or is new. -/
theorem mem_archiveAll {archived : List ArchivedMemory} {rows : List Memory} {reason : String}
    {entry : ArchivedMemory} (present : entry ∈ archiveAll archived rows reason stamp) :
    entry ∈ archived ∨ entry.row ∈ rows := by
  unfold archiveAll at present
  induction rows generalizing archived with
  | nil => exact .inl present
  | cons first rest ih =>
      rcases ih present with here | later
      · rcases List.mem_append.mp here with old | new
        · exact .inl (List.mem_filter.mp old).1
        · rw [List.mem_singleton.mp new]
          exact .inr List.mem_cons_self
      · exact .inr (List.mem_cons_of_mem _ later)

/-- A chunk takes expired rows alone. -/
theorem keptBySweep_gcChunk {next : Database} {deleted : Nat} (stored : row ∈ db.memories.rows)
    (lasts : row.expiresAt = none) (ok : gcChunk db archive stamp = .ok (next, deleted)) : KeptBySweep row db next := by
  have unlisted : ∀ other ∈ gcVictims db stamp, other.id ≠ row.id := by
    intro other listed same
    obtain ⟨present, overdue⟩ := List.mem_filter.mp (List.mem_of_mem_take listed)
    have here : other = row := List.inj_on_of_nodup_map db.memories.uniqueId present stored same
    rw [here, expired, lasts] at overdue
    contradiction
  unfold gcChunk at ok
  generalize gcVictims db stamp = chunk at unlisted ok
  dsimp only at ok
  split at ok
  · obtain ⟨_, deletedOk, done⟩ := map_eq_ok.mp ok
    obtain ⟨rfl, _⟩ := Prod.mk.inj done
    obtain ⟨_, rfl⟩ := deleteFromMemories_eq_ok.mp deletedOk
    have spared : (!isListed chunk row) = true := by simpa [isListed] using unlisted
    cases archive with
    | true =>
        refine ⟨List.mem_filter.mpr ⟨stored, spared⟩, fun entry present same => ?_, fun entombed => entombed⟩
        rcases mem_archiveAll present with old | listed
        · exact old
        · exact absurd same (unlisted entry.row listed)
    | false =>
        refine ⟨List.mem_filter.mpr ⟨stored, spared⟩, fun entry present _ => present, fun entombed => ?_⟩
        rcases mem_addTombstones.mp entombed with old | ⟨other, listed, same⟩
        · exact old
        · exact absurd same (unlisted other listed)
  · cases ok

/-- The rounds of the collection keep a row without an expiry. -/
theorem keptBySweep_gcLoop {rounds total : Nat} (stored : row ∈ db.memories.rows) (lasts : row.expiresAt = none) :
    KeptBySweep row db (gcLoop archive stamp rounds db total).1 := by
  have idle (before : Database) (here : row ∈ before.memories.rows) : KeptBySweep row before before :=
    ⟨here, fun _ present _ => present, fun entombed => entombed⟩
  induction rounds generalizing db total with
  | zero => exact idle db stored
  | succ rounds ih =>
      unfold gcLoop
      cases ok : gcChunk db archive stamp with
      | error error => exact idle db stored
      | ok result =>
          have first := keptBySweep_gcChunk stored lasts ok
          dsimp only
          split_ifs
          · exact first
          · exact first.trans (ih first.live)

end Sweep

section Runs

variable {env : WriterEnvironment}

/-- The calls that write a tier or an expiry. -/
inductive RetentionCall (env : WriterEnvironment) where
  | insert (row : Memory) (now : env.chrono.Instant)
  | update (id : String) (patch : Patch) (expectedVersion : Option Int) (now : env.chrono.Instant)
  | touch (id : String) (shortExtend midExtend : Int) (now : env.chrono.Instant)
  | foldRecallAccesses (ledger : List RecallObservation) (shortExtend midExtend : Int) (clock : FoldClock env.chrono)
  | insertIfNewer (row : Memory) (now : env.chrono.Instant)
  | mergeInbound (row : Memory) (skewSecs : Int) (now : env.chrono.Instant)
  | archive (id : String) (reason : Option String) (now : env.chrono.Instant)
  | restore (id : String) (now : env.chrono.Instant)

/-- A writer of the store commits what it wrote, or fails and leaves the database. -/
def commitStore {Error Answer : Type} (db : Database) : Except Error (Store × Answer) → Database
  | .ok (written, _) => { db with toStore := written }
  | .error _ => db

def commitDatabase {Error Answer : Type} (db : Database) : Except Error (Database × Answer) → Database
  | .ok (written, _) => written
  | .error _ => db

/-- A fold finds the ledger that the recalls have left by then. -/
def retentionStep (db : Database) : RetentionCall env → Database
  | .insert row now => commitStore db (insert env db.toStore row now)
  | .update id patch expectedVersion now =>
      commitStore db (updateWithExpectedVersion env db.toStore id patch expectedVersion now)
  | .touch id shortExtend midExtend now =>
      { db with toStore := touch env.chrono shortExtend midExtend now db.toStore id }
  | .foldRecallAccesses ledger shortExtend midExtend clock =>
      { db with toStore := (foldRecallAccesses shortExtend midExtend clock ⟨db.toStore, ledger⟩).1.store }
  | .insertIfNewer row now => commitStore db (insertIfNewer env.toEnvironment db.toStore row now)
  | .mergeInbound row skewSecs now => commitStore db (mergeInbound env.toEnvironment db.toStore row now skewSecs)
  | .archive id reason now => commitDatabase db (archiveMemory env.chrono db id reason now)
  | .restore id now => commitDatabase db (restoreArchived env db id now)

/-- The caller supplies an expiry with a row that is long or that its patch makes long. A new row takes it, a stored
one takes it from a peer when it carries an expiry itself, and a patch names it. -/
def SuppliesExpiry (id : String) (db : Database) : RetentionCall env → Prop
  | .insert row _ | .insertIfNewer row _ => row.id = id ∧ db.memories.find id = none ∧ Limited row
  | .mergeInbound row _ _ =>
      row.id = id ∧ (∀ live ∈ db.memories.find id, live.expiresAt ≠ none) ∧ Limited row
  | .update target patch _ _ =>
      target = id ∧ patch.expiresAt ≠ none ∧ ∃ live ∈ db.memories.find id, Limited (governedRow patch live)
  | _ => False

/-- A patch without an expiry raises a row to the long tier over the expiry that the row has. -/
def RaisesOverExpiry (id : String) (db : Database) : RetentionCall env → Prop
  | .update target patch _ _ =>
      target = id ∧ patch.expiresAt = none ∧
        ∃ live ∈ db.memories.find id, live.tier ≠ .long ∧ Limited (governedRow patch live)
  | _ => False

theorem everyRow_commitStore {property : Memory → Prop} {Error Answer : Type} {db : Database}
    {result : Except Error (Store × Answer)} (every : EveryRow property db.toStore)
    (kept : ∀ written answer, result = .ok (written, answer) → EveryRow property written) :
    EveryRow property (commitStore db result).toStore := by
  cases result with
  | error refused => exact every
  | ok committed => exact kept committed.1 committed.2 rfl

theorem everyRow_commitDatabase {property : Memory → Prop} {Error Answer : Type} {db : Database}
    {result : Except Error (Database × Answer)} (every : EveryRow property db.toStore)
    (kept : ∀ written answer, result = .ok (written, answer) → EveryRow property written.toStore) :
    EveryRow property (commitDatabase db result).toStore := by
  cases result with
  | error refused => exact every
  | ok committed => exact kept committed.1 committed.2 rfl

/-- A call that gives the row no expiry keeps its copies from being limited. -/
theorem lasting_retentionStep {id : String} {db : Database} {call : RetentionCall env}
    (lasting : EveryRow (Lasting id) db.toStore) (unsupplied : ¬ SuppliesExpiry id db call)
    (unraised : ¬ RaisesOverExpiry id db call) : EveryRow (Lasting id) (retentionStep db call).toStore := by
  cases call with
  | insert row now =>
      apply everyRow_commitStore lasting
      intro written answer ok
      exact lasting_insert lasting (fun same fresh limited => unsupplied ⟨same, fresh, limited⟩) ok
  | insertIfNewer row now =>
      apply everyRow_commitStore lasting
      intro written answer ok
      exact lasting_insertIfNewer lasting (fun same fresh limited => unsupplied ⟨same, fresh, limited⟩) ok
  | mergeInbound row skewSecs now =>
      apply everyRow_commitStore lasting
      intro written answer ok
      exact lasting_mergeInbound lasting (fun same expires limited => unsupplied ⟨same, expires, limited⟩) ok
  | update target patch expectedVersion now =>
      apply everyRow_commitStore lasting
      intro written answer ok
      apply lasting_update lasting _ ok
      intro same live found unlimited limited
      by_cases named : patch.expiresAt = none
      · -- An unnamed expiry is the one that the row had.
        have kept : live.expiresAt ≠ none := by
          have expires := limited.expires
          simp only [governedRow, named] at expires
          exact expires
        exact unraised ⟨same, named, live, found, fun long => unlimited ⟨long, kept⟩, limited⟩
      · exact unsupplied ⟨same, named, live, found, limited⟩
  | touch target shortExtend midExtend now => exact lasting_touch lasting
  | foldRecallAccesses ledger shortExtend midExtend clock => exact lasting_fold clock ledger lasting
  | archive target reason now =>
      apply everyRow_commitDatabase lasting
      intro written answer ok
      exact lasting_archiveMemory lasting ok
  | restore target now =>
      apply everyRow_commitDatabase lasting
      intro written answer ok
      exact lasting_restoreArchived lasting ok

/-- A long row that no call of the run gave an expiry has none, and no sweep removes it, whether the sweep succeeds or
fails at a later chunk. -/
theorem longRow_lasts (start : Database) (id : String) (initially : EveryRow (Lasting id) start.toStore)
    (calls : List (RetentionCall env))
    (ungiven : EveryStep retentionStep
      (fun db call => ¬ SuppliesExpiry id db call ∧ ¬ RaisesOverExpiry id db call) start calls)
    (row : Memory) (stored : (run retentionStep start calls).memories.find id = some row) (long : row.tier = .long) :
    row.expiresAt = none ∧ ∀ archive now,
      KeptBySweep row (run retentionStep start calls) (gc env (run retentionStep start calls) archive now).1 := by
  have lasting : EveryRow (Lasting id) (run retentionStep start calls).toStore := by
    apply @run_invariant Database (RetentionCall env) _ _ (fun db => EveryRow (Lasting id) db.toStore) _ _ _ ungiven
    · exact initially
    · intro db call gives every
      exact lasting_retentionStep every gives.1 gives.2
  obtain ⟨present, sameId⟩ := (KeyedTable.find_eq_some_iff _ _ _).mp stored
  have unlimited : ¬ Limited row := lasting.live row present sameId
  have lasts : row.expiresAt = none := by
    by_contra expires
    exact unlimited ⟨long, expires⟩
  refine ⟨lasts, fun archive now => ?_⟩
  have kept := @keptBySweep_gcLoop row _ archive (env.chrono.toRfc3339 now)
    ((run retentionStep start calls).memories.rows.length + 1) 0 present lasts
  obtain ⟨standards, sweeps⟩ := @gc_sweeps env (run retentionStep start calls) archive now
  rw [sweeps]
  exact ⟨kept.live, kept.archived, kept.entombed⟩

end Runs

section Samples

def longRow (expiresAt : Option String) : Memory :=
  { Memory.base "peer-id" "2026-06-16T10:00:00+00:00" with tier := .long, expiresAt := expiresAt }

/-- A row is stored and touched once. -/
def shortLife (expiresAt : Option String) : List (RetentionCall openWriterEnvironment) :=
  [.insert (longRow expiresAt) (0 : Int), .touch "peer-id" 3600 86400 (0 : Int)]

/-- The row that the short life leaves. -/
def touchedRow (expiresAt : Option String) : Memory :=
  { longRow expiresAt with
    cid := some "peer-id"
    accessCount := 1
    lastAccessedAt := some "2026-06-16T10:00:00+00:00" }

/-- The touched row is archived and restored, and its tier is named once more. -/
def longLife : List (RetentionCall openWriterEnvironment) :=
  shortLife none ++ [.archive "peer-id" none (0 : Int), .restore "peer-id" (0 : Int),
    .update "peer-id" promotionPatch none (0 : Int)]

theorem plainLongRow_lasts : ∃ row, (run retentionStep emptyDatabase longLife).memories.find "peer-id" = some row ∧
    row.expiresAt = none ∧ ∀ archive now, KeptBySweep row (run retentionStep emptyDatabase longLife)
      (gc openWriterEnvironment (run retentionStep emptyDatabase longLife) archive now).1 := by
  refine ⟨_, rfl, longRow_lasts emptyDatabase "peer-id" ?_ longLife ?_ _ rfl rfl⟩
  · exact ⟨fun _ present => absurd present List.not_mem_nil, fun _ present => absurd present List.not_mem_nil⟩
  · refine ⟨⟨fun supplies => supplies.2.2.expires rfl, id⟩, ⟨id, id⟩, ⟨id, id⟩, ⟨id, id⟩, ⟨?_, ?_⟩, trivial⟩
    · rintro ⟨_, _, live, _, limited⟩
      exact limited.expires rfl
    · rintro ⟨_, unnamed, _⟩
      cases unnamed

/-- The caller's expiry stands, and the sweep after it removes the row. -/
theorem limitedRow_removed :
    (run retentionStep emptyDatabase (shortLife (some "2026-06-16T10:05:00+00:00"))).memories.find "peer-id" =
        some (touchedRow (some "2026-06-16T10:05:00+00:00")) ∧
      (touchedRow (some "2026-06-16T10:05:00+00:00")).tier = .long ∧
      (touchedRow (some "2026-06-16T10:05:00+00:00")).expiresAt ≠ none ∧
      ∃ swept, gc openWriterEnvironment
          (run retentionStep emptyDatabase (shortLife (some "2026-06-16T10:05:00+00:00"))) true (86400 : Int) =
            (swept, .ok 1) ∧ swept.memories.find "peer-id" = none := by
  refine ⟨rfl, rfl, by simp [touchedRow, longRow], _, rfl, rfl⟩

end Samples
end AiMemory.Storage
