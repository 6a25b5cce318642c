import AiMemory.Storage.ActionEffect
import AiMemory.Storage.Columns

/-
This file follows a forgotten identifier through the calls that write rows, and into the graveyard in the first place.
-/

namespace AiMemory.Storage
open AiMemory.Crdt AiMemory.Library AiMemory.Machine

/-- A buried identifier has a tombstone and no live row. -/
structure Buried (id : String) (store : Store) : Prop where
  forgotten : id ∈ store.forgetTombstones
  absent : store.memories.find id = none

section Rows

variable {store written : Store} {row : Memory} {id actualId : String}

theorem Buried.apart (buried : Buried id store) {other : String} (live : store.memories.find other = some row) :
    other ≠ id := by
  rintro rfl
  cases live.symm.trans buried.absent

theorem Buried.apart_slot (buried : Buried id store) {slot : String × String}
    (found : store.memories.findSlot slot = some row) : row.id ≠ id :=
  buried.apart (find_of_findSlot found)

/-- A write of one row of another identifier leaves the grave. -/
theorem Buried.wrote (buried : Buried id store) (tombstones : written.forgetTombstones = store.forgetTombstones)
    (lookups : ∀ query, written.memories.find query =
      if query = actualId then some row else store.memories.find query) (apart : actualId ≠ id) :
    Buried id written where
  forgotten := tombstones ▸ buried.forgotten
  absent := by
    rw [lookups, if_neg apart.symm]
    exact buried.absent

/-- A rewrite keeps a buried identifier buried. -/
theorem Buried.rewriteRow (buried : Buried id store) (other : String) (change : Memory → Memory)
    (keepsId : ∀ row, (change row).id = row.id) (keepsSlot : ∀ row, slotOf (change row) = slotOf row) :
    Buried id (rewriteRow store other change keepsId keepsSlot) where
  forgotten := by
    unfold Storage.rewriteRow
    split <;> exact buried.forgotten
  absent := by
    rw [find_rewriteRow, buried.absent]
    rfl

/-- A deletion keeps a buried identifier buried. -/
theorem Buried.deleteMemories {db : Database} (buried : Buried id db.toStore) (doomed : Memory → Bool) :
    Buried id (deleteMemories db doomed).toStore where
  forgotten := buried.forgotten
  absent := by
    change (db.memories.retain _).find id = none
    rw [KeyedTable.find_retain, buried.absent]
    rfl

end Rows

section Local

variable {env : WriterEnvironment} {store written : Store} {row : Memory} {id actualId : String}
  {now : env.chrono.Instant}

/-- A plain insertion keeps another identifier buried. -/
theorem buried_plainInsert {clash : StorageError} (buried : Buried id store)
    (ok : plainInsert store row clash = .ok (written, actualId)) (apart : row.id ≠ id) : Buried id written := by
  obtain ⟨_, fresh, free, _, rfl⟩ := plainInsert_written ok
  exact @Buried.wrote store _ row id row.id buried rfl (KeyedTable.find_append _ _ fresh free) apart

/-- An insertion under another identifier lands on a live row or appends its own. -/
theorem buried_insert (buried : Buried id store) (ok : insert env store row now = .ok (written, actualId))
    (apart : row.id ≠ id) : Buried id written := by
  obtain ⟨_, _, ungated⟩ := bind_eq_ok.mp ok
  obtain ⟨_, _, upserted⟩ := bind_eq_ok.mp ungated
  obtain ⟨_, ⟨existing, noClash, taken, _, _, rfl⟩ | ⟨fresh, free, _, rfl⟩⟩ := upsertStoreMerge_written upserted
  · have stored : store.memories.find (storeMerge existing (localRow env row now)).id = some existing :=
      find_of_findSlot taken
    have apartSlot : existing.id ≠ id := buried.apart_slot taken
    exact buried.wrote rfl (KeyedTable.find_replace_stored stored noClash) apartSlot
  · exact @Buried.wrote store _ (localRow env row now) id row.id buried rfl
      (KeyedTable.find_append _ _ fresh free) apart

/-- An insertion keeps another identifier buried. -/
theorem buried_insertWithConflict_error (buried : Buried id store)
    (ok : insertWithConflict env store row now .error = .ok (written, actualId)) (apart : row.id ≠ id) :
    Buried id written := by
  obtain ⟨_, _, ungated⟩ := bind_eq_ok.mp ok
  obtain ⟨_, _, admitted⟩ := bind_eq_ok.mp ungated
  split at admitted
  · contradiction
  · exact buried_plainInsert buried admitted apart

/-- An update writes the row that it reads. -/
theorem buried_update {other : String} {patch : Patch} {expectedVersion : Option Int} {result : Bool × Bool}
    (buried : Buried id store)
    (ok : updateWithExpectedVersion env store other patch expectedVersion now = .ok (written, result)) :
    Buried id written := by
  have tombstones : written.forgetTombstones = store.forgetTombstones := by
    obtain ⟨read, _, committed⟩ := bind_eq_ok.mp ok
    cases read with
    | none => rw [(Prod.mk.inj (Except.ok.inj committed)).1]
    | some existing =>
        rcases commitUpdate_written committed with ⟨_, rfl, _⟩ | ⟨_, _, _, _, _, rfl⟩
        · rfl
        · rfl
  rcases updateWithExpectedVersion_ok ok with ⟨_, rfl⟩ | ⟨live, _, stored, _, _, lookups, _⟩
  · exact buried
  · exact buried.wrote tombstones lookups (buried.apart stored)

end Local

section Inbound

variable {env : Environment} {store written : Store} {inbound : Memory} {id actualId : String}
  {now : env.chrono.Instant}

/-- The tombstone is asked before the upsert. -/
theorem buried_insertIfNewer (buried : Buried id store)
    (ok : insertIfNewer env store inbound now = .ok (written, actualId)) : Buried id written := by
  rcases insertIfNewer_ok ok with ⟨_, rfl, _⟩ | ⟨unforgotten, upserted⟩
  · exact buried
  · obtain ⟨_, ⟨existing, noClash, found, _, _, rfl⟩ | ⟨fresh, free, _, rfl⟩⟩ := upsertNewerWins_written upserted
    · have stored : store.memories.find (newerWins existing (boundRow env now inbound)).id = some existing :=
        find_of_findSlot found
      have apartSlot : existing.id ≠ id := buried.apart_slot found
      exact buried.wrote rfl (KeyedTable.find_replace_stored stored noClash) apartSlot
    · have apart : inbound.id ≠ id := by
        rintro rfl
        exact unforgotten buried.forgotten
      exact @Buried.wrote store _ (boundRow env now inbound) id inbound.id buried rfl
        (KeyedTable.find_append _ _ fresh free) apart

/-- The merge by identifier needs a live row, and every other row asks the tombstone. -/
theorem buried_mergeInbound {skewSecs : Int} (buried : Buried id store)
    (ok : mergeInbound env store inbound now skewSecs = .ok (written, actualId)) : Buried id written := by
  rcases mergeInbound_eq_ok ok with ⟨existing, _, _, _, here, overwritten⟩ | ⟨_, inserted⟩
  · obtain ⟨noClash, rfl⟩ := overwriteFullRowById_written here overwritten
    exact buried.wrote rfl (find_overwriteFullRowById here overwritten) (buried.apart here)
  · exact buried_insertIfNewer buried inserted

/-- A forgotten row that has no live copy changes nothing. -/
theorem insertIfNewer_buried (buried : Buried inbound.id store)
    (ok : insertIfNewer env store inbound now = .ok (written, actualId)) : written = store ∧ actualId = inbound.id := by
  rcases insertIfNewer_ok ok with ⟨_, same, sameId⟩ | ⟨unforgotten, _⟩
  · exact ⟨same, sameId⟩
  · exact absurd buried.forgotten unforgotten

/-- The inbound copy of a buried memory changes nothing. -/
theorem mergeInbound_buried {skewSecs : Int} (buried : Buried inbound.id store)
    (ok : mergeInbound env store inbound now skewSecs = .ok (written, actualId)) :
    written = store ∧ actualId = inbound.id := by
  unfold mergeInbound at ok
  rw [buried.absent] at ok
  exact insertIfNewer_buried buried ok

end Inbound

section Moves

variable {env : WriterEnvironment} {db : Database} {id other : String} {now : env.chrono.Instant}

/-- A deletion of another memory keeps the identifier buried. -/
theorem buried_delete (buried : Buried id db.toStore) : Buried id (delete db other).1.toStore := by
  cases outcome : delete db other with
  | mk left answer =>
      cases answer with
      | error error =>
          obtain ⟨_, rfl⟩ := delete_eq_error outcome
          exact buried
      | ok found =>
          obtain ⟨_, _, _, rfl⟩ := delete_eq_ok outcome
          exact @Buried.deleteMemories id { db with namespaceMeta := dropStandard db.namespaceMeta other } buried _

/-- An archival keeps the identifier buried. -/
theorem buried_archive {archived : Database} {reason : Option String} {stamp : String} {moved : Bool}
    (buried : Buried id db.toStore) (ok : archiveMemoryNoTx db other reason stamp = .ok (archived, moved)) :
    Buried id archived.toStore := by
  rcases archiveMemoryNoTx_eq_ok ok with ⟨_, rfl, _⟩ | ⟨row, _, _, _, rfl⟩
  · exact buried
  · apply Buried.deleteMemories
    exact ⟨buried.forgotten, buried.absent⟩

/-- A restore brings back its own identifier alone. -/
theorem buried_restore {restored : Database} {moved : Bool} (buried : Buried id db.toStore)
    (ok : restoreArchived env db other now = .ok (restored, moved)) (apart : other ≠ id) :
    Buried id restored.toStore := by
  rcases restoreArchived_eq_ok ok with ⟨_, rfl, _⟩ | ⟨entry, inserted, _, _, _, entryId, _, _, insertedOk, _, rfl⟩
  · exact buried
  · have kept := buried_plainInsert buried insertedOk (by exact entryId ▸ apart)
    exact ⟨kept.forgotten, kept.absent⟩

/-- A namespace standard keeps the identifier buried. -/
theorem buried_setNamespaceStandard {«namespace» stamp : String} {parent : Option String} {standard : Database}
    (buried : Buried id db.toStore) (ok : setNamespaceStandard db «namespace» other parent stamp = .ok standard) :
    Buried id standard.toStore := by
  unfold setNamespaceStandard at ok
  split_ifs at ok
  rw [← Except.ok.inj ok]
  exact buried

theorem buried_clearNamespaceStandard {«namespace» : String} (buried : Buried id db.toStore) :
    Buried id (clearNamespaceStandard db «namespace»).1.toStore := buried

end Moves

section Actions

variable {env : GovernanceEnvironment} {db : Database} {id newId : String} {now : env.chrono.Instant}

/-- A promotion keeps the identifier buried. -/
theorem buried_promoteToNamespace {sourceId toNamespace : String} (buried : Buried id db.toStore)
    (apart : newId ≠ id) :
    Buried id (promoteToNamespace env.toWriterEnvironment db sourceId toNamespace newId now).1.toStore := by
  rcases promoteToNamespace_cases env.toWriterEnvironment db sourceId toNamespace newId now with
    same | ⟨_, inserted, _, _, _, _, insertedOk, linking⟩
  · rw [same]
    exact buried
  · have cloned := buried_insert buried insertedOk apart
    rcases linking with unlinked | linkedOk
    · rw [unlinked]
      exact cloned
    · rw [toStore_createLink linkedOk]
      exact cloned

/-- A reflection keeps the identifier buried. -/
theorem buried_reflect {input : ReflectInput} {reflected : Database} {actualId : String}
    (buried : Buried id db.toStore) (ok : reflect env db input newId now = .ok (reflected, actualId))
    (apart : newId ≠ id) : Buried id reflected.toStore := by
  obtain ⟨_, _, _, _, _, _, inserted, insertedOk, linkedOk⟩ := reflect_eq_ok ok
  rw [toStore_linkSources linkedOk]
  exact buried_insertWithConflict_error buried insertedOk apart

/-- An approved action stores its row under the fresh identifier. -/
theorem buried_performAction {action : PendingAction} (buried : Buried id db.toStore) (apart : newId ≠ id) :
    Buried id (performAction env db action newId now).1.toStore := by
  rcases performAction_cases env db action newId now with
    same | ⟨_, inserted, _, _, _, insertedOk, done⟩ | ⟨_, _, _, done⟩ |
      ⟨_, _, _, _, _, done⟩ | ⟨_, updated, _, _, _, _, updatedOk, done⟩ | ⟨_, reflected, _, _, _, reflectedOk, done⟩
  · rw [same]
    exact buried
  all_goals rw [done]
  · exact buried_insert buried insertedOk apart
  · exact buried_delete buried
  · exact buried_promoteToNamespace buried apart
  · exact buried_update buried updatedOk
  · exact buried_reflect buried reflectedOk apart

end Actions

section Graves

variable {env : WriterEnvironment}

/-- The tombstones are the old ones and one for each row. -/
theorem mem_addTombstones {tombstones : List String} {rows : List Memory} {id : String} :
    id ∈ addTombstones tombstones rows ↔ id ∈ tombstones ∨ ∃ row ∈ rows, row.id = id := by
  unfold addTombstones
  induction rows generalizing tombstones with
  | nil => simp
  | cons row rest ih =>
      rw [List.foldl_cons, ih]
      split_ifs with known
      · constructor
        · rintro (old | ⟨other, later, same⟩)
          · exact .inl old
          · exact .inr ⟨other, List.mem_cons_of_mem _ later, same⟩
        · rintro (old | ⟨other, present, rfl⟩)
          · exact .inl old
          · rcases List.mem_cons.mp present with rfl | later
            · exact .inl known
            · exact .inr ⟨other, later, rfl⟩
      · constructor
        · rintro (old | ⟨other, later, same⟩)
          · rcases List.mem_append.mp old with older | head
            · exact .inl older
            · exact .inr ⟨row, List.mem_cons_self, (List.mem_singleton.mp head).symm⟩
          · exact .inr ⟨other, List.mem_cons_of_mem _ later, same⟩
        · rintro (old | ⟨other, present, rfl⟩)
          · exact .inl (List.mem_append_left _ old)
          · rcases List.mem_cons.mp present with rfl | later
            · exact .inl (List.mem_append_right _ (List.mem_singleton_self _))
            · exact .inr ⟨other, later, rfl⟩

/-- Every row that went since the start has a tombstone. -/
def Entombs (start : Store) (store : Store) : Prop :=
  ∀ id, (start.memories.find id).isSome → store.memories.find id = none → id ∈ store.forgetTombstones

/-- A deletion that entombs its victims entombs the rows that go. -/
theorem entombs_deleteMemories {start : Store} {db : Database} (entombs : Entombs start db.toStore)
    {doomed : Memory → Bool} {rows : List Memory}
    (victims : ∀ row ∈ db.memories.rows, doomed row = true → ∃ victim ∈ rows, victim.id = row.id) :
    Entombs start
      (deleteMemories { db with forgetTombstones := addTombstones db.forgetTombstones rows } doomed).toStore := by
  intro id live gone
  change id ∈ addTombstones db.forgetTombstones rows
  rw [mem_addTombstones]
  cases found : db.memories.find id with
  | none => exact .inl (entombs id live found)
  | some row =>
      obtain ⟨present, rfl⟩ := (db.memories.find_eq_some_iff _ _).mp found
      change (db.memories.retain fun row => !doomed row).find row.id = none at gone
      rw [KeyedTable.find_retain, found, Option.filter_some] at gone
      refine .inr (victims row present ?_)
      by_contra spared
      simp [spared] at gone

/-- The calls that leave tombstones: a forget, and the evictions that do not archive. -/
inductive Burial (env : WriterEnvironment) where
  | forget («namespace» pattern : Option String) (tier : Option Tier) (archive : Bool) (now : env.chrono.Instant)
  | gc (now : env.chrono.Instant)
  | sizeGc («namespace» : String) (maxCorpusBytes : Int) (now : env.chrono.Instant)

/-- The database that the call has committed, also when it fails. -/
def bury (db : Database) : Burial env → Database
  | .forget «namespace» pattern tier archive now =>
      ((forget env db «namespace» pattern tier archive now).map (·.1)).toOption.getD db
  | .gc now => (gc env db false now).1
  | .sizeGc «namespace» maxCorpusBytes now => (sizeGc env db «namespace» maxCorpusBytes false now).1

theorem entombs_refl (store : Store) : Entombs store store := by
  intro id live gone
  rw [gone] at live
  contradiction

/-- A chunk of the collection entombs what it deletes. -/
theorem entombs_gcChunk {start : Store} {stamp : String} {db next : Database} {deleted : Nat}
    (entombs : Entombs start db.toStore) (ok : gcChunk db false stamp = .ok (next, deleted)) :
    Entombs start next.toStore := by
  unfold gcChunk at ok
  dsimp only at ok
  split at ok
  · obtain ⟨_, deletedOk, done⟩ := map_eq_ok.mp ok
    obtain ⟨rfl, _⟩ := Prod.mk.inj done
    obtain ⟨_, rfl⟩ := deleteFromMemories_eq_ok.mp deletedOk
    refine entombs_deleteMemories entombs fun row _ doomed => ?_
    obtain ⟨victim, taken, same⟩ := List.any_eq_true.mp doomed
    exact ⟨victim, taken, of_decide_eq_true same⟩
  · cases ok

/-- The chunks that succeed leave their tombstones, also when a later one fails. -/
theorem entombs_gcLoop {start : Store} (stamp : String) (rounds : Nat) {db : Database} (total : Nat)
    (entombs : Entombs start db.toStore) : Entombs start (gcLoop false stamp rounds db total).1.toStore := by
  induction rounds generalizing db total with
  | zero => exact entombs
  | succ rounds ih =>
      unfold gcLoop
      cases ok : gcChunk db false stamp with
      | error error => exact entombs
      | ok result =>
          have chunk := entombs_gcChunk entombs ok
          dsimp only
          split_ifs
          · exact chunk
          · exact ih _ chunk

/-- An eviction entombs its victim. -/
theorem entombs_evictVictim {start : Store} {stamp : String} {db next : Database} {victim : Memory}
    (entombs : Entombs start db.toStore) (ok : evictVictim db victim false stamp = .ok next) :
    Entombs start next.toStore := by
  unfold evictVictim at ok
  rw [if_neg Bool.false_ne_true] at ok
  split_ifs at ok
  obtain ⟨_, rfl⟩ := deleteFromMemories_eq_ok.mp ok
  refine @entombs_deleteMemories start { db with namespaceMeta := dropStandard db.namespaceMeta victim.id }
    entombs _ [victim] fun row _ doomed => ?_
  exact ⟨victim, List.mem_singleton_self _, (of_decide_eq_true doomed).symm⟩

/-- The rounds of the eviction entomb what they delete. -/
theorem entombs_sizeGcLoop {start : Store} («namespace» : String) (maxCorpusBytes : Int) (stamp : String)
    (rounds : Nat) {db : Database} (corpus : Int) (evicted : Nat) (entombs : Entombs start db.toStore) :
    Entombs start
      (sizeGcLoop env «namespace» maxCorpusBytes false stamp rounds db corpus evicted).1.toStore := by
  induction rounds generalizing db corpus evicted with
  | zero => exact entombs
  | succ rounds ih =>
      unfold sizeGcLoop
      split_ifs
      · exact entombs
      · split
        · exact entombs
        · split
          · exact entombs
          · exact ih _ _ (entombs_evictVictim entombs ‹_›)

/-- The row that a burial takes away leaves a tombstone. -/
theorem buried_bury {db : Database} {burial : Burial env} {id : String} (live : (db.memories.find id).isSome)
    (gone : (bury db burial).memories.find id = none) : Buried id (bury db burial).toStore := by
  refine ⟨?_, gone⟩
  have entombs : Entombs db.toStore (bury db burial).toStore := by
    cases burial with
    | forget «namespace» pattern tier archive now =>
        unfold bury forget
        dsimp only
        split_ifs
        · exact entombs_refl _
        · cases forgetFailure pattern (db.memories.rows.filter (forgetMatches env «namespace» pattern tier)) with
          | some error => exact entombs_refl _
          | none =>
              dsimp only
              cases deletedOk : deleteFromMemories _ (forgetMatches env «namespace» pattern tier) with
              | error error => exact entombs_refl _
              | ok deleted =>
                  obtain ⟨_, rfl⟩ := deleteFromMemories_eq_ok.mp deletedOk
                  have victims : ∀ row ∈ db.memories.rows, forgetMatches env «namespace» pattern tier row = true →
                      ∃ victim ∈ db.memories.rows.filter (forgetMatches env «namespace» pattern tier),
                        victim.id = row.id :=
                    fun row present doomed => ⟨row, List.mem_filter.mpr ⟨present, doomed⟩, rfl⟩
                  cases archive with
                  | true =>
                      exact @entombs_deleteMemories db.toStore { db with
                        archivedMemories := _
                        archivedAtomOf := _
                        archivedMemoryLinks := _ } (entombs_refl _) _ _ victims
                  | false => exact entombs_deleteMemories (entombs_refl _) victims
    | gc now =>
        obtain ⟨standards, sweeps⟩ := @gc_sweeps env db false now
        show Entombs db.toStore (gc env db false now).1.toStore
        rw [sweeps]
        exact entombs_gcLoop (env.chrono.toRfc3339 now) _ 0 (entombs_refl db.toStore)
    | sizeGc «namespace» maxCorpusBytes now =>
        show Entombs db.toStore (sizeGc env db «namespace» maxCorpusBytes false now).1.toStore
        unfold sizeGc
        split_ifs
        · exact entombs_refl _
        · exact entombs_sizeGcLoop _ _ _ _ _ _ (entombs_refl db.toStore)
  exact entombs id live gone

end Graves
end AiMemory.Storage
