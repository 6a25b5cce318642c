import AiMemory.Storage.Columns
import AiMemory.Storage.ErasedRecords

/-
This file says what the writers and the restores do to each record.
-/

namespace AiMemory.Storage
open AiMemory.Crdt AiMemory.Encryption AiMemory.Library AiMemory.Machine

section Write

variable {env : SealingEnvironment} {db : ErasureDatabase} {written : SealedDatabase} {id : String} {placed : Placed}

/-- Some agent opens the envelope. -/
def Unseals (env : SealingEnvironment) (placed : Placed) : Prop :=
  ∃ bytes ∈ placed.encryptedEnvelope, ∃ agentId content, openContent env.primitives bytes agentId = .ok content

/-- No content stands in the clear, and every envelope holds its own key and opens. -/
def SealedColumns (env : SealingEnvironment) (placed : Placed) : Prop :=
  placed.content = "" ∧ (placed.encryptedEnvelope.isSome → hasKey placed = true ∧ Unseals env placed)

/-- With encryption on the columns of a sealed content are sealed. -/
theorem sealedColumns_of_sealFor (enabled : env.primitives.encryptionEnabled = true) (correct : env.primitives.Correct)
    {coins : SealingCoins} {content : String} {metadata : Json} (ok : sealFor env coins content metadata = .ok placed) :
    SealedColumns env placed := by
  obtain ⟨sealed, sealedOk, rfl⟩ := map_eq_ok.mp ok
  have done := mapError_eq_ok.mp sealedOk
  cases sealed with
  | none =>
      refine ⟨?_, fun absent => absurd absent Bool.false_ne_true⟩
      exact (plain_of_sealContent done).resolve_left (enabled ▸ Bool.noConfusion)
  | some pair =>
      obtain ⟨bytes, placeholder⟩ := pair
      obtain ⟨empty, _, _, _, _, _, _, record⟩ := sealContent_ok done
      refine ⟨empty, fun _ => ⟨?_, bytes, rfl, _, content, openContent_own correct done⟩⟩
      show envelopeIsCryptoErasable bytes = true
      rw [record]
      rfl

/-- Every sealing of a good content has the property. -/
def SealsAs (env : SealingEnvironment) (good : String → Prop) (property : Placed → Prop) : Prop :=
  ∀ coins content metadata placed, good content → sealFor env coins content metadata = .ok placed → property placed

/-- With encryption on every content is written into sealed columns. -/
theorem seals_columns (enabled : env.primitives.encryptionEnabled = true) (correct : env.primitives.Correct) :
    SealsAs env (fun _ => True) (SealedColumns env) :=
  fun _ _ _ _ _ sealed => sealedColumns_of_sealFor enabled correct sealed

/-- A writer landed the columns of one row and left the other ones. -/
structure Landed (db : ErasureDatabase) (written : SealedDatabase) (id : String) (placed : Placed) : Prop where
  contents : ∀ query, (written.memories.find query).map (·.content) =
    if query = id then some placed.content else (db.memories.find query).map (·.content)
  envelopes : ∀ query, written.envelopes query = if query = id then placed.encryptedEnvelope else db.envelopes query

theorem liveColumns_eq (db : ErasureDatabase) (id : String) :
    liveColumns db id = ((db.memories.find id).map (·.content)).map fun content => ⟨content, db.envelopes id⟩ := by
  rw [liveColumns, Option.map_map]
  rfl

theorem custody_settle_eq (after : ErasureDatabase) (id : String) :
    custody (settle after) id =
      { live := liveColumns after id
        copy := archivedColumns after id
        queued := after.federationPushDlq.any fun push => push.memoryId = id
        keyDestroyed := after.keyDestroyed id && (liveColumns after id).isNone
        forgotten := after.forgotten id && (liveColumns after id).isNone } := by
  have gone : (liveColumns after id).isNone = (after.memories.find id).isNone := by
    rw [liveColumns, Option.isNone_map]
  rw [gone]
  rfl

/-- A settled record keeps its standing. -/
theorem standing_settled (settled : (custody db id).Settled) :
    (db.keyDestroyed id && (liveColumns db id).isNone) = db.keyDestroyed id ∧
      (db.forgotten id && (liveColumns db id).isNone) = db.forgotten id := by
  constructor
  · cases erased : db.keyDestroyed id with
    | false => rfl
    | true => rw [show liveColumns db id = none from settled (.inl erased)]; rfl
  · cases erased : db.forgotten id with
    | false => rfl
    | true => rw [show liveColumns db id = none from settled (.inr erased)]; rfl

/-- A writer that lands nothing changes nothing. -/
theorem custody_unlanded (settled : (custody db id).Settled) :
    custody (commitWrite db (.ok db.toSealedDatabase) []) id = custody db id := by
  show custody (settle db) id = _
  rw [custody_settle_eq, (standing_settled settled).1, (standing_settled settled).2]
  rfl

/-- The copies of a writer: none, or the stored row of the identifier. -/
inductive WriteCopies (db : ErasureDatabase) (written : SealedDatabase) (id : String) : List Memory → Bool → Prop
  | bare : written.archivedMemories = db.archivedMemories → WriteCopies db written id [] false
  | replaced {stored : Memory} {reason stamp : String} : db.memories.find id = some stored →
      written.archivedMemories = archiveRow db.archivedMemories stored reason stamp →
        WriteCopies db written id [stored] true

/-- The archive takes the copy of the row that a writer replaces. -/
theorem archivedColumns_write {copied : List Memory} {copies : Bool} (made : WriteCopies db written id copied copies)
    (query : String) :
    archivedColumns { db with toSealedDatabase := written, archivedEnvelopes := copyEnvelopes db copied } query =
      if copies && query = id then liveColumns db query else archivedColumns db query := by
  unfold archivedColumns
  cases made with
  | bare same =>
      show (written.archivedMemories.find? _).map _ = _
      rw [same]
      rfl
  | replaced found same =>
      rename_i stored reason stamp
      have storedId := ((db.memories.find_eq_some_iff _ _).mp found).2
      show (written.archivedMemories.find? _).map (fun entry =>
        (⟨entry.row.content, copyEnvelopes db [stored] query⟩ : Placed)) = _
      rw [same, find?_archiveRow, storedId, copyEnvelopes]
      by_cases isRow : query = id
      · subst isRow
        simp [liveColumns, found, storedId]
      · simp [isRow, Ne.symm isRow, storedId]

/-- A landing writes its row. -/
theorem custody_landed (settled : ∀ id, (custody db id).Settled) (landed : Landed db written id placed)
    {copied : List Memory} {copies : Bool} (made : WriteCopies db written id copied copies) (query : String) :
    custody (commitWrite db (.ok written) copied) query =
      if query = id then (custody db query).handle hasKey (.write placed copies) else custody db query := by
  unfold commitWrite
  dsimp only
  have live : liveColumns { db with toSealedDatabase := written, archivedEnvelopes := copyEnvelopes db copied } query =
      if query = id then some placed else liveColumns db query := by
    rw [liveColumns_eq, liveColumns_eq, landed.contents, landed.envelopes]
    split_ifs <;> rfl
  rw [custody_settle_eq, live, archivedColumns_write made]
  by_cases isRow : query = id
  · rw [if_pos isRow, if_pos isRow, decide_eq_true isRow, Bool.and_true, Option.isNone_some, Bool.and_false,
      Bool.and_false]
    rfl
  · rw [if_neg isRow, if_neg isRow, decide_eq_false isRow, Bool.and_false, if_neg Bool.false_ne_true]
    obtain ⟨keyDestroyed, forgotten⟩ := standing_settled (settled query)
    show Custody.mk (liveColumns db query) (archivedColumns db query) _ (db.keyDestroyed query && _)
      (db.forgotten query && _) = _
    rw [keyDestroyed, forgotten]
    rfl

theorem archived_plainInsert {store changed : Store} {row : Memory} {actualId : String} {clash : StorageError}
    (ok : plainInsert store row clash = .ok (changed, actualId)) :
    changed.archivedMemories = store.archivedMemories := by
  obtain ⟨_, _, _, _, rfl⟩ := plainInsert_written ok
  rfl

/-- A local upsert keeps the archive. -/
theorem archived_upsertStoreMerge {store changed : Store} {row : Memory} {actualId : String}
    (ok : upsertStoreMerge store row = .ok (changed, actualId)) :
        changed.archivedMemories = store.archivedMemories := by
  obtain ⟨_, ⟨_, _, _, _, _, rfl⟩ | ⟨_, _, _, rfl⟩⟩ := upsertStoreMerge_written ok
  · rfl
  · rfl

/-- A landing with its envelope. -/
theorem landed_land {store : Store} {row : Memory} {content : String} (column : row.content = placed.content)
    (lookups : ∀ query, store.memories.find query = if query = id then some row else db.memories.find query) :
    Landed db (db.toSealedDatabase.land store id placed content) id placed where
  contents query := by
    show (store.memories.find query).map _ = _
    rw [lookups]
    split_ifs
    · exact congrArg some column
    · rfl
  envelopes := envelopes_land db.toSealedDatabase store id placed content

section Calls

variable {row : Memory} {now : env.chrono.Instant} {coins : SealingCoins} {good : String → Prop}
  {property : Placed → Prop}

/-- A successful insertion lands its sealed content. -/
theorem insertSealed_landed (seals : SealsAs env good property)
    (masked : good (boundRow env.toEnvironment now row).content)
    (ok : insertSealed env db.toSealedDatabase coins row now = .ok written) :
    ∃ id placed, Landed db written id placed ∧ property placed ∧
      written.archivedMemories = db.archivedMemories := by
  obtain ⟨_, _, running⟩ := bind_eq_ok.mp ok
  obtain ⟨_, _, ungoverned⟩ := bind_eq_ok.mp running
  obtain ⟨placed, sealed, rest⟩ := bind_eq_ok.mp ungoverned
  obtain ⟨⟨store, id⟩, upserted, same⟩ := bind_eq_ok.mp rest
  obtain rfl := Except.ok.inj same
  replace upserted := mapError_eq_ok.mp upserted
  refine ⟨id, placed, ?_, seals _ _ _ _ masked sealed, archived_upsertStoreMerge upserted⟩
  rcases find_upsertStoreMerge upserted with ⟨existing, _, rfl, _, _, lookups⟩ | ⟨_, rfl, lookups⟩
  · exact landed_land (by rfl) lookups
  · exact landed_land (by rfl) lookups

/-- A row that loses leaves the columns of the stored one. -/
theorem insertIfNewerSealed_landed (seals : SealsAs env good property)
    (masked : good (boundRow env.toEnvironment now row).content)
    (holding : ∀ id, (custody db id).Holding property)
    (ok : insertIfNewerSealed env db.toSealedDatabase coins row now = .ok written) :
    written = db.toSealedDatabase ∨ ∃ id placed, Landed db written id placed ∧ property placed ∧
      written.archivedMemories = db.archivedMemories := by
  obtain ⟨_, _, running⟩ := bind_eq_ok.mp ok
  obtain ⟨_, _, ungoverned⟩ := bind_eq_ok.mp running
  split_ifs at ungoverned
  · exact .inl (Except.ok.inj ungoverned).symm
  · obtain ⟨placed, sealed, rest⟩ := bind_eq_ok.mp ungoverned
    obtain ⟨⟨store, id⟩, upserted, same⟩ := bind_eq_ok.mp rest
    obtain rfl := Except.ok.inj same
    replace upserted := mapError_eq_ok.mp upserted
    have columns := seals _ _ _ _ masked sealed
    have archived := archived_upsertNewerWins upserted
    refine .inr ?_
    rw [landNewer]
    rcases find_upsertNewerWins upserted with ⟨existing, found, rfl, lookups⟩ | ⟨free, _, rfl, lookups⟩
    · rw [show db.memories.findSlot (slotOf (boundRow env.toEnvironment now row)) = some existing from found]
      dsimp only
      cases wins : excludedWins existing (boundRow env.toEnvironment now row) with
      | true =>
          rw [if_pos rfl]
          exact ⟨existing.id, placed, landed_land (newerWins_wins wins).1 lookups, columns, archived⟩
      | false =>
          rw [if_neg Bool.false_ne_true]
          have stored := find_of_findSlot found
          have live : liveColumns db existing.id = some ⟨existing.content, db.envelopes existing.id⟩ := by
            rw [liveColumns, stored]
            rfl
          refine ⟨existing.id, ⟨existing.content, db.envelopes existing.id⟩, ⟨fun query => ?_, fun query => ?_⟩,
            holding existing.id _ (.inl live), archived⟩
          · show (store.memories.find query).map _ = _
            rw [lookups]
            split_ifs
            · exact congrArg some (newerWins_loses wins).1
            · rfl
          · split_ifs with isRow
            · rw [isRow]
            · rfl
    · rw [show db.memories.findSlot (slotOf (boundRow env.toEnvironment now row)) = none from free]
      exact ⟨_, placed, landed_land (by rfl) lookups, columns, archived⟩

/-- A merge copies the row that it overwrites. -/
theorem mergeInboundSealed_landed (seals : SealsAs env good property)
    (masked : good (boundRow env.toEnvironment now row).content) (own : good row.content)
    (opens : ∀ stored existing, db.memories.find row.id = some stored →
      rowToMemory env db.toSealedDatabase stored = .ok existing → good existing.content)
    (holding : ∀ id, (custody db id).Holding property) {skewSecs : Int}
    (ok : mergeInboundSealed env db.toSealedDatabase coins row now skewSecs = .ok written) :
    (written = db.toSealedDatabase ∧ db.memories.find row.id = none) ∨
      ∃ id placed copies, Landed db written id placed ∧ property placed ∧
        WriteCopies db written id (db.memories.find row.id).toList copies := by
  cases found : db.memories.find row.id with
  | none =>
      unfold mergeInboundSealed at ok
      rw [found] at ok
      dsimp only at ok
      rcases insertIfNewerSealed_landed seals masked holding ok with rfl | ⟨id, placed, landed, columns, archived⟩
      · exact .inl ⟨rfl, rfl⟩
      · exact .inr ⟨id, placed, false, landed, columns, .bare archived⟩
  | some stored =>
      obtain ⟨existing, placed, store, read, here, sealed, overwritten, rfl⟩ := mergeInboundSealed_stored found ok
      have content : good (mergeMemory existing
          (prepareInbound env.chrono row (env.chrono.toRfc3339 now) skewSecs)).content := by
        obtain ⟨_, _, body⟩ := prepareInbound_body env.chrono row (env.chrono.toRfc3339 now) skewSecs
        rw [mergeMemory_content, lww, pick]
        split
        · rw [body]
          exact own
        · exact opens stored existing found read
      generalize mergeMemory existing (prepareInbound env.chrono row (env.chrono.toRfc3339 now) skewSecs) = merged at *
      have lookups := @find_overwriteFullRowById env.toEnvironment db.toStore store
        { merged with content := placed.content } now stored here overwritten
      have archived := @archived_overwriteFullRowById env.toWriterEnvironment db.toStore store
        { merged with content := placed.content } stored now here overwritten
      refine .inr ⟨merged.id, placed, true, ?_, seals _ _ _ _ content sealed, .replaced here archived⟩
      exact landed_land (by rfl) lookups

/-- An update copies the row whose text it changes. -/
theorem updateSealed_landed (seals : SealsAs env good property) {id : String} {patch : Patch}
    {expectedVersion : Option Int} (own : ∀ content ∈ patch.content, good content)
    (opens : ∀ stored existing, db.memories.find id = some stored →
      rowToMemory env db.toSealedDatabase stored = .ok existing → good existing.content)
    (ok : updateSealed env db.toSealedDatabase id now patch expectedVersion coins = .ok written) :
    (written = db.toSealedDatabase ∧ updateCopies env db id patch = []) ∨
      ∃ placed copies, Landed db written id placed ∧ property placed ∧
        WriteCopies db written id (updateCopies env db id patch) copies := by
  obtain ⟨_, _, running⟩ := bind_eq_ok.mp ok
  unfold updateCopies
  cases found : db.memories.find id with
  | none =>
    simp only [found] at running
    exact .inl ⟨(Except.ok.inj running).symm, rfl⟩
  | some stored =>
    simp only [found] at running
    dsimp only
    cases read : rowToMemory env db.toSealedDatabase stored with
    | error failure =>
      simp only [read] at running
      exact .inl ⟨(Except.ok.inj running).symm, rfl⟩
    | ok existing =>
      simp only [read] at running
      dsimp only
      split at running
      · contradiction
      · obtain ⟨_, _, ungoverned⟩ := bind_eq_ok.mp running
        obtain ⟨placed, sealed, committed⟩ := bind_eq_ok.mp ungoverned
        obtain ⟨noClash, rfl⟩ := commitSealed_eq_ok committed
        obtain rfl : stored.id = id := ((db.memories.find_eq_some_iff _ _).mp found).2
        have lookups := KeyedTable.find_replace_stored (by exact found) noClash
        have content : good (governedRow patch existing).content := by
          show good (patch.content.getD existing.content)
          cases asked : patch.content with
          | none => exact opens _ existing found read
          | some content => exact own content asked
        have columns := seals _ _ _ _ content sealed
        cases changed : contentChanged (governedRow patch existing) existing with
        | true =>
            exact .inr ⟨placed, true, landed_land (by rfl) lookups, columns,
              @WriteCopies.replaced db _ _ stored "in_place_edit" (env.chrono.toRfc3339 now) found rfl⟩
        | false => exact .inr ⟨placed, false, landed_land (by rfl) lookups, columns, .bare rfl⟩

/-- A restore takes its record out of the archive. -/
theorem archived_restoreArchived {env : WriterEnvironment} {before restored : Database} {id : String}
    {now : env.chrono.Instant} (ok : restoreArchived env before id now = .ok (restored, true)) :
    restored.archivedMemories = before.archivedMemories.filter fun other => other.row.id ≠ id := by
  rcases restoreArchived_eq_ok ok with ⟨absent, _⟩ | ⟨_, inserted, _, _, _, _, _, _, insertedOk, _, rfl⟩
  · contradiction
  · show inserted.archivedMemories.filter _ = _
    rw [archived_plainInsert insertedOk]

/-- A restore brings the copy back with its envelope. -/
theorem custody_restore {restored : ErasureDatabase} {id : String} (settled : ∀ id, (custody db id).Settled)
    (ok : restoreErasable env db id now = .ok restored) (query : String) :
    custody (settle restored) query =
      if query = id then (custody db query).handle hasKey .restore else custody db query := by
  obtain ⟨⟨changed, moved⟩, restoring, rfl⟩ := map_eq_ok.mp ok
  rcases restoreArchived_ok restoring with ⟨rfl, rfl, absent⟩ | ⟨entry, rfl, found, restores⟩
  · have same : custody (settle db) query = custody db query := custody_unlanded (settled query)
    show custody (settle db) query = _
    rw [same]
    split_ifs with isRow
    · subst isRow
      have none : (custody db query).copy = none := by
        show archivedColumns db query = none
        rw [archivedColumns, absent]
        rfl
      rw [Custody.handle, none]
      cases (custody db query).live <;> rfl
    · rfl
  · show custody (settle { db with
      toDatabase := changed
      envelopes := Function.update db.envelopes id (db.archivedEnvelopes id) }) query = _
    have archived := archived_restoreArchived restoring
    have stored : archivedColumns db id = some ⟨entry.row.content, db.archivedEnvelopes id⟩ := by
      rw [archivedColumns, found]
      rfl
    have gone : liveColumns db id = none := by
      rw [liveColumns, restores.absent]
      rfl
    have live : liveColumns { db with
        toDatabase := changed
        envelopes := Function.update db.envelopes id (db.archivedEnvelopes id) } query =
        if query = id then archivedColumns db id else liveColumns db query := by
      show (changed.memories.find query).map (fun row =>
        (⟨row.content, Function.update db.envelopes id (db.archivedEnvelopes id) query⟩ : Placed)) = _
      rw [Function.update_apply, stored, restores.find]
      split_ifs <;> rfl
    have copy : archivedColumns { db with
        toDatabase := changed
        envelopes := Function.update db.envelopes id (db.archivedEnvelopes id) } query =
        if query = id then none else archivedColumns db query := by
      show (changed.archivedMemories.find? _).map _ = _
      rw [archived, List.find?_filter]
      split_ifs with isRow
      · subst isRow
        simp
      · unfold archivedColumns
        congr 2
        funext other
        by_cases ofQuery : other.row.id = query
        · simp [ofQuery, isRow]
        · simp [ofQuery]
    rw [custody_settle_eq, live, copy]
    by_cases isRow : query = id
    · subst isRow
      rw [if_pos rfl, if_pos rfl, if_pos rfl, stored, Option.isNone_some, Bool.and_false, Bool.and_false,
        Custody.handle]
      unfold custody
      rw [gone, stored]
    · rw [if_neg isRow, if_neg isRow, if_neg isRow]
      obtain ⟨keyDestroyed, forgotten⟩ := standing_settled (settled query)
      show Custody.mk (liveColumns db query) (archivedColumns db query) _ (db.keyDestroyed query && _)
        (db.forgotten query && _) = _
      rw [keyDestroyed, forgotten]
      rfl

end Calls
end Write

end AiMemory.Storage
