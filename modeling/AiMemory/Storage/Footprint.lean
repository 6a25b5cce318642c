import AiMemory.Library.KeyedTable
import AiMemory.Library.Run
import AiMemory.Storage.Gates
import AiMemory.Storage.PendingActions

/-
This file bounds the rows that each writer touches by the namespaces of its arguments.
-/

namespace AiMemory.Storage
open AiMemory.Crdt AiMemory.Library AiMemory.Machine

section Untouched

variable (outside : String → Prop)

/-- The live rows and the archived rows of the outside namespaces stay. -/
structure UntouchedRows (before after : Store) : Prop where
  live : SameRows (fun row : Memory => outside row.namespace) before.memories.rows after.memories.rows
  archived : SameRows (fun entry : ArchivedMemory => outside entry.row.namespace) before.archivedMemories
    after.archivedMemories

/-- The standards of the outside namespaces stay as well. -/
structure Untouched (before after : Database) : Prop where
  rows : UntouchedRows outside before.toStore after.toStore
  standards : SameRows (fun entry : NamespaceMeta => outside entry.namespace) before.namespaceMeta
    after.namespaceMeta

variable {outside}

theorem UntouchedRows.refl (store : Store) : UntouchedRows outside store store := ⟨.refl _ _, .refl _ _⟩

theorem UntouchedRows.trans {first second third : Store} (left : UntouchedRows outside first second)
    (right : UntouchedRows outside second third) : UntouchedRows outside first third :=
  ⟨left.live.trans right.live, left.archived.trans right.archived⟩

theorem Untouched.refl (db : Database) : Untouched outside db db := ⟨.refl _, .refl _ _⟩

theorem Untouched.trans {first second third : Database} (left : Untouched outside first second)
    (right : Untouched outside second third) : Untouched outside first third :=
  ⟨left.rows.trans right.rows, left.standards.trans right.standards⟩

/-- A writer of the store leaves the standards. -/
theorem UntouchedRows.lift {db : Database} {store : Store} (rows : UntouchedRows outside db.toStore store) :
    Untouched outside db { db with toStore := store } := ⟨rows, .refl _ _⟩

end Untouched

section Tables

variable {outside : String → Prop} {table : MemoryTable} {archived : List ArchivedMemory} {row : Memory}

/-- The update overwrites the row of one identifier. -/
theorem sameRows_replace (stored : ∀ old ∈ table.find row.id, ¬ outside old.namespace)
    (inside : ¬ outside row.namespace) :
    SameRows (fun row : Memory => outside row.namespace) table.rows
      (table.rows.map fun old => if old.id = row.id then row else old) := by
  apply SameRows.map
  intro old present
  by_cases same : old.id = row.id
  · rw [if_pos same]
    exact .inr ⟨stored old ((table.find_eq_some_iff _ _).mpr ⟨present, same⟩), inside⟩
  · rw [if_neg same]
    exact .inl rfl

/-- The archive gives up the entry of the identifier and takes the new one. -/
theorem sameRows_archiveRow (archiveReason archivedAt : String)
    (replaced : ∀ entry ∈ archived, entry.row.id = row.id → ¬ outside entry.row.namespace)
    (inside : ¬ outside row.namespace) :
    SameRows (fun entry : ArchivedMemory => outside entry.row.namespace) archived
      (archiveRow archived row archiveReason archivedAt) := by
  refine SameRows.trans (SameRows.filter fun entry present watches => ?_) (SameRows.append inside)
  have differs : entry.row.id ≠ row.id := fun same => replaced entry present same watches
  simpa using differs

/-- A rewritten row keeps its namespace. -/
theorem untouched_rewriteRow (store : Store) (id : String) (change : Memory → Memory)
    (keepsId : ∀ row, (change row).id = row.id) (keepsSlot : ∀ row, slotOf (change row) = slotOf row)
    (inside : ∀ row ∈ store.memories.find id, ¬ outside row.namespace) :
    UntouchedRows outside store (rewriteRow store id change keepsId keepsSlot) := by
  unfold rewriteRow
  split
  · exact .refl _
  · rename_i existing found
    have sameId : (change existing).id = id :=
      (keepsId existing).trans ((store.memories.find_eq_some_iff _ _).mp found).2
    have sameNamespace : (change existing).namespace = existing.namespace := congrArg Prod.snd (keepsSlot existing)
    refine ⟨sameRows_replace ?_ ?_, .refl _ _⟩
    · rw [sameId]
      exact inside
    · rw [sameNamespace]
      exact inside existing found

end Tables

section Insertion

variable {outside : String → Prop} {store written : Store} {row : Memory} {id : String}

/-- A plain insertion inside the namespace touches no row outside. -/
theorem untouched_plainInsert {clash : StorageError} (ok : plainInsert store row clash = .ok (written, id))
    (inside : ¬ outside row.namespace) : UntouchedRows outside store written := by
  obtain ⟨_, _, _, _, rfl⟩ := plainInsert_written ok
  exact ⟨SameRows.append inside, .refl _ _⟩

/-- The row of a slot has the namespace of the slot. -/
theorem namespace_of_slot {slot : String × String} {existing : Memory}
    (found : store.memories.findSlot slot = some existing) : existing.namespace = slot.2 :=
  congrArg Prod.snd ((store.memories.findSlot_eq_some_iff _ _).mp found).2

/-- A merge into the row of an inside slot touches no outside row. -/
theorem untouched_mergeSlot {existing : Memory} (merged : Memory)
    (found : store.memories.findSlot (slotOf row) = some existing)
    (sameId : merged.id = existing.id) (sameSlot : slotOf merged = slotOf existing)
    (noClash : ∀ other ∈ store.memories.findSlot (slotOf merged), other.id = merged.id)
    (inside : ¬ outside row.namespace) :
    UntouchedRows outside store { store with memories := store.memories.replace merged noClash } := by
  have stays : ¬ outside existing.namespace := by
    rw [namespace_of_slot found]
    exact inside
  have sameNamespace : merged.namespace = existing.namespace := congrArg Prod.snd sameSlot
  refine ⟨sameRows_replace ?_ (sameNamespace ▸ stays), .refl _ _⟩
  intro old oldFound
  rw [sameId] at oldFound
  have same : some existing = some old := (find_of_findSlot found).symm.trans oldFound
  rw [← Option.some.inj same]
  exact stays

/-- An upsert inside the namespace touches no row outside. -/
theorem untouched_upsertStoreMerge (ok : upsertStoreMerge store row = .ok (written, id))
    (inside : ¬ outside row.namespace) : UntouchedRows outside store written := by
  obtain ⟨_, ⟨existing, noClash, found, _, _, rfl⟩ | ⟨_, _, _, rfl⟩⟩ := upsertStoreMerge_written ok
  · exact untouched_mergeSlot (storeMerge existing row) found rfl rfl noClash inside
  · exact ⟨SameRows.append inside, .refl _ _⟩

/-- An inbound upsert inside the namespace touches no row outside. -/
theorem untouched_upsertNewerWins (ok : upsertNewerWins store row = .ok (written, id))
    (inside : ¬ outside row.namespace) : UntouchedRows outside store written := by
  obtain ⟨_, ⟨existing, noClash, found, _, _, rfl⟩ | ⟨_, _, _, rfl⟩⟩ := upsertNewerWins_written ok
  · exact untouched_mergeSlot (newerWins existing row) found rfl rfl noClash inside
  · exact ⟨SameRows.append inside, .refl _ _⟩

end Insertion

section Writers

variable {outside : String → Prop} {env : WriterEnvironment} {store written : Store} {db changed : Database}
  {row : Memory} {id : String} {now : env.chrono.Instant}

/-- An insertion inside the namespace touches no row outside. -/
theorem untouched_insert (ok : insert env store row now = .ok (written, id)) (inside : ¬ outside row.namespace) :
    UntouchedRows outside store written := by
  obtain ⟨_, _, ungoverned⟩ := bind_eq_ok.mp ok
  obtain ⟨_, _, upserted⟩ := bind_eq_ok.mp ungoverned
  exact untouched_upsertStoreMerge upserted inside

theorem untouched_insertWithConflict_error (ok : insertWithConflict env store row now .error = .ok (written, id))
    (inside : ¬ outside row.namespace) : UntouchedRows outside store written := by
  obtain ⟨_, _, running⟩ := bind_eq_ok.mp ok
  obtain ⟨_, _, ungoverned⟩ := bind_eq_ok.mp running
  split at ungoverned
  · contradiction
  · exact untouched_plainInsert ungoverned inside

/-- A call on one store reads the row that it writes. -/
theorem readForUpdate_some {patch : Patch} {expectedVersion : Option Int} {existing : Memory}
    (read : readForUpdate env store id patch expectedVersion = .ok (some existing)) :
    store.memories.find id = some existing := by
  obtain ⟨_, _, running⟩ := bind_eq_ok.mp read
  split at running
  · cases running
  · rename_i found
    split at running
    · contradiction
    · obtain ⟨_, _, done⟩ := bind_eq_ok.mp running
      rw [← Option.some.inj (Except.ok.inj done)]
      exact found

/-- The promotion of a row in its namespace archives nothing. -/
theorem untouched_promotion {expectedVersion : Option Int} {result : Bool × Bool}
    (ok : updateWithExpectedVersion env store id promotionPatch expectedVersion now = .ok (written, result))
    (inside : ∀ row ∈ store.memories.find id, ¬ outside row.namespace) : UntouchedRows outside store written := by
  obtain ⟨read, readOk, committed⟩ := bind_eq_ok.mp ok
  cases read with
  | none =>
      obtain ⟨rfl, _⟩ := Prod.mk.inj (Except.ok.inj committed)
      exact .refl _
  | some existing =>
      have found := readForUpdate_some readOk
      have sameId := ((store.memories.find_eq_some_iff _ _).mp found).2
      have unchanged : contentChanged (governedRow promotionPatch existing) existing = false := by
        simp [contentChanged, governedRow, promotionPatch]
      dsimp only at committed
      rcases commitUpdate_written committed with ⟨_, rfl, _⟩ | ⟨current, noClash, stored, _, _, rfl⟩
      · exact .refl _
      · cases stored.symm.trans found
        simp only [unchanged, Bool.false_eq_true, if_false]
        refine ⟨sameRows_replace ?_ (inside existing found), .refl _ _⟩
        intro old oldFound
        exact inside old (sameId ▸ oldFound)

/-- A link touches no row. -/
theorem untouched_createLink {sourceId targetId relation : String}
    (ok : createLink env db sourceId targetId relation now = .ok changed) : Untouched outside db changed := by
  obtain ⟨_, _, running⟩ := bind_eq_ok.mp ok
  dsimp only at running
  split at running
  · contradiction
  · split_ifs at running
    all_goals
      obtain rfl := Except.ok.inj running
      exact ⟨.refl _, .refl _ _⟩

end Writers

section Removal

variable {outside : String → Prop} {env : WriterEnvironment} {db changed : Database} {id : String}
  {now : env.chrono.Instant}

/-- The removal of a row takes its standards along, and a row that keeps an atom stays. -/
structure RemovalInside (outside : String → Prop) (db : Database) (id : String) : Prop where
  row : (orphansAtom db fun row => row.id = id) = false → ∀ row ∈ db.memories.find id, ¬ outside row.namespace
  standards : ∀ entry ∈ db.namespaceMeta, entry.standardId = some id → ¬ outside entry.namespace

/-- A removal inside the namespace keeps the standards outside. -/
theorem sameRows_dropStandard (inside : RemovalInside outside db id) :
    SameRows (fun entry : NamespaceMeta => outside entry.namespace) db.namespaceMeta
      (dropStandard db.namespaceMeta id) := by
  apply SameRows.filter
  intro entry present watches
  have differs : entry.standardId ≠ some id := fun same => inside.standards entry present same watches
  simpa using differs

/-- A removal inside the namespace keeps the rows outside. -/
theorem sameRows_deleted (inside : RemovalInside outside db id)
    (removes : (orphansAtom db fun row => row.id = id) = false) :
    SameRows (fun row : Memory => outside row.namespace) db.memories.rows
      (db.memories.rows.filter fun row => !decide (row.id = id)) := by
  apply SameRows.filter
  intro row present watches
  have differs : row.id ≠ id := fun same =>
    inside.row removes row ((db.memories.find_eq_some_iff _ _).mpr ⟨present, same⟩) watches
  simpa using differs

/-- A stopped record keeps everything, and a deletion that fails has dropped the standards. -/
theorem untouched_delete (inside : db.recordStop = none → RemovalInside outside db id) :
    Untouched outside db (delete db id).1 := by
  unfold delete gateStorageConn
  cases stopped : db.recordStop with
  | some stop => exact .refl _
  | none =>
      have standards := sameRows_dropStandard (inside stopped)
      dsimp only
      split
      · exact ⟨.refl _, standards⟩
      · rename_i deleted deletedOk
        obtain ⟨removes, rfl⟩ := deleteFromMemories_eq_ok.mp deletedOk
        exact ⟨⟨sameRows_deleted (inside stopped) removes, .refl _ _⟩, standards⟩

/-- The archived row also replaces the archive entry of its identifier. -/
theorem untouched_archiveMemoryNoTx {reason : Option String} {stamp : String} {moved : Bool}
    (ok : archiveMemoryNoTx db id reason stamp = .ok (changed, moved))
    (inside : db.memories.find id ≠ none → RemovalInside outside db id ∧
      ∀ entry ∈ db.archivedMemories, entry.row.id = id → ¬ outside entry.row.namespace) :
    Untouched outside db changed := by
  rcases archiveMemoryNoTx_eq_ok ok with ⟨_, rfl, _⟩ | ⟨row, _, found, removes, rfl⟩
  · exact .refl _
  · obtain ⟨removal, replaced⟩ := inside (found ▸ Option.some_ne_none row)
    obtain ⟨_, rfl⟩ := (db.memories.find_eq_some_iff _ _).mp found
    refine ⟨⟨sameRows_deleted removal removes, ?_⟩, sameRows_dropStandard removal⟩
    exact sameRows_archiveRow _ _ replaced (removal.row removes row found)

/-- A restore moves the entries of one identifier. -/
theorem untouched_restoreArchived {restored : Bool} (ok : restoreArchived env db id now = .ok (changed, restored))
    (inside : ∀ entry ∈ db.archivedMemories, entry.row.id = id → ¬ outside entry.row.namespace) :
    Untouched outside db changed := by
  rcases restoreArchived_eq_ok ok with
    ⟨_, rfl, _⟩ | ⟨entry, inserted, _, _, found, sameId, _, _, insertedOk, _, rfl⟩
  · exact .refl _
  · have present := List.mem_of_find?_eq_some found
    have rows := untouched_plainInsert insertedOk (inside entry present sameId)
    refine ⟨⟨rows.live, rows.archived.trans (SameRows.filter fun other otherPresent watches => ?_)⟩, .refl _ _⟩
    have before := (rows.archived other watches).mp otherPresent
    have differs : other.row.id ≠ id := fun same => inside other before same watches
    simpa using differs

/-- The standard of one namespace is set. -/
theorem untouched_setNamespaceStandard {«namespace» standardId stamp : String} {parent : Option String}
    (ok : setNamespaceStandard db «namespace» standardId parent stamp = .ok changed)
    (inside : ¬ outside «namespace») : Untouched outside db changed := by
  unfold setNamespaceStandard at ok
  split_ifs at ok
  obtain rfl := Except.ok.inj ok
  refine ⟨.refl _, ?_⟩
  dsimp only
  unfold upsertNamespaceMeta
  split
  · apply SameRows.map
    intro other _
    by_cases same : other.namespace = «namespace»
    · rw [if_pos same]
      exact .inr ⟨same.symm ▸ inside, inside⟩
    · rw [if_neg same]
      exact .inl rfl
  · exact SameRows.append inside

theorem untouched_clearNamespaceStandard {«namespace» : String}
    (inside : ∀ entry ∈ db.namespaceMeta, entry.namespace = «namespace» → ¬ outside «namespace») :
    Untouched outside db (clearNamespaceStandard db «namespace»).1 := by
  refine ⟨.refl _, SameRows.filter fun entry present watches => ?_⟩
  have differs : entry.namespace ≠ «namespace» := fun same => inside entry present same (same ▸ watches)
  simpa using differs

end Removal

section Merge

variable {outside : String → Prop} {env : Environment} {store written : Store} {inbound : Memory}
  {now : env.chrono.Instant} {skewSecs : Int} {id : String}

/-- A merge by identifier stays inside with its stored row, its archive entry and the namespace that wins; any other
row stays inside or was forgotten. -/
def MergeInside (outside : String → Prop) (env : Environment) (store : Store) (inbound : Memory)
    (now : env.chrono.Instant) (skewSecs : Int) : Prop :=
  match store.memories.find inbound.id with
  | some existing =>
      ¬ outside existing.namespace ∧
        (remoteWinsLww existing (prepareInbound env.chrono inbound (env.chrono.toRfc3339 now) skewSecs) = true →
          ¬ outside inbound.namespace) ∧
        ∀ entry ∈ store.archivedMemories, entry.row.id = inbound.id → ¬ outside entry.row.namespace
  | none => inbound.id ∉ store.forgetTombstones → ¬ outside inbound.namespace

/-- A merged row lies in the namespace of the winner. -/
theorem namespace_mergedRow {existing : Memory} :
    (mergedRow env now skewSecs existing inbound).namespace =
      pick (remoteWinsLww existing (prepareInbound env.chrono inbound (env.chrono.toRfc3339 now) skewSecs))
        existing.namespace inbound.namespace := by
  obtain ⟨metadata, updatedAt, body⟩ :=
    prepareInbound_body env.chrono inbound (env.chrono.toRfc3339 now) skewSecs
  have same : (prepareInbound env.chrono inbound (env.chrono.toRfc3339 now) skewSecs).namespace =
      inbound.namespace := by rw [body]
  unfold mergedRow
  rw [mergeMemory_namespace, lww, same]

/-- An overwritten row that stays inside touches no row outside. -/
theorem untouched_overwriteFullRowById {row existing : Memory} (found : store.memories.find row.id = some existing)
    (ok : overwriteFullRowById env store row now = .ok written) (before : ¬ outside existing.namespace)
    (after : ¬ outside row.namespace)
    (replaced : ∀ entry ∈ store.archivedMemories, entry.row.id = row.id → ¬ outside entry.row.namespace) :
    UntouchedRows outside store written := by
  obtain ⟨noClash, rfl⟩ := overwriteFullRowById_written found ok
  refine ⟨sameRows_replace ?_ after, ?_⟩
  · intro old oldFound
    have same : some existing = some old := found.symm.trans oldFound
    rw [← Option.some.inj same]
    exact before
  · refine SameRows.trans (SameRows.filter fun entry present watches => ?_) (SameRows.append before)
    have differs : entry.row.id ≠ row.id := fun same => replaced entry present same watches
    simpa using differs

/-- The row that the merge wrote is inside, too. -/
theorem untouched_mergeInbound (ok : mergeInbound env store inbound now skewSecs = .ok (written, id))
    (inside : MergeInside outside env store inbound now skewSecs) :
    UntouchedRows outside store written ∧ ∀ row ∈ written.memories.find id, ¬ outside row.namespace := by
  unfold MergeInside at inside
  rcases mergeInbound_eq_ok ok with ⟨existing, stored, rfl, mergedId, here, overwritten⟩ | ⟨stored, inserted⟩
  · simp only [stored] at inside
    obtain ⟨before, wins, replaced⟩ := inside
    have after : ¬ outside (mergedRow env now skewSecs existing inbound).namespace := by
      rw [namespace_mergedRow]
      cases won : remoteWinsLww existing
          (prepareInbound env.chrono inbound (env.chrono.toRfc3339 now) skewSecs) with
      | false => exact before
      | true => exact wins won
    refine ⟨untouched_overwriteFullRowById here overwritten before after (mergedId.symm ▸ replaced), ?_⟩
    rw [find_overwriteFullRowById here overwritten, if_pos rfl]
    rintro row ⟨⟩
    exact after
  · simp only [stored] at inside
    rcases insertIfNewer_ok inserted with ⟨_, rfl, rfl⟩ | ⟨unforgotten, upserted⟩
    · refine ⟨.refl _, ?_⟩
      rw [stored]
      exact fun row absent => absurd absent (Option.not_mem_none row)
    · have here := inside unforgotten
      refine ⟨untouched_upsertNewerWins upserted here, ?_⟩
      rcases find_upsertNewerWins upserted with ⟨existing, found, rfl, lookups⟩ | ⟨_, _, rfl, lookups⟩
      · rw [lookups, if_pos rfl]
        rintro row ⟨⟩
        have same : existing.namespace = inbound.namespace := namespace_of_slot found
        exact same ▸ here
      · rw [lookups, if_pos rfl]
        rintro row ⟨⟩
        exact here

end Merge

section Execute

variable {outside : String → Prop} {env : GovernanceEnvironment} {db : Database} {newId : String}
  {now : env.chrono.Instant}

/-- The rows that an approved action writes are inside, unless the storage refuses it. -/
def ActionInside (outside : String → Prop) (env : GovernanceEnvironment) (db : Database) (action : PendingAction)
    (newId : String) (now : env.chrono.Instant) : Prop :=
  match action.actionType with
  | "store" => ∀ row ∈ env.memoryFromValue action.payload,
      (insert env.toWriterEnvironment db.toStore (storedAfresh row newId (env.chrono.toRfc3339 now)) now).isOk →
        ¬ outside row.namespace
  | "delete" => ∀ id ∈ action.memoryId, db.recordStop = none → RemovalInside outside db id
  | "promote" => ∀ id ∈ action.memoryId,
      match payloadStr action.payload "to_namespace" with
      | some toNamespace => ∀ source ∈ db.memories.find id, toNamespace ≠ source.namespace →
          toNamespace ∈ namespaceAncestors source.namespace →
          (insert env.toWriterEnvironment db.toStore
            (promotedClone source toNamespace newId (env.chrono.toRfc3339 now)) now).isOk → ¬ outside toNamespace
      | none => (updateWithExpectedVersion env.toWriterEnvironment db.toStore id promotionPatch none now).isOk →
          ∀ row ∈ db.memories.find id, ¬ outside row.namespace
  | "reflect" => ∀ input, reflectInputOf env action = .ok input → (reflect env db input newId now).isOk →
      ∀ target ∈ input.namespace, ¬ outside target
  | _ => True

/-- A vertical promotion leaves the database, or it inserts its clone and asks for the link. -/
theorem promoteToNamespace_cases (env : WriterEnvironment) (db : Database) (sourceId toNamespace newId : String)
    (now : env.chrono.Instant) :
    let promoted := (promoteToNamespace env db sourceId toNamespace newId now).1
    promoted = db ∨ ∃ source inserted actualId, db.memories.find sourceId = some source ∧
      toNamespace ≠ source.namespace ∧ toNamespace ∈ namespaceAncestors source.namespace ∧
      insert env db.toStore (promotedClone source toNamespace newId (env.chrono.toRfc3339 now)) now =
        .ok (inserted, actualId) ∧
      (promoted = { db with toStore := inserted } ∨
        createLink env { db with toStore := inserted } actualId sourceId "derived_from" now = .ok promoted) := by
  unfold promoteToNamespace
  split_ifs
  · exact .inl rfl
  · split
    · exact .inl rfl
    · rename_i source found
      split_ifs with same ancestor
      · exact .inl rfl
      · split
        · exact .inl rfl
        · rename_i inserted actualId insertedOk
          refine .inr ⟨source, inserted, actualId, found, same, ancestor, insertedOk, ?_⟩
          dsimp only
          split
          · exact .inl rfl
          · rename_i linked linkedOk
            exact .inr linkedOk
      · exact .inl rfl

/-- A promotion into the namespace touches nothing outside. -/
theorem untouched_promoteToNamespace {sourceId toNamespace : String}
    (inside : ∀ source ∈ db.memories.find sourceId, toNamespace ≠ source.namespace →
      toNamespace ∈ namespaceAncestors source.namespace →
      (insert env.toWriterEnvironment db.toStore
        (promotedClone source toNamespace newId (env.chrono.toRfc3339 now)) now).isOk → ¬ outside toNamespace) :
    Untouched outside db (promoteToNamespace env.toWriterEnvironment db sourceId toNamespace newId now).1 := by
  rcases promoteToNamespace_cases env.toWriterEnvironment db sourceId toNamespace newId now with
    same | ⟨source, inserted, actualId, found, differs, ancestor, insertedOk, linking⟩
  · rw [same]
    exact .refl _
  · have target := inside source found differs ancestor (by rw [insertedOk]; rfl)
    have cloned : Untouched outside db { db with toStore := inserted } := (untouched_insert insertedOk target).lift
    rcases linking with unlinked | linkedOk
    · rw [unlinked]
      exact cloned
    · exact cloned.trans (untouched_createLink linkedOk)

/-- The links of a new row touch no row. -/
theorem untouched_linkSources {actualId : String} {linked : Database} {sourceIds : List String}
    (ok : linkSources env actualId now db sourceIds = .ok linked) : Untouched outside db linked := by
  refine foldlM_invariant (fun before sourceId after untouched step => ?_) ok (.refl _)
  split at step
  · contradiction
  · exact untouched.trans (untouched_createLink (mapError_eq_ok.mp step))

/-- A reflection that succeeds passes its gates, inserts its row and links it. -/
theorem reflect_eq_ok {input : ReflectInput} {actualId : String} {reflected : Database}
    (ok : reflect env db input newId now = .ok (reflected, actualId)) :
    validateReflectInput env.toValidators input = none ∧
      ∃ sources, loadSources db input.sourceIds = .ok sources ∧
        let target := input.namespace.getD ((sources.head?.map (·.namespace)).getD "")
        let row := reflectionRow input target (reflectionDepth sources) newId (env.chrono.toRfc3339 now)
        (reflectionDepth sources).toNat ≤
            ((env.resolveGovernancePolicy db target).getD .default).effectiveMaxReflectionDepth ∧
          env.decorrelationWriteGate db target input = none ∧ env.validateMetadata row.metadata = none ∧
          ∃ inserted, insertWithConflict env.toWriterEnvironment db.toStore row now .error = .ok (inserted, actualId) ∧
            linkSources env actualId now { db with toStore := inserted } input.sourceIds = .ok reflected := by
  unfold reflect at ok
  split at ok
  · contradiction
  · rename_i valid
    obtain ⟨sources, loaded, rest⟩ := bind_eq_ok.mp ok
    dsimp only at rest
    split_ifs at rest with deep
    split at rest
    · contradiction
    · rename_i decorrelated
      split at rest
      · contradiction
      · rename_i metadata
        obtain ⟨⟨inserted, insertedId⟩, insertedOk, linking⟩ := bind_eq_ok.mp rest
        obtain ⟨linked, linkedOk, done⟩ := bind_eq_ok.mp linking
        obtain ⟨rfl, rfl⟩ := Prod.mk.inj (Except.ok.inj done)
        exact ⟨valid, sources, loaded, Nat.not_lt.mp deep, decorrelated, metadata, inserted,
          mapError_eq_ok.mp insertedOk, linkedOk⟩

/-- A reflection inside the namespace touches nothing outside. -/
theorem untouched_reflect {input : ReflectInput} {target actualId : String} {reflected : Database}
    (ok : reflect env db input newId now = .ok (reflected, actualId)) (named : input.namespace = some target)
    (inside : ¬ outside target) : Untouched outside db reflected := by
  obtain ⟨_, sources, _, accepted⟩ := reflect_eq_ok ok
  simp only [named, Option.getD_some] at accepted
  obtain ⟨_, _, _, inserted, insertedOk, linkedOk⟩ := accepted
  have written := untouched_insertWithConflict_error insertedOk inside
  exact written.lift.trans (untouched_linkSources linkedOk)

/-- The reflection of an action always names its namespace. -/
theorem reflectInputOf_namespace {action : PendingAction} {input : ReflectInput}
    (read : reflectInputOf env action = .ok input) : ∃ target, input.namespace = some target := by
  unfold reflectInputOf at read
  dsimp only at read
  split_ifs at read
  split at read
  · contradiction
  · contradiction
  · obtain rfl := Except.ok.inj read
    exact ⟨(payloadStr action.payload "namespace").getD action.namespace, by
      cases payloadStr action.payload "namespace" <;> rfl⟩

/-- An approved action leaves the database, or one writer of the storage moves it. -/
theorem performAction_cases (env : GovernanceEnvironment) (db : Database) (action : PendingAction) (newId : String)
    (now : env.chrono.Instant) :
    let performed := performAction env db action newId now
    performed.1 = db ∨
      (∃ row inserted actualId, action.actionType = "store" ∧ env.memoryFromValue action.payload = some row ∧
        insert env.toWriterEnvironment db.toStore (storedAfresh row newId (env.chrono.toRfc3339 now)) now =
          .ok (inserted, actualId) ∧ performed = ({ db with toStore := inserted }, .ok (some actualId))) ∨
      (∃ id, action.actionType = "delete" ∧ action.memoryId = some id ∧
        performed = ((delete db id).1, ((delete db id).2.mapError .storage).map fun _ => some id)) ∨
      (∃ id toNamespace, action.actionType = "promote" ∧ action.memoryId = some id ∧
        payloadStr action.payload "to_namespace" = some toNamespace ∧
        let promotion := promoteToNamespace env.toWriterEnvironment db id toNamespace newId now
        performed = (promotion.1, (promotion.2.mapError .storage).map some)) ∨
      (∃ id updated answer, action.actionType = "promote" ∧ action.memoryId = some id ∧
        payloadStr action.payload "to_namespace" = none ∧
        updateWithExpectedVersion env.toWriterEnvironment db.toStore id promotionPatch none now =
          .ok (updated, answer) ∧ performed = ({ db with toStore := updated }, .ok (some id))) ∨
      ∃ input reflected actualId, action.actionType = "reflect" ∧ reflectInputOf env action = .ok input ∧
        reflect env db input newId now = .ok (reflected, actualId) ∧
        performed = (reflected, .ok (some actualId)) := by
  unfold performAction
  dsimp only
  split
  · rename_i kind
    split
    · exact .inl rfl
    · rename_i row read
      split
      · exact .inl rfl
      · rename_i inserted actualId insertedOk
        exact .inr (.inl ⟨row, inserted, actualId, kind, read, insertedOk, rfl⟩)
  · rename_i kind
    split
    · exact .inl rfl
    · rename_i id named
      refine .inr (.inr (.inl ⟨id, kind, named, ?_⟩))
      split <;> rename_i done <;> rw [done] <;> rfl
  · rename_i kind
    split
    · exact .inl rfl
    · rename_i id named
      split
      · rename_i toNamespace given
        exact .inr (.inr (.inr (.inl ⟨id, toNamespace, kind, named, given, rfl⟩)))
      · rename_i absent
        split
        · exact .inl rfl
        · rename_i updated answer updatedOk
          exact .inr (.inr (.inr (.inr (.inl ⟨id, updated, answer, kind, named, absent, updatedOk, rfl⟩))))
  · rename_i kind
    split
    · exact .inl rfl
    · rename_i input read
      split
      · exact .inl rfl
      · rename_i reflected actualId reflectedOk
        exact .inr (.inr (.inr (.inr (.inr ⟨input, reflected, actualId, kind, read, reflectedOk, rfl⟩))))
  · exact .inl rfl

/-- An action inside the namespace touches nothing outside. -/
theorem untouched_performAction {action : PendingAction} (inside : ActionInside outside env db action newId now) :
    Untouched outside db (performAction env db action newId now).1 := by
  unfold ActionInside at inside
  rcases performAction_cases env db action newId now with
    same | ⟨row, inserted, _, kind, read, insertedOk, done⟩ | ⟨id, kind, named, done⟩ |
      ⟨id, toNamespace, kind, named, given, done⟩ | ⟨id, updated, _, kind, named, absent, updatedOk, done⟩ |
      ⟨input, reflected, _, kind, read, reflectedOk, done⟩
  · rw [same]
    exact .refl _
  · simp only [kind] at inside
    rw [done]
    exact (untouched_insert insertedOk (inside row read (by rw [insertedOk]; rfl))).lift
  · simp only [kind] at inside
    rw [done]
    exact untouched_delete (inside id named)
  · simp only [kind, given] at inside
    rw [done]
    exact untouched_promoteToNamespace (inside id named)
  · simp only [kind, absent] at inside
    rw [done]
    exact (untouched_promotion updatedOk (inside id named (by rw [updatedOk]; rfl))).lift
  · simp only [kind] at inside
    obtain ⟨target, named⟩ := reflectInputOf_namespace read
    rw [done]
    exact untouched_reflect reflectedOk named (inside input read (by rw [reflectedOk]; rfl) target named)

end Execute
end AiMemory.Storage
