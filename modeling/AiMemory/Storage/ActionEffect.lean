import AiMemory.Storage.Edits
import AiMemory.Storage.Footprint

/-
This file says when an approved action changes rows, and in which namespace it changes them.
-/

namespace AiMemory.Storage
open AiMemory.Crdt AiMemory.Library AiMemory.Machine

section Change

/-- The rows of one namespace change, and the other rows stay. -/
structure ChangesOnly («namespace» : String) (before after : MemoryTable) : Prop where
  changes : ¬ SameRows (fun row : Memory => row.namespace = «namespace») before.rows after.rows
  others : SameRows (fun row : Memory => row.namespace ≠ «namespace») before.rows after.rows

variable {table : MemoryTable} {row : Memory} {id : String}

/-- A table that changes is another table. -/
theorem ChangesOnly.ne {before after : MemoryTable} {«namespace» : String}
    (changed : ChangesOnly «namespace» before after) : after ≠ before := by
  rintro rfl
  exact changed.changes (.refl _ _)

/-- A written row that was not there shows that its namespace changed. -/
theorem changes_of_new {before after : MemoryTable} (new : row ∉ before.rows) (written : row ∈ after.rows) :
    ¬ SameRows (fun other : Memory => other.namespace = row.namespace) before.rows after.rows :=
  fun same => new ((same row rfl).mp written)

theorem changesOnly_append (freshId : table.find row.id = none) (freshSlot : table.findSlot (slotOf row) = none) :
    ChangesOnly row.namespace table (table.append row freshId freshSlot) where
  changes := by
    refine changes_of_new (fun present => ?_) (List.mem_append_right _ List.mem_cons_self)
    exact (table.find_eq_none_iff _).mp freshId row present rfl
  others := SameRows.append fun watched => watched rfl

/-- A replacement changes the namespace of its row only. -/
theorem changesOnly_replace {existing : Memory} (found : table.find row.id = some existing)
    (noClash : ∀ other ∈ table.findSlot (slotOf row), other.id = row.id) (differs : row ≠ existing)
    (stays : existing.namespace = row.namespace) : ChangesOnly row.namespace table (table.replace row noClash) where
  changes := by
    obtain ⟨present, sameId⟩ := (table.find_eq_some_iff _ _).mp found
    refine changes_of_new (fun already => ?_) (List.mem_map.mpr ⟨existing, present, if_pos sameId⟩)
    have again := (table.find_eq_some_iff row.id row).mpr ⟨already, rfl⟩
    exact differs (Option.some.inj (again.symm.trans found))
  others := by
    refine @sameRows_replace (fun other => other ≠ row.namespace) table row (fun old oldFound => ?_) (not_not.mpr rfl)
    obtain rfl := Option.some.inj (found.symm.trans oldFound)
    exact not_not.mpr stays

theorem changesOnly_retain (found : table.find id = some row) :
    ChangesOnly row.namespace table (table.retain fun other => !decide (other.id = id)) where
  changes := by
    obtain ⟨present, sameId⟩ := (table.find_eq_some_iff _ _).mp found
    intro same
    have kept := (List.mem_filter.mp ((same row rfl).mpr present)).2
    simp [sameId] at kept
  others := by
    refine SameRows.filter fun other present watched => ?_
    have differs : other.id ≠ id := by
      intro sameId
      have again := (table.find_eq_some_iff id other).mpr ⟨present, sameId⟩
      obtain rfl := Option.some.inj (again.symm.trans found)
      exact watched rfl
    simpa using differs

end Change

section Insertion

variable {env : WriterEnvironment} {store : Store} {row : Memory} {now : env.chrono.Instant}

/-- The insertion accepts the row. -/
def Insertable (env : WriterEnvironment) (store : Store) (row : Memory) (now : env.chrono.Instant) : Prop :=
  store.recordStop = none ∧ env.governancePreWrite row = none ∧ checkConstraints (localRow env row now) = none ∧
    match store.memories.findSlot (slotOf (localRow env row now)) with
    | some existing => checkConstraints (storeMerge existing (localRow env row now)) = none
    | none => store.memories.find row.id = none

/-- A free row may be inserted as it is. -/
structure PlainlyInsertable (store : Store) (row : Memory) : Prop where
  constraints : checkConstraints row = none
  slot : store.memories.findSlot (slotOf row) = none
  id : store.memories.find row.id = none

/-- A row with two free keys is appended. -/
theorem plainInsert_ok (clash : StorageError) (free : PlainlyInsertable store row) :
    ∃ written, plainInsert store row clash = .ok (written, row.id) ∧
      ChangesOnly row.namespace store.memories written.memories := by
  obtain ⟨constraints, slot, idFree⟩ := free
  refine ⟨{ store with memories := store.memories.append row idFree slot }, ?_, changesOnly_append idFree slot⟩
  unfold plainInsert
  split
  · rename_i message refused
    exact absurd (refused.symm.trans constraints) (by simp)
  · split
    · rename_i other taken
      exact absurd (taken.symm.trans slot) (by simp)
    · split
      · rename_i other taken
        exact absurd (taken.symm.trans idFree) (by simp)
      · rfl

/-- A row without two free keys is refused. -/
theorem plainInsert_error {clash : StorageError} (taken : ¬ PlainlyInsertable store row) :
    ∃ error, plainInsert store row clash = .error error := by
  unfold plainInsert
  split
  · exact ⟨_, rfl⟩
  · rename_i constraints
    split
    · exact ⟨_, rfl⟩
    · rename_i slot
      split
      · exact ⟨_, rfl⟩
      · rename_i idFree
        exact absurd ⟨constraints, slot, idFree⟩ taken

/-- A merge raises the version. -/
theorem storeMerge_ne (existing excluded : Memory) : storeMerge existing excluded ≠ existing := by
  intro same
  have versions : existing.version + 1 = existing.version := congrArg Memory.version same
  omega

/-- An upsert is refused when the row or its merge breaks a constraint. -/
theorem upsertStoreMerge_error {excluded : Memory}
    (refused : ¬ (checkConstraints excluded = none ∧
      match store.memories.findSlot (slotOf excluded) with
      | some existing => checkConstraints (storeMerge existing excluded) = none
      | none => store.memories.find excluded.id = none)) :
    ∃ error, upsertStoreMerge store excluded = .error error := by
  unfold upsertStoreMerge
  split
  · exact ⟨_, rfl⟩
  · rename_i constraints
    split
    · rename_i slot
      refine plainInsert_error fun free => refused ⟨constraints, ?_⟩
      rw [slot]
      exact free.id
    · rename_i existing slot
      dsimp only
      split
      · exact ⟨_, rfl⟩
      · rename_i merges
        refine absurd ⟨constraints, ?_⟩ refused
        rw [slot]
        exact merges

/-- An upsert that breaks no constraint changes its namespace only. -/
theorem upsertStoreMerge_ok {excluded : Memory} (constraints : checkConstraints excluded = none)
    (accepted : match store.memories.findSlot (slotOf excluded) with
      | some existing => checkConstraints (storeMerge existing excluded) = none
      | none => store.memories.find excluded.id = none) :
    ∃ written id, upsertStoreMerge store excluded = .ok (written, id) ∧
      ChangesOnly excluded.namespace store.memories written.memories := by
  unfold upsertStoreMerge
  split
  · rename_i message refused
    exact absurd (refused.symm.trans constraints) (by simp)
  · split
    · rename_i slot
      rw [slot] at accepted
      obtain ⟨written, inserted, changed⟩ := plainInsert_ok _ ⟨constraints, slot, accepted⟩
      exact ⟨written, excluded.id, inserted, changed⟩
    · rename_i existing slot
      rw [slot] at accepted
      dsimp only at accepted ⊢
      split
      · rename_i message refused
        exact absurd (refused.symm.trans accepted) (by simp)
      · have sameNamespace : existing.namespace = excluded.namespace := namespace_of_slot slot
        have found := find_of_findSlot slot
        have noClash := @noClash_of_sameSlot store.memories existing (storeMerge existing excluded) found rfl
        refine ⟨_, _, rfl, ?_⟩
        rw [← sameNamespace]
        exact @changesOnly_replace store.memories (storeMerge existing excluded) existing found noClash
          (storeMerge_ne existing excluded) rfl

/-- The insertion changes the namespace of its row, or is refused. -/
theorem insert_ok (insertable : Insertable env store row now) :
    ∃ written id, insert env store row now = .ok (written, id) ∧
      ChangesOnly row.namespace store.memories written.memories := by
  obtain ⟨running, ungoverned, constraints, accepted⟩ := insertable
  obtain ⟨written, id, inserted, changed⟩ := upsertStoreMerge_ok constraints accepted
  refine ⟨written, id, ?_, changed⟩
  rw [insert, gateStorageConn, running, consultGovernancePreWrite, ungoverned]
  exact inserted

theorem gateStorageConn_ok_iff : gateStorageConn store = .ok () ↔ store.recordStop = none := by
  unfold gateStorageConn
  cases store.recordStop with
  | none => exact iff_of_true rfl rfl
  | some stop => simp

/-- The hook admits a row exactly when it has nothing against it. -/
theorem consultGovernancePreWrite_ok_iff {env : Environment} :
    consultGovernancePreWrite env row = .ok () ↔ env.governancePreWrite row = none := by
  unfold consultGovernancePreWrite
  cases env.governancePreWrite row with
  | none => exact iff_of_true rfl rfl
  | some reason => simp

/-- A row that is not insertable is refused. -/
theorem insert_error (refused : ¬ Insertable env store row now) :
    ∃ error, insert env store row now = .error error := by
  cases outcome : insert env store row now with
  | error error => exact ⟨error, rfl⟩
  | ok written =>
      obtain ⟨_, running, ungoverned⟩ := bind_eq_ok.mp outcome
      obtain ⟨_, open_, upserted⟩ := bind_eq_ok.mp ungoverned
      by_cases accepted : checkConstraints (localRow env row now) = none ∧
          match store.memories.findSlot (slotOf (localRow env row now)) with
          | some existing => checkConstraints (storeMerge existing (localRow env row now)) = none
          | none => store.memories.find row.id = none
      · exact absurd ⟨gateStorageConn_ok_iff.mp running, consultGovernancePreWrite_ok_iff.mp open_, accepted⟩ refused
      · obtain ⟨error, failed⟩ := upsertStoreMerge_error accepted
        exact absurd (upserted.symm.trans failed) (by simp)

end Insertion

section Rows

variable {env : WriterEnvironment} {db : Database} {id : String} {now : env.chrono.Instant}

/-- A deletion changes the namespace of its row. -/
theorem delete_ok {row : Memory} (running : db.recordStop = none) (found : db.memories.find id = some row)
    (removes : (orphansAtom db fun row => row.id = id) = false) :
    ∃ deleted, delete db id = (deleted, .ok true) ∧ ChangesOnly row.namespace db.memories deleted.memories := by
  let cleared := { db with namespaceMeta := dropStandard db.namespaceMeta id }
  have deletes : deleteFromMemories cleared (fun row => decide (row.id = id)) =
      .ok (deleteMemories cleared fun row => row.id = id) := deleteFromMemories_eq_ok.mpr ⟨removes, rfl⟩
  refine ⟨deleteMemories cleared fun row => row.id = id, ?_, changesOnly_retain found⟩
  unfold delete
  rw [gateStorageConn_ok_iff.mpr running, found]
  dsimp only
  rw [deletes]
  rfl

/-- A deletion without a row, and one that keeps an atom, leaves the rows and the links. -/
theorem delete_idle (idle : db.recordStop = none → (orphansAtom db fun row => row.id = id) = false →
      db.memories.find id = none) :
    (delete db id).1.memories = db.memories ∧ (delete db id).1.memoryLinks = db.memoryLinks := by
  cases outcome : delete db id with
  | mk left answer =>
      cases answer with
      | error error =>
          obtain ⟨_, rfl⟩ := delete_eq_error outcome
          exact ⟨rfl, rfl⟩
      | ok found =>
          obtain ⟨running, removes, _, rfl⟩ := delete_eq_ok outcome
          have others := (db.memories.find_eq_none_iff id).mp (idle running removes)
          have nothing : db.memories.rows.filter (fun row => decide (row.id = id)) = [] :=
            List.filter_eq_nil_iff.mpr fun row present => by simpa using others row present
          constructor
          · exact KeyedTable.retain_eq_self fun row present => by simpa using others row present
          · refine List.filter_eq_self.mpr fun link _ => ?_
            show decide (link.sourceId ∉ (db.memories.rows.filter fun row => decide (row.id = id)).map _ ∧ _) = true
            rw [nothing]
            simp

/-- The promotion in place accepts the row. -/
structure Promotable (env : WriterEnvironment) (store : Store) (row : Memory) : Prop where
  running : store.recordStop = none
  ungoverned : env.governancePreWrite (governedRow promotionPatch row) = none
  constraints : checkConstraints row = none

/-- A promotable row is promoted in place. -/
theorem promotion_ok {row : Memory} (found : db.memories.find id = some row)
    (promotable : Promotable env db.toStore row) :
    ∃ updated result, updateWithExpectedVersion env db.toStore id promotionPatch none now = .ok (updated, result) ∧
      ChangesOnly row.namespace db.memories updated.memories := by
  obtain ⟨running, ungoverned, constraints⟩ := promotable
  have sameId := ((db.memories.find_eq_some_iff _ _).mp found).2
  let written := updatedRow promotionPatch (governedRow promotionPatch row) row (env.chrono.toRfc3339 now)
  have here : db.memories.find written.id = some row := sameId.symm ▸ found
  have noClash := @noClash_of_sameSlot db.memories row written here rfl
  have differs : written ≠ row := by
    intro same
    have versions : row.version + 1 = row.version := congrArg Memory.version same
    omega
  have read : readForUpdate env db.toStore id promotionPatch none = .ok (some row) := by
    rw [readForUpdate, gateStorageConn_ok_iff.mpr running, found]
    simp only [Option.filter_none]
    rw [consultGovernancePreWrite_ok_iff.mpr ungoverned]
    rfl
  have unchanged : contentChanged (governedRow promotionPatch row) row = false := by
    simp [contentChanged, governedRow, promotionPatch]
  refine ⟨{ db.toStore with memories := db.memories.replace written noClash }, (true, false), ?_,
    @changesOnly_replace db.memories written row here noClash differs rfl⟩
  rw [updateWithExpectedVersion, read]
  show commitUpdate env db.toStore id promotionPatch row none now = _
  unfold commitUpdate
  simp only [found, Option.filter_none, unchanged, Bool.false_eq_true, if_false]
  rw [show checkConstraints (updatedRow promotionPatch (governedRow promotionPatch row) row
    (env.chrono.toRfc3339 now)) = none from constraints]
  exact dif_pos noClash

/-- A promotion that does not promote leaves the store. -/
theorem promotion_idle {updated : Store} {result : Bool × Bool}
    (idle : ∀ row ∈ db.memories.find id, ¬ Promotable env db.toStore row)
    (ok : updateWithExpectedVersion env db.toStore id promotionPatch none now = .ok (updated, result)) :
    updated = db.toStore := by
  obtain ⟨read, readOk, committed⟩ := bind_eq_ok.mp ok
  cases read with
  | none => exact (Prod.mk.inj (Except.ok.inj committed)).1.symm
  | some row =>
      have found := readForUpdate_some readOk
      obtain ⟨_, running, ungoverned⟩ := bind_eq_ok.mp readOk
      rw [found] at ungoverned
      obtain ⟨_, permitted, _⟩ := bind_eq_ok.mp ungoverned
      refine absurd ⟨gateStorageConn_ok_iff.mp running, consultGovernancePreWrite_ok_iff.mp permitted, ?_⟩
        (idle row found)
      rcases commitUpdate_written committed with ⟨absent, _, _⟩ | ⟨current, _, stored, _, constraints, _⟩
      · rw [found] at absent
        contradiction
      · obtain rfl : row = current := Option.some.inj (found.symm.trans stored)
        exact constraints

/-- A created link leaves the store. -/
theorem toStore_createLink {linked : Database} {sourceId targetId relation : String}
    (ok : createLink env db sourceId targetId relation now = .ok linked) : linked.toStore = db.toStore :=
  toStore_createLinkSigned ok

/-- The link that nobody has signed. -/
def unsignedLink (env : WriterEnvironment) (sourceId targetId relation : String) (now : env.chrono.Instant) :
    MemoryLink :=
  let stamp := env.chrono.toRfc3339 now
  ⟨sourceId, targetId, relation, stamp, some stamp, none, none, none, "unsigned"⟩

/-- No stop holds the link back, its check passes, and both of its ends are stored. -/
def LinkAccepted (env : WriterEnvironment) (store : Store) (links : List MemoryLink)
    (sourceId targetId relation : String) (now : env.chrono.Instant) : Prop :=
  store.recordStop = none ∧
    env.validateLinkPreCreate store links (unsignedLink env sourceId targetId relation now) = none ∧
    (store.memories.find sourceId).isSome ∧ (store.memories.find targetId).isSome

/-- A link that is there already stays as it is. -/
def linksWith (links : List MemoryLink) (link : MemoryLink) : List MemoryLink :=
  if links.any fun other => other.key = link.key then links else links ++ [link]

/-- A link is created exactly when every check accepts it. -/
theorem createLink_eq_ok {linked : Database} {sourceId targetId relation : String} :
    createLink env db sourceId targetId relation now = .ok linked ↔
      LinkAccepted env db.toStore db.memoryLinks sourceId targetId relation now ∧
        { db with memoryLinks := linksWith db.memoryLinks (unsignedLink env sourceId targetId relation now) } =
          linked := by
  constructor
  · intro ok
    obtain ⟨_, running, checked⟩ := bind_eq_ok.mp ok
    dsimp only at checked
    split at checked
    · cases checked
    · rename_i passed
      by_cases noSource : db.memories.find sourceId = none
      · rw [if_pos noSource] at checked
        cases checked
      · rw [if_neg noSource] at checked
        by_cases noTarget : db.memories.find targetId = none
        · rw [if_pos noTarget] at checked
          cases checked
        · rw [if_neg noTarget] at checked
          exact ⟨⟨gateStorageConn_ok_iff.mp running, passed, Option.isSome_iff_ne_none.mpr noSource,
            Option.isSome_iff_ne_none.mpr noTarget⟩, Except.ok.inj checked⟩
  · rintro ⟨⟨running, passed, source, target⟩, rfl⟩
    refine bind_eq_ok.mpr ⟨(), gateStorageConn_ok_iff.mpr running, ?_⟩
    unfold unsignedLink at passed
    dsimp only at passed ⊢
    rw [passed]
    dsimp only
    rw [if_neg (Option.isSome_iff_ne_none.mp source), if_neg (Option.isSome_iff_ne_none.mp target)]
    rfl

/-- The vertical promotion accepts its source and its target. -/
def Promotes (env : WriterEnvironment) (db : Database) (sourceId toNamespace newId : String)
    (now : env.chrono.Instant) : Prop :=
  toNamespace.isEmpty = false ∧ ∃ source ∈ db.memories.find sourceId, toNamespace ≠ source.namespace ∧
    toNamespace ∈ namespaceAncestors source.namespace ∧
    Insertable env db.toStore (promotedClone source toNamespace newId (env.chrono.toRfc3339 now)) now

/-- An accepted promotion stores its clone and then asks for the edge. -/
theorem promoteToNamespace_eq {source : Memory} {written : Store} {sourceId toNamespace newId actualId : String}
    (found : db.memories.find sourceId = some source)
    (named : toNamespace.isEmpty = false) (differs : toNamespace ≠ source.namespace)
    (ancestor : toNamespace ∈ namespaceAncestors source.namespace)
    (inserted : insert env db.toStore (promotedClone source toNamespace newId (env.chrono.toRfc3339 now)) now =
      .ok (written, actualId)) :
    promoteToNamespace env db sourceId toNamespace newId now =
      match createLink env { db with toStore := written } actualId sourceId "derived_from" now with
      | .error error => ({ db with toStore := written }, .error error)
      | .ok linked => (linked, .ok actualId) := by
  unfold promoteToNamespace
  rw [named, if_neg Bool.false_ne_true, found]
  dsimp only
  rw [if_neg differs, if_neg (not_not.mpr ancestor)]
  exact inserted ▸ rfl

/-- The clone stays even when its link is refused. -/
theorem promoteToNamespace_ok {sourceId toNamespace newId : String}
    (promotes : Promotes env db sourceId toNamespace newId now) :
    ChangesOnly toNamespace db.memories
      (promoteToNamespace env db sourceId toNamespace newId now).1.memories := by
  obtain ⟨named, source, found, differs, ancestor, insertable⟩ := promotes
  obtain ⟨written, actualId, inserted, changed⟩ := insert_ok insertable
  rw [promoteToNamespace_eq found named differs ancestor inserted]
  split
  · exact changed
  · rename_i linked linkedOk
    rw [toStore_createLink linkedOk]
    exact changed

/-- A promotion that is not called for is refused. -/
theorem promoteToNamespace_idle {sourceId toNamespace newId : String}
    (idle : ¬ Promotes env db sourceId toNamespace newId now) :
    ∃ error, promoteToNamespace env db sourceId toNamespace newId now = (db, .error error) := by
  unfold promoteToNamespace
  split_ifs with empty
  · exact ⟨_, rfl⟩
  · split
    · exact ⟨_, rfl⟩
    · rename_i source found
      split_ifs with same ancestor
      · exact ⟨_, rfl⟩
      · have refused : ¬ Insertable env db.toStore
            (promotedClone source toNamespace newId (env.chrono.toRfc3339 now)) now := fun insertable =>
          idle ⟨Bool.not_eq_true _ ▸ empty, source, found, same, ancestor, insertable⟩
        obtain ⟨error, failed⟩ := insert_error refused
        rw [failed]
        exact ⟨error, rfl⟩
      · exact ⟨_, rfl⟩

end Rows

section Reflection

variable {env : GovernanceEnvironment} {db : Database} {input : ReflectInput} {newId : String}
  {now : env.chrono.Instant}

/-- The row that the error policy stores. -/
def rowAsGiven (env : WriterEnvironment) (row : Memory) (now : env.chrono.Instant) : Memory :=
  { row with
    expiresAt := effectiveExpiresAt env.chrono now row
    cid := some (env.stampMemoryCid row)
    version := 1 }

/-- The error policy accepts the row. -/
structure InsertableAsGiven (env : WriterEnvironment) (store : Store) (row : Memory)
    (now : env.chrono.Instant) : Prop where
  running : store.recordStop = none
  ungoverned : env.governancePreWrite row = none
  free : PlainlyInsertable store (rowAsGiven env row now)

/-- An insertable row is inserted where a conflict is an error. -/
theorem insertWithConflict_error_ok {env : WriterEnvironment} {store : Store} {row : Memory}
    {now : env.chrono.Instant} (insertable : InsertableAsGiven env store row now) :
    ∃ written, insertWithConflict env store row now .error = .ok (written, row.id) ∧
      ChangesOnly row.namespace store.memories written.memories := by
  obtain ⟨running, ungoverned, free⟩ := insertable
  obtain ⟨written, inserted, changed⟩ := plainInsert_ok (.conflict "" row.title row.namespace) free
  refine ⟨written, ?_, changed⟩
  have slot : findByTitleNamespace store row.title row.namespace = none := congrArg (Option.map _) free.slot
  rw [insertWithConflict, gateStorageConn_ok_iff.mpr running]
  show consultGovernancePreWrite env.toEnvironment row >>= _ = _
  rw [consultGovernancePreWrite_ok_iff.mpr ungoverned, slot]
  exact inserted

/-- A row that was inserted was insertable. -/
theorem insertWithConflict_error_insertable {env : WriterEnvironment} {store written : Store} {row : Memory}
    {id : String} {now : env.chrono.Instant}
    (ok : insertWithConflict env store row now .error = .ok (written, id)) :
    InsertableAsGiven env store row now ∧ id = row.id := by
  obtain ⟨_, running, rest⟩ := bind_eq_ok.mp ok
  obtain ⟨_, ungoverned, inserted⟩ := bind_eq_ok.mp rest
  split at inserted
  · contradiction
  · by_cases free : PlainlyInsertable store (rowAsGiven env row now)
    · refine ⟨⟨gateStorageConn_ok_iff.mp running, consultGovernancePreWrite_ok_iff.mp ungoverned, free⟩, ?_⟩
      obtain ⟨_, again, _⟩ := plainInsert_ok (.conflict "" row.title row.namespace) free
      exact (Prod.mk.inj (Except.ok.inj (inserted.symm.trans again))).2
    · obtain ⟨error, failed⟩ := plainInsert_error free
      exact absurd (inserted.symm.trans failed) (by simp)

/-- The links of the sources change no row. -/
theorem toStore_linkSources {actualId : String} {linked : Database} {sourceIds : List String}
    (ok : linkSources env actualId now db sourceIds = .ok linked) : linked.toStore = db.toStore := by
  let keepsStore (after : Database) : Prop := after.toStore = db.toStore
  have kept : keepsStore linked := by
    refine foldlM_invariant (fun before sourceId after same step => ?_) ok (show keepsStore db from rfl)
    split at step
    · contradiction
    · exact (toStore_createLink (mapError_eq_ok.mp step)).trans same
  exact kept

/-- The links to the sources are accepted one after the other. -/
def SourcesLinked (env : GovernanceEnvironment) (store : Store) (actualId : String) (now : env.chrono.Instant) :
    List MemoryLink → List String → Prop
  | _, [] => True
  | links, sourceId :: rest =>
      env.validateLink actualId sourceId "reflects_on" = none ∧
        LinkAccepted env.toWriterEnvironment store links actualId sourceId "reflects_on" now ∧
        SourcesLinked env store actualId now
          (linksWith links (unsignedLink env.toWriterEnvironment actualId sourceId "reflects_on" now)) rest

/-- The sources are linked exactly when each link is accepted in its turn. -/
theorem linkSources_ok_iff (db : Database) {actualId : String} {sourceIds : List String} :
    (∃ linked, linkSources env actualId now db sourceIds = .ok linked) ↔
      SourcesLinked env db.toStore actualId now db.memoryLinks sourceIds := by
  induction sourceIds generalizing db with
  | nil => exact iff_of_true ⟨db, rfl⟩ trivial
  | cons sourceId rest ih =>
      unfold linkSources
      constructor
      · rintro ⟨linked, ok⟩
        obtain ⟨middle, step, later⟩ := foldlM_cons_eq_ok.mp ok
        split at step
        · cases step
        · rename_i valid
          obtain ⟨accepted, rfl⟩ := createLink_eq_ok.mp (mapError_eq_ok.mp step)
          exact ⟨valid, accepted, (ih _).mp ⟨linked, later⟩⟩
      · rintro ⟨valid, accepted, later⟩
        obtain ⟨linked, ok⟩ := (ih { db with memoryLinks := linksWith db.memoryLinks _ }).mpr later
        refine ⟨linked, foldlM_cons_eq_ok.mpr ⟨_, ?_, ok⟩⟩
        rw [valid]
        exact mapError_eq_ok.mpr (createLink_eq_ok.mpr ⟨accepted, rfl⟩)

/-- The reflection accepts its input and lands in the target. -/
def Reflectable (env : GovernanceEnvironment) (db : Database) (input : ReflectInput) (newId : String)
    (now : env.chrono.Instant) (target : String) : Prop :=
  validateReflectInput env.toValidators input = none ∧
    ∃ sources, loadSources db input.sourceIds = .ok sources ∧
      target = input.namespace.getD ((sources.head?.map (·.namespace)).getD "") ∧
      (reflectionDepth sources).toNat ≤
        ((env.resolveGovernancePolicy db target).getD .default).effectiveMaxReflectionDepth ∧
      env.decorrelationWriteGate db target input = none ∧
      let row := reflectionRow input target (reflectionDepth sources) newId (env.chrono.toRfc3339 now)
      env.validateMetadata row.metadata = none ∧
        InsertableAsGiven env.toWriterEnvironment db.toStore row now ∧
        ∀ written, insertWithConflict env.toWriterEnvironment db.toStore row now .error = .ok (written, newId) →
          SourcesLinked env written newId now db.memoryLinks input.sourceIds

/-- A reflection that is called for changes its target namespace only. -/
theorem reflect_ok {target : String} (reflectable : Reflectable env db input newId now target) :
    ∃ reflected actualId, reflect env db input newId now = .ok (reflected, actualId) ∧
      ChangesOnly target db.memories reflected.memories := by
  obtain ⟨valid, sources, loaded, rfl, shallow, decorrelated, metadata, insertable, links⟩ := reflectable
  obtain ⟨written, inserted, changed⟩ := insertWithConflict_error_ok insertable
  obtain ⟨linked, linkedOk⟩ := (linkSources_ok_iff { db with toStore := written }).mpr (links written inserted)
  refine ⟨linked, newId, ?_, ?_⟩
  · unfold reflect
    rw [valid, loaded]
    dsimp only [bind, Except.bind]
    rw [if_neg (Nat.not_lt.mpr shallow), decorrelated]
    dsimp only
    rw [metadata]
    dsimp only
    rw [inserted]
    show Except.bind (linkSources _ newId _ _ _) _ = _
    rw [linkedOk]
    rfl
  · rw [toStore_linkSources linkedOk]
    exact changed

/-- A reflection that is not called for is refused. -/
theorem reflect_error (idle : ∀ target, ¬ Reflectable env db input newId now target) :
    ∃ error, reflect env db input newId now = .error error := by
  cases outcome : reflect env db input newId now with
  | error error => exact ⟨error, rfl⟩
  | ok reflected =>
      obtain ⟨valid, sources, loaded, shallow, decorrelated, metadata, inserted, accepted, linkedOk⟩ :=
        reflect_eq_ok outcome
      obtain ⟨insertable, sameId⟩ := insertWithConflict_error_insertable accepted
      rw [sameId] at accepted linkedOk
      refine absurd ⟨valid, sources, loaded, rfl, shallow, decorrelated, metadata, insertable, ?_⟩ (idle _)
      intro written again
      obtain ⟨rfl, _⟩ := Prod.mk.inj (Except.ok.inj (again.symm.trans accepted))
      exact (linkSources_ok_iff { db with toStore := written }).mp ⟨reflected.1, linkedOk⟩

end Reflection

section Action

variable {env : GovernanceEnvironment} {db : Database} {action : PendingAction} {newId : String}
  {now : env.chrono.Instant} {«namespace» : String}

/-- The action changes rows of the namespace: the storage accepts its row, finds its row or promotes it. -/
def ActsAt (env : GovernanceEnvironment) (db : Database) (action : PendingAction) (newId : String)
    (now : env.chrono.Instant) («namespace» : String) : Prop :=
  match action.actionType with
  | "store" => ∃ row ∈ env.memoryFromValue action.payload, row.namespace = «namespace» ∧
      Insertable env.toWriterEnvironment db.toStore (storedAfresh row newId (env.chrono.toRfc3339 now)) now
  | "delete" => ∃ id ∈ action.memoryId, ∃ row ∈ db.memories.find id, row.namespace = «namespace» ∧
      db.recordStop = none ∧ (orphansAtom db fun row => row.id = id) = false
  | "promote" => ∃ id ∈ action.memoryId,
      match payloadStr action.payload "to_namespace" with
      | some toNamespace => toNamespace = «namespace» ∧
          Promotes env.toWriterEnvironment db id toNamespace newId now
      | none => ∃ row ∈ db.memories.find id, row.namespace = «namespace» ∧
          Promotable env.toWriterEnvironment db.toStore row
  | "reflect" => ∃ input, reflectInputOf env action = .ok input ∧ Reflectable env db input newId now «namespace»
  | _ => False

/-- An action that acts changes its namespace only. -/
theorem performAction_acts (acts : ActsAt env db action newId now «namespace») :
    ChangesOnly «namespace» db.memories (performAction env db action newId now).1.memories := by
  unfold ActsAt at acts
  unfold performAction
  dsimp only
  split
  · rename_i kind
    simp only [kind] at acts
    obtain ⟨row, read, rfl, insertable⟩ := acts
    obtain ⟨written, id, inserted, changed⟩ := insert_ok insertable
    rw [Option.mem_def.mp read]
    dsimp only
    rw [inserted]
    exact changed
  · rename_i kind
    simp only [kind] at acts
    obtain ⟨id, named, row, found, rfl, running, removes⟩ := acts
    obtain ⟨deleted, deletedOk, changed⟩ := delete_ok running found removes
    rw [Option.mem_def.mp named]
    dsimp only
    rw [deletedOk]
    exact changed
  · rename_i kind
    simp only [kind] at acts
    obtain ⟨id, named, acts⟩ := acts
    rw [Option.mem_def.mp named]
    dsimp only
    cases given : payloadStr action.payload "to_namespace" with
    | some toNamespace =>
        simp only [given] at acts
        obtain ⟨rfl, promotes⟩ := acts
        exact promoteToNamespace_ok promotes
    | none =>
        simp only [given] at acts
        obtain ⟨row, found, rfl, promotable⟩ := acts
        obtain ⟨updated, result, updatedOk, changed⟩ := promotion_ok found promotable
        dsimp only
        rw [updatedOk]
        exact changed
  · rename_i kind
    simp only [kind] at acts
    obtain ⟨input, read, reflectable⟩ := acts
    obtain ⟨reflected, actualId, reflectedOk, changed⟩ := reflect_ok reflectable
    rw [read]
    dsimp only
    rw [reflectedOk]
    exact changed
  · rename_i unknown
    exact absurd acts (by simp_all)

/-- An action that acts nowhere leaves the rows and the links. -/
theorem performAction_idle (idle : ∀ «namespace», ¬ ActsAt env db action newId now «namespace») :
    (performAction env db action newId now).1.memories = db.memories ∧
      (performAction env db action newId now).1.memoryLinks = db.memoryLinks := by
  unfold ActsAt at idle
  unfold performAction
  dsimp only
  split
  · rename_i kind
    simp only [kind] at idle
    split
    · exact ⟨rfl, rfl⟩
    · rename_i row read
      obtain ⟨error, refused⟩ := insert_error fun insertable => idle row.namespace ⟨row, read, rfl, insertable⟩
      rw [refused]
      exact ⟨rfl, rfl⟩
  · rename_i kind
    simp only [kind] at idle
    split
    · exact ⟨rfl, rfl⟩
    · rename_i id named
      have kept := @delete_idle db id fun running removes => by
        by_contra present
        obtain ⟨row, found⟩ := Option.ne_none_iff_exists'.mp present
        exact idle row.namespace ⟨id, named, row, found, rfl, running, removes⟩
      split <;> rename_i done <;> rw [done] at kept <;> exact kept
  · rename_i kind
    simp only [kind] at idle
    split
    · exact ⟨rfl, rfl⟩
    · rename_i id named
      split
      · rename_i toNamespace given
        simp only [given] at idle
        obtain ⟨error, refused⟩ := promoteToNamespace_idle fun promotes => idle toNamespace ⟨id, named, rfl, promotes⟩
        rw [refused]
        exact ⟨rfl, rfl⟩
      · rename_i absent
        simp only [absent] at idle
        split
        · exact ⟨rfl, rfl⟩
        · rename_i updated result updatedOk
          rw [promotion_idle (fun row found promotable =>
            idle row.namespace ⟨id, named, row, found, rfl, promotable⟩) updatedOk]
          exact ⟨rfl, rfl⟩
  · rename_i kind
    simp only [kind] at idle
    split
    · exact ⟨rfl, rfl⟩
    · rename_i input read
      obtain ⟨error, refused⟩ := reflect_error fun target reflectable => idle target ⟨input, read, reflectable⟩
      rw [refused]
      exact ⟨rfl, rfl⟩
  · exact ⟨rfl, rfl⟩

end Action
end AiMemory.Storage
