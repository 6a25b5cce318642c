import AiMemory.Library.Run
import AiMemory.Storage.ReadableContent
import AiMemory.Storage.Snapshots

/-
This file embeds the columns that the archive does not carry, and the constraints that every history keeps.
-/

namespace AiMemory.Storage
open AiMemory.Crdt AiMemory.Library AiMemory.Machine

section Model

/-- The columns of a live row that its archived copy lacks. -/
structure RowColumns where
  cidGenesis : Option Bytes
  kindProvenance : Option String
  deriving DecidableEq

/-- The columns of a link that its snapshot lacks. -/
structure LinkColumns where
  sourceCid : Option String
  targetCid : Option String
  deriving DecidableEq

/-- The columns stand beside the rows and the links that they belong to. -/
structure ColumnDatabase extends Database where
  rowColumns : String → RowColumns
  linkColumns : String × String × String → LinkColumns

/-- The process also has the bytes that an address commits to and the switch of the lineage columns. -/
structure ColumnEnvironment extends WriterEnvironment where
  canonicalCidPreimage : Memory → Bytes
  lineageDagEnabled : Bool

variable (env : ColumnEnvironment) (db : ColumnDatabase)

def setRowColumns (id : String) (columns : RowColumns) : ColumnDatabase :=
  { db with rowColumns := fun query => if query = id then columns else db.rowColumns query }

def kindProvenanceTexts : List String := ["declared", "channel_derived", "regex", "llm"]

/-- A text outside of the vocabulary counts as none. -/
def extractKindProvenance (row : Memory) : Option String :=
  ((row.metadata.get "kind_provenance").bind Json.asStr).filter fun text => text ∈ kindProvenanceTexts

/-- A fresh row gets its own genesis; a merged row keeps the stored one. -/
def insertColumns (row : Memory) (now : env.chrono.Instant) : Except StorageError ColumnDatabase :=
  (insert env.toWriterEnvironment db.toStore row now).map fun (written, id) =>
    let redacted := redactMemoryForStorage env.redactForStorage row
    let provenance := extractKindProvenance redacted
    let columns : RowColumns := match db.memories.find id with
      | none => ⟨some (env.canonicalCidPreimage redacted), provenance⟩
      | some _ => ⟨(db.rowColumns id).cidGenesis, provenance.or (db.rowColumns id).kindProvenance⟩
    setRowColumns { db with toStore := written } id columns

def updateColumns (id : String) (patch : Patch) (expectedVersion : Option Int) (now : env.chrono.Instant) :
    Except StorageError ColumnDatabase :=
  (updateWithExpectedVersion env.toWriterEnvironment db.toStore id patch expectedVersion now).map
    fun (written, _) => { db with toStore := written }

def readMemoryCid (id : String) : Option String := (db.memories.find id).bind (·.cid)

/-- A new link takes the addresses that its ends have now. -/
def createLinkColumns (sourceId targetId relation : String) (now : env.chrono.Instant) :
    Except StorageError ColumnDatabase :=
  (createLinkSigned env.toWriterEnvironment db.toDatabase sourceId targetId relation now).map fun linked =>
    { db with
      toDatabase := linked
      linkColumns := fun key =>
        if key = (sourceId, targetId, relation) ∧ (∀ link ∈ db.memoryLinks, link.key ≠ key) ∧
            env.lineageDagEnabled = true then ⟨readMemoryCid db sourceId, readMemoryCid db targetId⟩
        else if key = (sourceId, targetId, relation) ∧ ∀ link ∈ db.memoryLinks, link.key ≠ key then ⟨none, none⟩
        else db.linkColumns key }

/-- The deletion takes every relation between the two ends. -/
def deleteLink (sourceId targetId : String) : ColumnDatabase :=
  { db with memoryLinks := db.memoryLinks.filter fun link => !(link.sourceId = sourceId && link.targetId = targetId) }

def archiveColumns (id : String) (reason : Option String) (now : env.chrono.Instant) :
    Except StorageError (ColumnDatabase × Bool) :=
  (archiveMemory env.chrono db.toDatabase id reason now).map fun (archived, moved) =>
    ({ db with toDatabase := archived }, moved)

/-- A restored row gets a new genesis and no provenance of its kind, and a restored link gets no addresses. -/
def restoreColumns (id : String) (now : env.chrono.Instant) : Except StorageError (ColumnDatabase × Bool) :=
  (restoreArchived env.toWriterEnvironment db.toDatabase id now).map fun (restored, moved) =>
    let unlinked : ColumnDatabase := { db with
      toDatabase := restored
      linkColumns := fun key =>
        if ∃ link ∈ db.memoryLinks, link.key = key then db.linkColumns key else ⟨none, none⟩ }
    let columns : RowColumns := {
      cidGenesis := (db.archivedMemories.find? fun entry => entry.row.id = id).map fun entry =>
        env.canonicalCidPreimage (restoreCandidate env.toWriterEnvironment entry.row)
      kindProvenance := none }
    (if moved then setRowColumns unlinked id columns else db, moved)

/-- The calls of a history. -/
inductive ColumnCall where
  | insert (row : Memory) (now : env.chrono.Instant)
  | update (id : String) (patch : Patch) (expectedVersion : Option Int) (now : env.chrono.Instant)
  | createLink (sourceId targetId relation : String) (now : env.chrono.Instant)
  | deleteLink (sourceId targetId : String)
  | archive (id : String) (reason : Option String) (now : env.chrono.Instant)
  | restore (id : String) (now : env.chrono.Instant)

/-- A call yields the database that it commits, or fails and rolls back. -/
def columnStep : ColumnCall env → ColumnDatabase
  | .insert row now => (insertColumns env db row now).toOption.getD db
  | .update id patch expectedVersion now => (updateColumns env db id patch expectedVersion now).toOption.getD db
  | .createLink sourceId targetId relation now =>
      (createLinkColumns env db sourceId targetId relation now).toOption.getD db
  | .deleteLink sourceId targetId => deleteLink db sourceId targetId
  | .archive id reason now => ((archiveColumns env db id reason now).map (·.1)).toOption.getD db
  | .restore id now => ((restoreColumns env db id now).map (·.1)).toOption.getD db

end Model

section WellFormed

/-- The constraints of the schema: the ranges of a row, both ends of a link, and one link and one snapshot a key. No
call of a history makes an atom. -/
structure WellFormed (db : Database) : Prop where
  checked : ∀ id row, db.memories.find id = some row → checkConstraints row = none
  atomless : ∀ id, db.atomOf id = none ∧ db.archivedAtomOf id = none
  ends : ∀ link ∈ db.memoryLinks, (db.memories.find link.sourceId).isSome ∧ (db.memories.find link.targetId).isSome
  keys : (db.memoryLinks.map MemoryLink.key).Nodup
  snapshotKeys : (db.archivedMemoryLinks.map fun entry => entry.link.key).Nodup

/-- A write that keeps the identifiers keeps the links well-formed. -/
theorem WellFormed.withStore {db : Database} {store : Store} (wellFormed : WellFormed db)
    (checked : ∀ id row, store.memories.find id = some row → checkConstraints row = none)
    (stays : ∀ id, (db.memories.find id).isSome → (store.memories.find id).isSome) :
    WellFormed { db with toStore := store } where
  checked := checked
  atomless := wellFormed.atomless
  ends link present := ⟨stays _ (wellFormed.ends link present).1, stays _ (wellFormed.ends link present).2⟩
  keys := wellFormed.keys
  snapshotKeys := wellFormed.snapshotKeys

/-- A write of one row that meets the constraints keeps them. -/
theorem WellFormed.withRow {db : Database} {store : Store} {row : Memory} {id : String}
    (wellFormed : WellFormed db) (sound : checkConstraints row = none)
    (lookups : ∀ query, store.memories.find query = if query = id then some row else db.memories.find query) :
    WellFormed { db with toStore := store } := by
  refine wellFormed.withStore (fun query stored found => ?_) fun query live => ?_
  · rw [lookups] at found
    split_ifs at found
    · rw [← Option.some.inj found]
      exact sound
    · exact wellFormed.checked query stored found
  · rw [lookups]
    split_ifs
    · rfl
    · exact live

variable {env : WriterEnvironment} {db : Database} {store written : Store} {row : Memory} {id : String}
  {now : env.chrono.Instant}

/-- An insertion keeps the constraints. -/
theorem wellFormed_insert (wellFormed : WellFormed db)
    (ok : insert env db.toStore row now = .ok (written, id)) : WellFormed { db with toStore := written } := by
  obtain ⟨_, _, ungated⟩ := bind_eq_ok.mp ok
  obtain ⟨_, _, upserted⟩ := bind_eq_ok.mp ungated
  rcases find_upsertStoreMerge upserted with ⟨existing, _, _, _, sound, lookups⟩ | ⟨_, _, lookups⟩
  · exact wellFormed.withRow sound lookups
  · exact wellFormed.withRow (upsertStoreMerge_written upserted).1 lookups

/-- An update keeps the constraints. -/
theorem wellFormed_update {patch : Patch} {expectedVersion : Option Int} {found changed : Bool}
    (wellFormed : WellFormed db)
    (ok : updateWithExpectedVersion env db.toStore id patch expectedVersion now = .ok (written, found, changed)) :
    WellFormed { db with toStore := written } := by
  rcases updateWithExpectedVersion_ok ok with ⟨_, rfl⟩ | ⟨_, _, _, _, sound, lookups, _⟩
  · exact wellFormed
  · exact wellFormed.withRow sound lookups

/-- A new link keeps the constraints. -/
theorem wellFormed_createLink {linked : Database} {sourceId targetId relation : String}
    (wellFormed : WellFormed db) (ok : createLinkSigned env db sourceId targetId relation now = .ok linked) :
    WellFormed linked := by
  have created := linked_createLinkSigned ok
  rcases created.links with rfl | ⟨free, link, key, rfl⟩
  · exact wellFormed
  · obtain ⟨sameSource, sameTarget, _⟩ : link.sourceId = sourceId ∧ link.targetId = targetId ∧
        link.relation = relation := by simpa [MemoryLink.key] using key
    refine ⟨wellFormed.checked, wellFormed.atomless, fun other present => ?_, ?_, wellFormed.snapshotKeys⟩
    · rcases List.mem_append.mp present with old | new
      · exact wellFormed.ends other old
      · rw [List.mem_singleton.mp new, sameSource, sameTarget]
        exact ⟨created.source, created.target⟩
    · rw [List.map_append]
      refine List.nodup_append.mpr ⟨wellFormed.keys, List.nodup_singleton _, ?_⟩
      intro first old second new
      rw [List.map_singleton, List.mem_singleton, key] at new
      rw [new]
      exact fun same => free (same ▸ old)

theorem wellFormed_filterLinks (wellFormed : WellFormed db) (keep : MemoryLink → Bool) :
    WellFormed { db with memoryLinks := db.memoryLinks.filter keep } where
  checked := wellFormed.checked
  atomless := wellFormed.atomless
  ends link present := wellFormed.ends link (List.mem_filter.mp present).1
  keys := wellFormed.keys.sublist (List.filter_sublist.map _)
  snapshotKeys := wellFormed.snapshotKeys

end WellFormed

section Snapshots

variable {snapshots : List ArchivedMemoryLink} {links : List MemoryLink} {stamp : String}

theorem archiveLink_keeps (link : MemoryLink) {entry : ArchivedMemoryLink} (present : entry ∈ snapshots) :
    entry ∈ archiveLink stamp snapshots link := by
  unfold archiveLink
  split_ifs
  · exact present
  · exact List.mem_append_left _ present

/-- The snapshots hold what they held, and every link has a snapshot of its key. -/
theorem archiveLinks_keeps {entry : ArchivedMemoryLink} (present : entry ∈ snapshots) :
    entry ∈ links.foldl (archiveLink stamp) snapshots := by
  induction links generalizing snapshots with
  | nil => exact present
  | cons link links ih => exact ih (archiveLink_keeps link present)

theorem archiveLinks_covers {link : MemoryLink} (present : link ∈ links) :
    ∃ entry ∈ links.foldl (archiveLink stamp) snapshots, entry.link.key = link.key := by
  induction links generalizing snapshots with
  | nil => exact absurd present List.not_mem_nil
  | cons head links ih =>
      rcases List.mem_cons.mp present with rfl | later
      · have here : ∃ entry ∈ archiveLink stamp snapshots link, entry.link.key = link.key := by
          unfold archiveLink
          split_ifs with known
          · simpa using known
          · exact ⟨⟨link, stamp⟩, List.mem_append_right _ List.mem_cons_self, rfl⟩
        obtain ⟨entry, held, same⟩ := here
        exact ⟨entry, @archiveLinks_keeps (archiveLink stamp snapshots link) links stamp entry held, same⟩
      · exact ih later

/-- A snapshot is an old one, or the one of a link. -/
theorem mem_archiveLinks {entry : ArchivedMemoryLink} (present : entry ∈ links.foldl (archiveLink stamp) snapshots) :
    entry ∈ snapshots ∨ entry.link ∈ links := by
  induction links generalizing snapshots with
  | nil => exact .inl present
  | cons link links ih =>
      rcases ih present with held | later
      · unfold archiveLink at held
        split_ifs at held
        · exact .inl held
        · rcases List.mem_append.mp held with old | new
          · exact .inl old
          · rw [List.mem_singleton.mp new]
            exact .inr List.mem_cons_self
      · exact .inr (List.mem_cons_of_mem _ later)

/-- No link has two snapshots. -/
theorem nodup_archiveLinks (keys : (snapshots.map fun entry => entry.link.key).Nodup) :
    ((links.foldl (archiveLink stamp) snapshots).map fun entry => entry.link.key).Nodup := by
  induction links generalizing snapshots with
  | nil => exact keys
  | cons link links ih =>
      refine ih ?_
      unfold archiveLink
      split_ifs with known
      · exact keys
      · rw [List.map_append]
        refine List.nodup_append.mpr ⟨keys, List.nodup_singleton _, ?_⟩
        intro first old second new same
        obtain ⟨entry, present, rfl⟩ := List.mem_map.mp old
        rw [List.map_singleton, List.mem_singleton] at new
        refine known (List.any_eq_true.mpr ⟨entry, present, ?_⟩)
        rw [new] at same
        exact decide_eq_true same

end Snapshots

section Moves

variable {env : WriterEnvironment} {db : Database} {row : Memory} {id stamp : String}

/-- The archival leaves the other rows and the links between them. -/
structure Archived (db archived : Database) (id stamp : String) (row : Memory) : Prop where
  find : ∀ query, archived.memories.find query = if query = id then none else db.memories.find query
  links : ∀ link, link ∈ archived.memoryLinks ↔ link ∈ db.memoryLinks ∧ link.touches id = false
  entry : ∃ reason, archived.archivedMemories.find? (fun entry => entry.row.id = id) = some ⟨row, reason, stamp⟩
  snapshots : archived.archivedMemoryLinks = archiveLinksForMemory db id stamp

/-- Without an atom every archival of a live row succeeds. -/
theorem archiveMemoryNoTx_atomless (wellFormed : WellFormed db) (found : db.memories.find id = some row)
    (reason : Option String) : archiveMemoryNoTx db id reason stamp =
      .ok (deleteMemories (archivedCopy db row (reason.getD "archive") stamp) fun other => other.id = id, true) := by
  have kept : orphansAtom (archivedCopy db row (reason.getD "archive") stamp) (fun other => other.id = id) = false := by
    unfold orphansAtom
    rw [List.any_eq_false]
    intro atom _
    rw [show (archivedCopy db row (reason.getD "archive") stamp).atomOf atom.id = none from
      (wellFormed.atomless atom.id).1, Option.any_none, Bool.and_false]
    exact Bool.false_ne_true
  unfold archiveMemoryNoTx
  rw [found]
  dsimp only
  rw [deleteFromMemories_eq_ok.mpr ⟨kept, rfl⟩]
  rfl

/-- A successful archival moves the row and its links. -/
theorem archived_archiveMemoryNoTx {archived : Database} {reason : Option String} {moved : Bool}
    (found : db.memories.find id = some row) (ok : archiveMemoryNoTx db id reason stamp = .ok (archived, moved)) :
    Archived db archived id stamp row := by
  have rowId := ((db.memories.find_eq_some_iff _ _).mp found).2
  have present := ((db.memories.find_eq_some_iff _ _).mp found).1
  rcases archiveMemoryNoTx_eq_ok ok with ⟨_, _, absent⟩ | ⟨other, _, again, _, rfl⟩
  · rw [found] at absent
    cases absent
  obtain rfl := Option.some.inj (found.symm.trans again)
  refine ⟨fun query => ?_, fun link => ?_, ⟨reason.getD "archive", ?_⟩, ?_⟩
  · show (db.memories.retain _).find query = _
    rw [KeyedTable.find_retain]
    cases other : db.memories.find query with
    | none =>
        split_ifs
        · rfl
        · rfl
    | some stored =>
        have storedId := ((db.memories.find_eq_some_iff _ _).mp other).2
        rw [Option.filter_some]
        by_cases same : query = id <;> simp [storedId, same]
  · show link ∈ db.memoryLinks.filter _ ↔ _
    rw [List.mem_filter]
    refine and_congr_right fun _ => ?_
    have gone (query : String) : query ∈ (db.memories.rows.filter fun row => row.id = id).map (·.id) ↔ query = id := by
      constructor
      · intro listed
        obtain ⟨other, kept, rfl⟩ := List.mem_map.mp listed
        simpa using (List.mem_filter.mp kept).2
      · rintro rfl
        exact List.mem_map.mpr ⟨row, List.mem_filter.mpr ⟨present, by simpa using rowId⟩, rowId⟩
    simp only [archivedCopy, gone, MemoryLink.touches, decide_eq_true_eq, Bool.or_eq_false_iff,
      decide_eq_false_iff_not]
  · show (archiveRow db.archivedMemories row _ stamp).find? _ = _
    unfold archiveRow
    rw [List.find?_append]
    have none : (db.archivedMemories.filter fun entry => entry.row.id ≠ row.id).find?
        (fun entry => entry.row.id = id) = none := by
      rw [List.find?_eq_none]
      intro entry kept
      simpa [rowId] using (List.mem_filter.mp kept).2
    rw [none, Option.none_or]
    simp [rowId]
  · show archiveLinksForMemory db row.id stamp = _
    rw [rowId]

/-- What was archived keeps the constraints. -/
theorem wellFormed_archived {archived : Database} (wellFormed : WellFormed db)
    (moved : Archived db archived id stamp row) (keys : (archived.memoryLinks.map MemoryLink.key).Nodup)
    (atomless : ∀ id, archived.atomOf id = none ∧ archived.archivedAtomOf id = none) :
    WellFormed archived where
  checked query stored found := by
    rw [moved.find] at found
    split_ifs at found
    exact wellFormed.checked query stored found
  atomless := atomless
  ends link present := by
    obtain ⟨old, apart⟩ := (moved.links link).mp present
    simp only [MemoryLink.touches, Bool.or_eq_false_iff, decide_eq_false_iff_not] at apart
    rw [moved.find, moved.find, if_neg apart.1, if_neg apart.2]
    exact wellFormed.ends link old
  keys := keys
  snapshotKeys := by
    rw [moved.snapshots]
    exact nodup_archiveLinks wellFormed.snapshotKeys

/-- An archival keeps the constraints. -/
theorem wellFormed_archive {archived : Database} {reason : Option String} {moved : Bool} (wellFormed : WellFormed db)
    (ok : archiveMemoryNoTx db id reason stamp = .ok (archived, moved)) : WellFormed archived := by
  rcases archiveMemoryNoTx_eq_ok ok with ⟨_, rfl, _⟩ | ⟨row, _, found, _, rfl⟩
  · exact wellFormed
  · refine wellFormed_archived wellFormed (archived_archiveMemoryNoTx found ok)
      (wellFormed.keys.sublist (List.filter_sublist.map _)) fun query => ⟨?_, ?_⟩
    · show (if _ then none else db.atomOf query) = none
      rw [(wellFormed.atomless query).1, ite_self]
    · show copyAtoms db [row] query = none
      rw [copyAtoms, (wellFormed.atomless query).1, (wellFormed.atomless query).2, ite_self]

/-- The restore adds the archived row, and the snapshots of its links whose ends are live and whose keys are free. -/
structure Restored (env : WriterEnvironment) (db restored : Database) (id : String) (row : Memory)
    (now : env.chrono.Instant) : Prop where
  absent : db.memories.find id = none
  checked : checkConstraints (restoredRow env row now) = none
  find : ∀ query, restored.memories.find query =
    if query = id then some (restoredRow env row now) else db.memories.find query
  links : ∀ link, link ∈ restored.memoryLinks ↔ link ∈ db.memoryLinks ∨
    (∃ snapshot ∈ db.archivedMemoryLinks, snapshot.link = link) ∧ link.touches id = true ∧
      (restored.memories.find link.sourceId).isSome ∧ (restored.memories.find link.targetId).isSome ∧
      ∀ other ∈ db.memoryLinks, other.key ≠ link.key
  keys : WellFormed db → (restored.memoryLinks.map MemoryLink.key).Nodup
  atoms : restored.atomOf = Function.update db.atomOf id (db.archivedAtomOf id) ∧
    restored.archivedAtomOf = db.archivedAtomOf
  snapshots : restored.archivedMemoryLinks = db.archivedMemoryLinks

theorem isSome_find_iff (table : MemoryTable) (id : String) :
    (table.find id).isSome ↔ id ∈ table.rows.map (·.id) := by
  rw [Option.isSome_iff_exists, List.mem_map]
  exact exists_congr fun row => table.find_eq_some_iff id row

/-- A restoration moves the archived row back or finds none. -/
theorem restoreArchived_ok {restored : Database} {moved : Bool} {now : env.chrono.Instant}
    (ok : restoreArchived env db id now = .ok (restored, moved)) :
    (moved = false ∧ restored = db ∧ db.archivedMemories.find? (fun entry => entry.row.id = id) = none) ∨
      ∃ entry, moved = true ∧
      db.archivedMemories.find? (fun entry => entry.row.id = id) = some entry ∧
      Restored env db restored id entry.row now := by
  rcases restoreArchived_eq_ok ok with
    absent | ⟨entry, inserted, actualId, rfl, found, entryId, free, _, insertedOk, _, rfl⟩
  · exact .inl absent
  · obtain ⟨_, rfl, lookups⟩ := find_plainInsert insertedOk
    have restoredId : (restoredRow env entry.row now).id = id := entryId
    rw [restoredId] at lookups
    refine .inr ⟨entry, rfl, found, free, (plainInsert_written insertedOk).1, lookups, fun link => ?_,
      fun wellFormed => ?_, ⟨rfl, rfl⟩, rfl⟩
    · rw [List.mem_append, List.mem_filter, List.mem_map]
      refine or_congr_right (and_congr_right fun _ => ?_)
      simp only [Bool.decide_and, Bool.and_eq_true, decide_eq_true_eq, ← isSome_find_iff]
    · rw [List.map_append]
      refine List.nodup_append.mpr ⟨wellFormed.keys, ?_, ?_⟩
      · have all : ((db.archivedMemoryLinks.map (·.link)).map MemoryLink.key).Nodup := by
          rw [List.map_map]
          exact wellFormed.snapshotKeys
        exact all.sublist (List.filter_sublist.map _)
      · intro first old second new same
        obtain ⟨link, present, rfl⟩ := List.mem_map.mp old
        obtain ⟨other, kept, rfl⟩ := List.mem_map.mp new
        have free := (List.mem_filter.mp kept).2
        simp only [Bool.decide_and, Bool.and_eq_true, decide_eq_true_eq] at free
        exact free.2.2.2 link present same

/-- What was restored keeps the constraints. -/
theorem wellFormed_restored {restored : Database} {now : env.chrono.Instant} (wellFormed : WellFormed db)
    (moved : Restored env db restored id row now) : WellFormed restored where
  checked query stored found := by
    rw [moved.find] at found
    split_ifs at found
    · rw [← Option.some.inj found]
      exact moved.checked
    · exact wellFormed.checked query stored found
  atomless query := by
    rw [moved.atoms.1, moved.atoms.2, Function.update_apply, (wellFormed.atomless id).2,
      (wellFormed.atomless query).1, ite_self]
    exact ⟨rfl, (wellFormed.atomless query).2⟩
  ends link present := by
    rcases (moved.links link).mp present with old | ⟨_, _, source, target, _⟩
    · have stays (query : String) (live : (db.memories.find query).isSome) :
          (restored.memories.find query).isSome := by
        rw [moved.find]
        split_ifs
        · rfl
        · exact live
      exact ⟨stays _ (wellFormed.ends link old).1, stays _ (wellFormed.ends link old).2⟩
    · exact ⟨source, target⟩
  keys := moved.keys wellFormed
  snapshotKeys := by
    rw [moved.snapshots]
    exact wellFormed.snapshotKeys

end Moves

section Histories

variable {env : ColumnEnvironment}

/-- Every call keeps the constraints of the schema. -/
theorem wellFormed_step {db : ColumnDatabase} (wellFormed : WellFormed db.toDatabase) (call : ColumnCall env) :
    WellFormed (columnStep env db call).toDatabase := by
  cases call with
  | insert row now =>
      simp only [columnStep, insertColumns]
      cases ok : insert env.toWriterEnvironment db.toStore row now with
      | error refused => exact wellFormed
      | ok result => exact wellFormed_insert wellFormed ok
  | update id patch expectedVersion now =>
      simp only [columnStep, updateColumns]
      cases ok : updateWithExpectedVersion env.toWriterEnvironment db.toStore id patch expectedVersion now with
      | error refused => exact wellFormed
      | ok result => exact wellFormed_update wellFormed ok
  | createLink sourceId targetId relation now =>
      simp only [columnStep, createLinkColumns]
      cases ok : createLinkSigned env.toWriterEnvironment db.toDatabase sourceId targetId relation now with
      | error refused => exact wellFormed
      | ok linked => exact wellFormed_createLink wellFormed ok
  | deleteLink sourceId targetId => exact wellFormed_filterLinks wellFormed _
  | archive id reason now =>
      simp only [columnStep, archiveColumns]
      cases ok : archiveMemory env.chrono db.toDatabase id reason now with
      | error refused => exact wellFormed
      | ok result => exact wellFormed_archive wellFormed ok
  | restore id now =>
      simp only [columnStep, restoreColumns]
      cases ok : restoreArchived env.toWriterEnvironment db.toDatabase id now with
      | error refused => exact wellFormed
      | ok result =>
          obtain ⟨restored, moved⟩ := result
          rcases restoreArchived_ok ok with ⟨rfl, rfl, _⟩ | ⟨entry, rfl, _, restores⟩
          · exact wellFormed
          · exact wellFormed_restored wellFormed restores

/-- So does every history. -/
theorem wellFormed_run {db : ColumnDatabase} (wellFormed : WellFormed db.toDatabase) (calls : List (ColumnCall env)) :
    WellFormed (run (columnStep env) db calls).toDatabase :=
  @run_invariant_always _ _ (columnStep env) (fun db => WellFormed db.toDatabase) (fun _ call holds =>
    wellFormed_step holds call) db calls wellFormed

end Histories
end AiMemory.Storage
