import AiMemory.Storage.Columns
import AiMemory.Storage.Fence

/-
This file decides when a restore undoes the archival of a memory.
-/

namespace AiMemory.Storage
open AiMemory.Crdt AiMemory.Library AiMemory.Machine

section Law

variable (env : ColumnEnvironment)

/-- The archival of a memory and its restore at once. -/
def roundTrip (db : ColumnDatabase) (id : String) (reason : Option String)
    (archivedAt restoredAt : env.chrono.Instant) :
    ColumnDatabase :=
  columnStep env (columnStep env db (.archive id reason archivedAt)) (.restore id restoredAt)

/-- The links with all of their columns. -/
def linkRows (db : ColumnDatabase) : Set (MemoryLink × LinkColumns) :=
  {pair | pair.1 ∈ db.memoryLinks ∧ pair.2 = db.linkColumns pair.1.key}

/-- The row is back but for the time of its update, and so are its other columns and every link. -/
structure RoundTrips (db after : ColumnDatabase) (row : Memory) : Prop where
  stored : ∃ back, after.memories.find row.id = some back ∧ back = { row with updatedAt := back.updatedAt }
  columns : after.rowColumns row.id = db.rowColumns row.id
  links : linkRows after = linkRows db

/-- A snapshot of a link of the row whose ends are both live. -/
def Replayed (db : Database) (id : String) (link : MemoryLink) : Prop :=
  link.touches id = true ∧ (db.memories.find link.sourceId).isSome ∧ (db.memories.find link.targetId).isSome

/-- The hook admits the row, its addresses are those of its present text, nothing says how its kind came about, no
link of it carries an address, and every snapshot that the restore replays is a live link. -/
structure Restorable (db : ColumnDatabase) (row : Memory) : Prop where
  admitted : env.governancePreWrite (restoreCandidate env.toWriterEnvironment row) = none
  cid : row.cid = some (env.stampMemoryCid (restoreCandidate env.toWriterEnvironment row))
  columns : db.rowColumns row.id =
    ⟨some (env.canonicalCidPreimage (restoreCandidate env.toWriterEnvironment row)), none⟩
  links : ∀ link ∈ db.memoryLinks, link.touches row.id = true → db.linkColumns link.key = ⟨none, none⟩
  snapshots : ∀ entry ∈ db.archivedMemoryLinks, Replayed db.toDatabase row.id entry.link →
    entry.link ∈ db.memoryLinks

end Law

section Links

variable {env : WriterEnvironment} {db archived restored : Database} {id stamp : String} {row : Memory}
  {now : env.chrono.Instant}

theorem touches_congr {first second : MemoryLink} (same : first.key = second.key) :
    first.touches id = second.touches id := by
  obtain ⟨source, rest⟩ := Prod.mk.inj same
  rw [MemoryLink.touches, MemoryLink.touches, source, (Prod.mk.inj rest).1]

/-- The links after the round trip: the ones beside the row, and the snapshots that are replayed. -/
theorem mem_links_restored (found : db.memories.find id = some row) (moved : Archived db archived id stamp row)
    (restores : Restored env archived restored id row now) (link : MemoryLink) :
    link ∈ restored.memoryLinks ↔ (link ∈ db.memoryLinks ∧ link.touches id = false) ∨
      Replayed db id link ∧ ∃ entry ∈ archiveLinksForMemory db id stamp, entry.link = link := by
  have live (query : String) : (restored.memories.find query).isSome ↔ (db.memories.find query).isSome := by
    rw [restores.find, moved.find]
    split_ifs with here
    · rw [here, found]
      exact iff_of_true rfl rfl
    · exact Iff.rfl
  rw [restores.links, moved.links, moved.snapshots, live, live]
  refine or_congr_right ⟨?_, ?_⟩
  · rintro ⟨snapshot, touching, source, target, _⟩
    exact ⟨⟨touching, source, target⟩, snapshot⟩
  · rintro ⟨⟨touching, source, target⟩, snapshot⟩
    refine ⟨snapshot, touching, source, target, fun other present same => ?_⟩
    have apart := ((moved.links other).mp present).2
    rw [touches_congr same, touching] at apart
    cases apart

/-- A key is still among the links exactly when its link stands beside the row. -/
theorem key_archived_iff (moved : Archived db archived id stamp row) {link : MemoryLink}
    (present : link ∈ db.memoryLinks) :
    (∃ other ∈ archived.memoryLinks, other.key = link.key) ↔ link.touches id = false := by
  constructor
  · rintro ⟨other, kept, same⟩
    rw [← touches_congr same]
    exact ((moved.links other).mp kept).2
  · exact fun apart => ⟨link, (moved.links link).mpr ⟨present, apart⟩, rfl⟩

end Links

section Law

variable {env : ColumnEnvironment} {db : ColumnDatabase} {archived restored : Database} {id stamp : String}
  {row : Memory} {now : env.chrono.Instant}

/-- The columns of a link after the round trip. -/
def restoredLinkColumns (db : ColumnDatabase) (archived : Database) (key : String × String × String) : LinkColumns :=
  if ∃ link ∈ archived.memoryLinks, link.key = key then db.linkColumns key else ⟨none, none⟩

/-- The links come back exactly when none of them loses an address and only live links are replayed. -/
theorem linkRows_roundTrip_iff (wellFormed : WellFormed db.toDatabase) (found : db.memories.find id = some row)
    (moved : Archived db.toDatabase archived id stamp row)
    (restores : Restored env.toWriterEnvironment archived restored id row now) :
    {pair : MemoryLink × LinkColumns | pair.1 ∈ restored.memoryLinks ∧
        pair.2 = restoredLinkColumns db archived pair.1.key} = linkRows db ↔
      (∀ link ∈ db.memoryLinks, link.touches id = true → db.linkColumns link.key = ⟨none, none⟩) ∧
        ∀ entry ∈ db.archivedMemoryLinks, Replayed db.toDatabase id entry.link → entry.link ∈ db.memoryLinks := by
  have stayed {link : MemoryLink} (present : link ∈ db.memoryLinks) (apart : link.touches id = false) :
      restoredLinkColumns db archived link.key = db.linkColumns link.key :=
    if_pos ((key_archived_iff moved present).mpr apart)
  have returned {link : MemoryLink} (present : link ∈ db.memoryLinks) (touching : link.touches id = true) :
      restoredLinkColumns db archived link.key = ⟨none, none⟩ :=
    if_neg fun kept => by
      rw [key_archived_iff moved present, touching] at kept
      cases kept
  constructor
  · intro same
    constructor
    · intro link present touching
      have back : (link, db.linkColumns link.key) ∈ linkRows db := ⟨present, rfl⟩
      rw [← same] at back
      exact back.2.trans (returned present touching)
    · intro entry present replayed
      have snapshot : entry ∈ archiveLinksForMemory db.toDatabase id stamp := archiveLinks_keeps present
      have back : entry.link ∈ restored.memoryLinks :=
        (mem_links_restored found moved restores entry.link).mpr (.inr ⟨replayed, entry, snapshot, rfl⟩)
      have pair : (entry.link, restoredLinkColumns db archived entry.link.key) ∈ linkRows db := by
        rw [← same]
        exact ⟨back, rfl⟩
      exact pair.1
  · rintro ⟨blank, live⟩
    ext ⟨link, columns⟩
    show (link ∈ restored.memoryLinks ∧ columns = _) ↔ link ∈ db.memoryLinks ∧ columns = _
    rw [mem_links_restored found moved restores]
    constructor
    · rintro ⟨⟨present, apart⟩ | ⟨replayed, entry, held, rfl⟩, same⟩
      · exact ⟨present, same.trans (stayed present apart)⟩
      · have present : entry.link ∈ db.memoryLinks := by
          rcases mem_archiveLinks held with old | new
          · exact live entry old replayed
          · exact (List.mem_filter.mp new).1
        exact ⟨present, same.trans ((returned present replayed.1).trans (blank _ present replayed.1).symm)⟩
    · rintro ⟨present, same⟩
      cases touching : link.touches id with
      | false => exact ⟨.inl ⟨present, rfl⟩, same.trans (stayed present touching).symm⟩
      | true =>
          -- The snapshot of this key is a live link, and the key has only one.
          obtain ⟨entry, held, sameKey⟩ :=
            @archiveLinks_covers db.archivedMemoryLinks (db.memoryLinks.filter fun link => link.touches id) stamp link
              (List.mem_filter.mpr ⟨present, touching⟩)
          have ends := wellFormed.ends link present
          obtain ⟨source, rest⟩ := Prod.mk.inj sameKey
          have replayed : Replayed db.toDatabase id entry.link := by
            refine ⟨(touches_congr sameKey).trans touching, ?_, ?_⟩
            · rw [source]
              exact ends.1
            · rw [(Prod.mk.inj rest).1]
              exact ends.2
          have kept : entry.link ∈ db.memoryLinks := by
            rcases mem_archiveLinks held with old | new
            · exact live entry old replayed
            · exact (List.mem_filter.mp new).1
          have one : entry.link = link := List.inj_on_of_nodup_map wellFormed.keys kept present sameKey
          refine ⟨.inr ⟨one ▸ replayed, entry, held, one⟩, ?_⟩
          exact same.trans ((blank link present touching).trans (returned present touching).symm)

/-- The slot of an archived row is free. -/
theorem slot_archived (found : db.memories.find id = some row) (moved : Archived db.toDatabase archived id stamp row) :
    archived.memories.findSlot (slotOf row) = none := by
  rw [KeyedTable.findSlot_eq_none_iff]
  intro other present same
  have kept := (archived.memories.find_eq_some_iff other.id other).mpr ⟨present, rfl⟩
  rw [moved.find] at kept
  split_ifs at kept with apart
  obtain ⟨held, _⟩ := (db.memories.find_eq_some_iff _ _).mp kept
  obtain ⟨stored, rowId⟩ := (db.memories.find_eq_some_iff _ _).mp found
  exact apart ((db.memories.id_of_slot held stored same).trans rowId)

/-- The restore of an archived row is refused exactly where the hook refuses it. -/
theorem restore_refused_iff (wellFormed : WellFormed db.toDatabase) (found : db.memories.find id = some row)
    (moved : Archived db.toDatabase archived id stamp row) (kept : WellFormed archived) :
    Refused (restoreArchived env.toWriterEnvironment archived id now) ↔
      (env.governancePreWrite (restoreCandidate env.toWriterEnvironment row)).isSome := by
  obtain ⟨reason, entry⟩ := moved.entry
  have absent : archived.memories.find id = none := by rw [moved.find, if_pos rfl]
  have checked : checkConstraints (restoredRow env.toWriterEnvironment row now) = none :=
    wellFormed.checked id row found
  have returns : atomReturns archived id = true := by rw [atomReturns, (kept.atomless id).2, Option.all_none]
  rw [restoreArchived_refused_iff, entry]
  simp only [Option.mem_some_iff, exists_eq_left', absent, ne_eq, not_true_eq_false, false_or, checked,
    slot_archived found moved, returns, Option.isSome_none, Bool.false_eq_true, Bool.true_eq_false, or_false]

/-- A restore undoes an archival exactly for a restorable row. -/
theorem roundTrips_iff (wellFormed : WellFormed db.toDatabase) (found : db.memories.find id = some row)
    (valid : env.metadataIsValid row.metadata = true) (reason : Option String)
    (archivedAt restoredAt : env.chrono.Instant) :
    RoundTrips db (roundTrip env db id reason archivedAt restoredAt) row ↔ Restorable env db row := by
  have rowId := ((db.memories.find_eq_some_iff _ _).mp found).2
  have archives := @archiveMemoryNoTx_atomless db.toDatabase row id (env.chrono.toRfc3339 archivedAt) wellFormed found
    reason
  generalize (deleteMemories _ _ : Database) = archived at archives
  have moved := archived_archiveMemoryNoTx found archives
  have step : columnStep env db (.archive id reason archivedAt) = { db with toDatabase := archived } := by
    simp only [columnStep, archiveColumns, archiveMemory, archives]
    rfl
  rw [roundTrip, step]
  have refused := @restore_refused_iff env db archived id _ row restoredAt wellFormed found moved
    (wellFormed_archive wellFormed archives)
  simp only [columnStep, restoreColumns]
  cases ok : restoreArchived env.toWriterEnvironment archived id restoredAt with
  | error reason =>
      have hooked := refused.mp ⟨reason, ok⟩
      refine iff_of_false (fun back => ?_) fun restorable => ?_
      · obtain ⟨row', present, _⟩ := back.stored
        have gone : archived.memories.find row.id = some row' := present
        rw [moved.find, if_pos rowId] at gone
        cases gone
      · rw [restorable.admitted] at hooked
        cases hooked
  | ok result =>
      obtain ⟨restored, flag⟩ := result
      have admitted : env.governancePreWrite (restoreCandidate env.toWriterEnvironment row) = none := by
        by_contra hooked
        obtain ⟨other, failed⟩ := refused.mpr (Option.isSome_iff_ne_none.mpr hooked)
        rw [ok] at failed
        cases failed
      obtain ⟨why, entry⟩ := moved.entry
      rcases restoreArchived_ok ok with ⟨_, _, absent⟩ | ⟨held, rfl, there, restores⟩
      · rw [entry] at absent
        cases absent
      · rw [entry] at there
        cases there
        have links := linkRows_roundTrip_iff wellFormed found moved restores
        have present := restores.find id
        rw [if_pos rfl] at present
        have metadata : (restoreCandidate env.toWriterEnvironment row).metadata = row.metadata := if_pos valid
        simp only [Except.map, Except.toOption, Option.getD_some, if_true, entry, Option.map_some]
        constructor
        · rintro ⟨⟨back, stored, same⟩, columns, sameLinks⟩
          have isBack : back = restoredRow env.toWriterEnvironment row restoredAt := by
            rw [rowId] at stored
            exact Option.some.inj (stored.symm.trans present)
          obtain ⟨blank, live⟩ := links.mp sameLinks
          subst rowId
          exact ⟨admitted, (congrArg Memory.cid same).symm.trans (congrArg Memory.cid isBack),
            columns.symm.trans (if_pos rfl), blank, live⟩
        · rintro ⟨_, cid, columns, blank, live⟩
          subst rowId
          refine ⟨⟨restoredRow env.toWriterEnvironment row restoredAt, present, ?_⟩, ?_, links.mpr ⟨blank, live⟩⟩
          · simp only [restoredRow, metadata, ← cid]
          · exact (if_pos rfl).trans columns.symm

/-- The database before the first call. -/
def ColumnDatabase.fresh : ColumnDatabase where
  memories := KeyedTable.empty
  archivedMemories := []
  forgetTombstones := []
  recordStop := none
  memoryLinks := []
  archivedMemoryLinks := []
  namespaceMeta := []
  atomOf _ := none
  archivedAtomOf _ := none
  rowColumns _ := ⟨none, none⟩
  linkColumns _ := ⟨none, none⟩

theorem wellFormed_fresh : WellFormed ColumnDatabase.fresh.toDatabase where
  checked _ _ none := by cases none
  atomless _ := ⟨rfl, rfl⟩
  ends _ none := absurd none List.not_mem_nil
  keys := List.nodup_nil
  snapshotKeys := List.nodup_nil

/-- After every history a restore undoes the archival of a live memory exactly if the memory is restorable. -/
theorem restore_undoes_archive_iff (calls : List (ColumnCall env))
    (found : (run (columnStep env) .fresh calls).memories.find id = some row)
    (valid : env.metadataIsValid row.metadata = true) (reason : Option String)
    (archivedAt restoredAt : env.chrono.Instant) :
    let reached := run (columnStep env) .fresh calls
    RoundTrips reached (roundTrip env reached id reason archivedAt restoredAt) row ↔ Restorable env reached row :=
  roundTrips_iff (wellFormed_run wellFormed_fresh calls) found valid reason archivedAt restoredAt

end Law

section Samples

/-- The digests cover the two contents of the sample. -/
def samplePreimage (row : Memory) : Bytes :=
  utf8 "memory-cid-v1" ++ [0] ++ utf8 (ownerOf row) ++ [31] ++ utf8 row.namespace ++ [31] ++ utf8 row.title ++ [31] ++
    utf8 row.memoryKind.asStr ++ [31] ++ utf8 row.createdAt ++ [31] ++
    (digestOfTable [(utf8 "c", 0x2e7d2c03a9507ae265ecf5b5356885a53393a2029d241394997265a1a25aefc6),
      (utf8 "new", 0x11507a0e2f5e69d5dfa40a62a1bd7b6ee57e6bcd85c67c9b8431b36fff21c437)] (utf8 row.content)).1

/-- The addresses cover the row of the sample before and after its edit. -/
def sampleCid (row : Memory) : String :=
  if row.content = "c" then "b3:081a85421b83fccea455e3d6c1d85bf1a1036ab0ce8c58bdfb2066c3f704f882"
  else "b3:a90ecc99e73fa56c8f1ecb8c674085790ab2c8c5d685d4fd3cb9d3821b402345"

def sampleColumns : ColumnEnvironment :=
  { openWriterEnvironment with
    stampMemoryCid := sampleCid
    canonicalCidPreimage := samplePreimage
    lineageDagEnabled := false }

def savedRow : Memory := Memory.base "m" "2026-06-16T10:00:00+00:00"

def otherRow : Memory := { Memory.base "n" "2026-06-16T10:00:00+00:00" with title := "u" }

/-- The caller has declared the kind of this row. -/
def declaredRow : Memory := { savedRow with metadata := Json.empty.insert "kind_provenance" (.string "declared") }

/-- The linked row has gone through the archive once. -/
def saved : List (ColumnCall sampleColumns) :=
  [.insert savedRow (0 : Int), .insert otherRow (0 : Int), .createLink "m" "n" "related_to" (0 : Int),
    .archive "m" none (0 : Int), .restore "m" (0 : Int)]

def declared : List (ColumnCall sampleColumns) := [.insert declaredRow (0 : Int)]

def edited : List (ColumnCall sampleColumns) :=
  [.insert savedRow (0 : Int), .update "m" { undoPatch savedRow with content := some "new" } none (0 : Int)]

/-- The link is deleted after its row was archived and restored once. -/
def unlinked : List (ColumnCall sampleColumns) :=
  [.insert savedRow (0 : Int), .insert otherRow (0 : Int), .createLink "m" "n" "related_to" (0 : Int),
    .archive "m" none (0 : Int), .restore "m" (0 : Int), .deleteLink "m" "n"]

def afterHistory (calls : List (ColumnCall sampleColumns)) : ColumnDatabase :=
  run (columnStep sampleColumns) .fresh calls

/-- The second archival of a linked row is undone like the first. -/
theorem saved_restored : (afterHistory saved).memoryLinks.length = 1 ∧
    (afterHistory saved).archivedMemoryLinks.length = 1 ∧ ∃ row, (afterHistory saved).memories.find "m" = some row ∧
      RoundTrips (afterHistory saved)
        (roundTrip sampleColumns (afterHistory saved) "m" none (0 : Int) (0 : Int)) row := by
  refine ⟨by decide +kernel, by decide +kernel, _, rfl,
    (@restore_undoes_archive_iff sampleColumns "m" _ saved rfl rfl none (0 : Int) (0 : Int)).mpr ?_⟩
  refine ⟨rfl, rfl, rfl, fun link present _ => ?_, fun entry stored _ => ?_⟩
  · obtain rfl := List.mem_singleton.mp present
    rfl
  · obtain rfl := List.mem_singleton.mp stored
    exact List.mem_cons_self

/-- A live row of the history comes back changed, or its links do. -/
def LosesRow (calls : List (ColumnCall sampleColumns)) : Prop :=
  ∃ row, (afterHistory calls).memories.find "m" = some row ∧ sampleColumns.metadataIsValid row.metadata = true ∧
    ¬ RoundTrips (afterHistory calls) (roundTrip sampleColumns (afterHistory calls) "m" none (0 : Int) (0 : Int)) row

/-- The declared kind is lost, the edited row gets another address, and the deleted link is back. -/
theorem restore_loses_row : LosesRow declared ∧ LosesRow edited ∧ LosesRow unlinked := by
  have law (calls : List (ColumnCall sampleColumns)) (row : Memory)
      (found : (afterHistory calls).memories.find "m" = some row)
      (valid : sampleColumns.metadataIsValid row.metadata = true)
      (back : RoundTrips (afterHistory calls)
        (roundTrip sampleColumns (afterHistory calls) "m" none (0 : Int) (0 : Int)) row) :
      Restorable sampleColumns (afterHistory calls) row :=
    (roundTrips_iff (wellFormed_run wellFormed_fresh calls) found valid none (0 : Int) (0 : Int)).mp back
  have object : sampleColumns.metadataIsValid
      (localRow sampleColumns.toWriterEnvironment declaredRow (0 : Int)).metadata =
      true := by decide +kernel
  refine ⟨⟨_, rfl, object, fun back => ?_⟩, ⟨_, rfl, rfl, fun back => ?_⟩, ⟨_, rfl, rfl, fun back => ?_⟩⟩
  · have kind := congrArg RowColumns.kindProvenance (law declared _ rfl object back).columns
    exact absurd kind (by decide +kernel)
  · exact absurd (law edited _ rfl rfl back).cid (by decide +kernel)
  · have replayed := (law unlinked _ rfl rfl back).snapshots _ List.mem_cons_self ⟨rfl, rfl, rfl⟩
    exact absurd replayed List.not_mem_nil

end Samples
end AiMemory.Storage
