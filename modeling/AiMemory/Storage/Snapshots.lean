import AiMemory.Library.Run
import AiMemory.Storage.Edits
import AiMemory.Storage.Footprint

/-
This file decides when the archive still holds the content that a call has replaced.
-/

namespace AiMemory.Storage
open AiMemory.Crdt AiMemory.Library AiMemory.Machine

section Undo

structure UndoOutcome where
  applied : Bool
  id : String
  beforeVersion : Int
  afterVersion : Option Int
  beforeTitle : String
  afterTitle : String
  beforeContent : String
  afterContent : String
  deriving DecidableEq, Repr

/-- A row without an owner has the empty one. -/
def ownerOf (row : Memory) : String := ((row.metadata.get "agent_id").bind Json.asStr).getD ""

/-- The snapshot of the last edit that the archive holds. -/
def undoSnapshot (store : Store) (id : String) : Option Memory :=
  (store.archivedMemories.find? fun entry => entry.row.id = id ∧ entry.archiveReason = "in_place_edit").map (·.row)

/-- A caller owns both the row and its snapshot; an operator passes. -/
def undoDenied (id : String) (caller : Option String) (live : Memory) (snapshot : Option Memory) : Option String :=
  caller.bind fun caller =>
    if ownerOf live ≠ caller then
      some ("undo_in_place_edit denied: caller " ++ caller ++ " is not the owner of memory " ++ id)
    else if snapshot.any fun snapshot => ownerOf snapshot ≠ caller then
      some ("undo_in_place_edit denied: caller " ++ caller ++
        " is not the owner of the in_place_edit snapshot for memory " ++ id)
    else none

/-- The undo names every column of the snapshot that it restores. -/
def undoPatch (snapshot : Memory) : Patch where
  title := some snapshot.title
  content := some snapshot.content
  tier := some snapshot.tier
  «namespace» := some snapshot.namespace
  tags := some snapshot.tags
  priority := some snapshot.priority
  confidence := some snapshot.confidence
  expiresAt := snapshot.expiresAt
  metadata := some snapshot.metadata
  sourceUri := snapshot.sourceUri

def undoOutcome (live shown : Memory) (applied : Bool) : UndoOutcome where
  applied := applied
  id := live.id
  beforeVersion := live.version
  afterVersion := if applied then some (live.version + 1) else none
  beforeTitle := live.title
  afterTitle := shown.title
  beforeContent := live.content
  afterContent := shown.content

/-- The undo writes the snapshot through the update, which takes a snapshot of its own. -/
def undoInPlaceEdit (env : WriterEnvironment) (store : Store) (id : String) (caller : Option String) (dryRun : Bool)
    (now : env.chrono.Instant) : Except StorageError (Store × UndoOutcome) :=
  match store.memories.find id with
  | none => .error (.memoryNotFound id none)
  | some live =>
      match undoDenied id caller live (undoSnapshot store id) with
      | some reason => .error (.linkRefused reason)
      | none =>
          match undoSnapshot store id with
          | none => .ok (store, undoOutcome live live false)
          | some snapshot =>
              if dryRun then .ok (store, undoOutcome live snapshot false)
              else do
                let (written, found, _) ←
                  updateWithExpectedVersion env store id (undoPatch snapshot) (some live.version) now
                if found then .ok (written, undoOutcome live snapshot true)
                else .error (.memoryNotFound id none)

end Undo

section Calls

variable (env : WriterEnvironment) (id : String)

/-- The calls on one identifier. -/
inductive ContentCall where
  | update (patch : Patch) (expectedVersion : Option Int) (now : env.chrono.Instant)
  | undo (caller : Option String) (dryRun : Bool) (now : env.chrono.Instant)
  | merge (row : {row : Memory // row.id = id}) (skewSecs : Int) (now : env.chrono.Instant)
  | archive (reason : Option String) (now : env.chrono.Instant)
  | restore (now : env.chrono.Instant)

variable {env id}

/-- The row that a call delivers. -/
def ContentCall.delivered : ContentCall env id → Option Memory
  | .merge row _ _ => some row
  | _ => none

def ContentCall.isRestore : ContentCall env id → Bool
  | .restore _ => true
  | _ => false

/-- A call yields the database that it commits, or fails and rolls back. -/
def afterContentCall (db : Database) : ContentCall env id → Database
  | .update patch expectedVersion now =>
      match updateWithExpectedVersion env db.toStore id patch expectedVersion now with
      | .ok (written, _) => { db with toStore := written }
      | .error _ => db
  | .undo caller dryRun now =>
      match undoInPlaceEdit env db.toStore id caller dryRun now with
      | .ok (written, _) => { db with toStore := written }
      | .error _ => db
  | .merge row skewSecs now =>
      match mergeInbound env.toEnvironment db.toStore row now skewSecs with
      | .ok (written, _) => { db with toStore := written }
      | .error _ => db
  | .archive reason now =>
      match archiveMemory env.chrono db id reason now with
      | .ok (written, _) => written
      | .error _ => db
  | .restore now =>
      match restoreArchived env db id now with
      | .ok (written, _) => written
      | .error _ => db

/-- The record that an update writes into the archive. -/
def updateEntry (store : Store) (patch : Patch) (expectedVersion : Option Int) (now : env.chrono.Instant)
    (live : Memory) : Option ArchivedMemory :=
  match updateWithExpectedVersion env store id patch expectedVersion now with
  | .ok (_, true, true) => some ⟨live, "in_place_edit", env.chrono.toRfc3339 now⟩
  | _ => none

/-- The record that a call writes into the archive. -/
def callEntry (db : Database) (call : ContentCall env id) : Option ArchivedMemory :=
  (db.memories.find id).bind fun live =>
    match call with
    | .update patch expectedVersion now => @updateEntry env id db.toStore patch expectedVersion now live
    | .undo caller dryRun now =>
        match undoDenied id caller live (undoSnapshot db.toStore id), undoSnapshot db.toStore id, dryRun with
        | none, some snapshot, false =>
            @updateEntry env id db.toStore (undoPatch snapshot) (some live.version) now live
        | _, _, _ => none
    | .merge row skewSecs now =>
        match mergeInbound env.toEnvironment db.toStore row now skewSecs with
        | .ok _ => some ⟨live, "federation_merge", env.chrono.toRfc3339 now⟩
        | .error _ => none
    | .archive reason now =>
        match archiveMemory env.chrono db id reason now with
        | .ok _ => some ⟨live, reason.getD "archive", env.chrono.toRfc3339 now⟩
        | .error _ => none
    | .restore _ => none

end Calls

section Effects

variable {env : WriterEnvironment} {id : String} {db : Database}

/-- What a call does to the archive and to the content of its row. -/
structure CallEffect (db after : Database) (id : String) (entry : Option ArchivedMemory) (delivered : Option Memory)
    (restores : Bool) : Prop where
  archived : restores = false → after.archivedMemories = match entry with
    | some entry => archiveRow db.archivedMemories entry.row entry.archiveReason entry.archivedAt
    | none => db.archivedMemories
  live : ∀ written ∈ entry, db.memories.find id = some written.row
  content : ∀ before ∈ db.memories.find id, ∀ now ∈ after.memories.find id, now.content ≠ before.content →
    entry.isSome ∧ ∀ row ∈ delivered, now.content = row.content
  stays : delivered.isSome → (db.memories.find id).isSome → (after.memories.find id).isSome

/-- A call that changes nothing has no effect. -/
theorem CallEffect.idle (delivered : Option Memory) (restores : Bool) :
    CallEffect db db id none delivered restores where
  archived _ := rfl
  live _ none := by cases none
  content before found now same differs := by
    rw [Option.mem_def.mp found] at same
    cases same
    exact absurd rfl differs
  stays _ live := live

/-- A transaction over an unchanged copy writes one row that meets the constraints. -/
theorem commitUpdate_fresh {store written : Store} {patch : Patch} {existing : Memory}
    {expectedVersion : Option Int} {now : env.chrono.Instant} {found changed : Bool}
    (stored : store.memories.find id = some existing)
    (ok : commitUpdate env store id patch existing expectedVersion now = .ok (written, found, changed)) :
    let updated := updatedRow patch (governedRow patch existing) existing (env.chrono.toRfc3339 now)
    found = true ∧ changed = contentChanged (governedRow patch existing) existing ∧
      checkConstraints updated = none ∧ ∀ query, written.memories.find query =
        if query = id then some updated else store.memories.find query := by
  have sameId := ((store.memories.find_eq_some_iff _ _).mp stored).2
  rcases commitUpdate_written ok with ⟨absent, _, _⟩ | ⟨current, noClash, found, answered, sound, rfl⟩
  · rw [stored] at absent
    contradiction
  · obtain rfl : existing = current := Option.some.inj (stored.symm.trans found)
    refine ⟨(Prod.mk.inj answered).1, (Prod.mk.inj answered).2, sound, fun query => ?_⟩
    have updatedId :
        (updatedRow patch (governedRow patch existing) existing (env.chrono.toRfc3339 now)).id = id := sameId
    have lookup := KeyedTable.find_replace_stored ((congrArg _ updatedId).trans stored) noClash query
    rw [updatedId] at lookup
    exact lookup

/-- An update writes its row and archives the stored one where the text changes. -/
theorem updateWithExpectedVersion_ok {store written : Store} {patch : Patch} {expectedVersion : Option Int}
    {now : env.chrono.Instant} {found changed : Bool}
    (ok : updateWithExpectedVersion env store id patch expectedVersion now = .ok (written, found, changed)) :
    (found = false ∧ written = store) ∨ ∃ live, found = true ∧ store.memories.find id = some live ∧
      changed = contentChanged (governedRow patch live) live ∧
      checkConstraints (updatedRow patch (governedRow patch live) live (env.chrono.toRfc3339 now)) = none ∧
      (∀ query, written.memories.find query =
        if query = id then some (updatedRow patch (governedRow patch live) live (env.chrono.toRfc3339 now))
        else store.memories.find query) ∧
      written.archivedMemories = if changed then
          archiveRow store.archivedMemories live "in_place_edit" (env.chrono.toRfc3339 now)
        else store.archivedMemories := by
  obtain ⟨read, readOk, committed⟩ := bind_eq_ok.mp ok
  cases read with
  | none =>
      obtain ⟨rfl, same⟩ := Prod.mk.inj (Except.ok.inj committed)
      exact .inl ⟨(Prod.mk.inj same).1.symm, rfl⟩
  | some existing =>
      have stored := readForUpdate_some readOk
      dsimp only at committed
      obtain ⟨rfl, same, sound, lookups⟩ := commitUpdate_fresh stored committed
      obtain ⟨current, present, _, archived⟩ := commitUpdate_ok committed
      rw [stored] at present
      cases present
      exact .inr ⟨existing, rfl, stored, same, sound, lookups, same ▸ archived⟩

/-- An update has the effect of an edit. -/
theorem updateEffect {patch : Patch} {expectedVersion : Option Int} {now : env.chrono.Instant} {live : Memory}
    (stored : db.memories.find id = some live) :
    CallEffect db
      (match updateWithExpectedVersion env db.toStore id patch expectedVersion now with
        | .ok (written, _) => { db with toStore := written }
        | .error _ => db) id
      (@updateEntry env id db.toStore patch expectedVersion now live) none false := by
  unfold updateEntry
  cases ok : updateWithExpectedVersion env db.toStore id patch expectedVersion now with
  | error refused => exact .idle none false
  | ok result =>
      obtain ⟨written, found, changed⟩ := result
      rcases updateWithExpectedVersion_ok ok with ⟨rfl, rfl⟩ | ⟨row, rfl, present, same, _, lookups, archived⟩
      · exact .idle none false
      · rw [stored] at present
        cases present
        cases changed with
        | false =>
            have unchanged : (governedRow patch live).content = live.content := by
              simp only [contentChanged, Bool.false_eq, Bool.or_eq_false_iff, decide_eq_false_iff_not,
                not_not] at same
              exact same.2
            show CallEffect db { db with toStore := written } id none none false
            rw [if_neg Bool.false_ne_true] at archived
            refine ⟨fun _ => archived, fun _ none => absurd none (Option.not_mem_none _),
              fun before found after writtenRow differs => ?_, fun none => absurd none Bool.false_ne_true⟩
            have kept := lookups id
            rw [if_pos rfl, show written.memories.find id = some after from writtenRow] at kept
            rw [stored] at found
            cases found
            cases kept
            exact absurd unchanged differs
        | true =>
            show CallEffect db { db with toStore := written } id
              (some ⟨live, "in_place_edit", env.chrono.toRfc3339 now⟩) none false
            rw [if_pos rfl] at archived
            refine ⟨fun _ => archived, fun entry here => ?_,
              fun _ _ _ _ _ => ⟨rfl, fun _ none => absurd none (Option.not_mem_none _)⟩,
              fun none => absurd none Bool.false_ne_true⟩
            rw [← Option.some.inj here]
            exact stored

/-- An applied undo is the update to its snapshot. -/
theorem undoEffect {caller : Option String} {dryRun : Bool} {now : env.chrono.Instant} :
    CallEffect db (afterContentCall db (.undo caller dryRun now : ContentCall env id)) id
      (callEntry db (.undo caller dryRun now : ContentCall env id)) none false := by
  unfold afterContentCall callEntry undoInPlaceEdit
  dsimp only
  cases stored : db.memories.find id with
  | none => exact .idle none false
  | some live =>
      simp only [Option.bind_some]
      cases undoDenied id caller live (undoSnapshot db.toStore id) with
      | some reason => exact .idle none false
      | none =>
          cases undoSnapshot db.toStore id with
          | none => exact .idle none false
          | some snapshot =>
              cases dryRun with
              | true => exact .idle none false
              | false =>
                  have applied := @updateEffect env id db (undoPatch snapshot) (some live.version) now live stored
                  convert applied using 1
                  simp only [Bool.false_eq_true, if_false, bind, Except.bind]
                  cases ok : updateWithExpectedVersion env db.toStore id (undoPatch snapshot) (some live.version)
                      now with
                  | error refused => rfl
                  | ok result =>
                      obtain ⟨written, found, changed⟩ := result
                      rcases updateWithExpectedVersion_ok ok with ⟨rfl, rfl⟩ | ⟨_, rfl, _⟩
                      · rfl
                      · rfl

/-- An overwrite keeps the archive. -/
theorem archived_overwriteFullRowById {store written : Store} {row existing : Memory} {now : env.chrono.Instant}
    (found : store.memories.find row.id = some existing)
    (ok : overwriteFullRowById env.toEnvironment store row now = .ok written) :
    written.archivedMemories =
      archiveRow store.archivedMemories existing "federation_merge" (env.chrono.toRfc3339 now) := by
  have sameId := ((store.memories.find_eq_some_iff _ _).mp found).2
  obtain ⟨_, rfl⟩ := overwriteFullRowById_written found ok
  rw [archiveRow, sameId]

/-- An inbound upsert keeps the archive. -/
theorem archived_upsertNewerWins {store written : Store} {row : Memory} {actualId : String}
    (ok : upsertNewerWins store row = .ok (written, actualId)) : written.archivedMemories = store.archivedMemories := by
  obtain ⟨_, ⟨_, _, _, _, _, rfl⟩ | ⟨_, _, _, rfl⟩⟩ := upsertNewerWins_written ok
  · rfl
  · rfl

/-- An inbound copy keeps the archive. -/
theorem archived_insertIfNewer {store written : Store} {row : Memory} {actualId : String}
    {now : env.chrono.Instant}
    (ok : insertIfNewer env.toEnvironment store row now = .ok (written, actualId)) :
    written.archivedMemories = store.archivedMemories := by
  rcases insertIfNewer_ok ok with ⟨_, rfl, _⟩ | ⟨_, upserted⟩
  · rfl
  · exact archived_upsertNewerWins upserted

/-- A delivery archives the row that it merges into, and leaves the content of one of the two rows. -/
theorem mergeEffect (row : {row : Memory // row.id = id}) (skewSecs : Int) (now : env.chrono.Instant) :
    CallEffect db (afterContentCall db (.merge row skewSecs now : ContentCall env id)) id
      (callEntry db (.merge row skewSecs now : ContentCall env id)) (some row) false := by
  obtain ⟨row, rfl⟩ := row
  unfold afterContentCall callEntry
  dsimp only
  cases stored : db.memories.find row.id with
  | none =>
      simp only [Option.bind_none]
      cases ok : mergeInbound env.toEnvironment db.toStore row now skewSecs with
      | error refused => exact .idle _ _
      | ok result =>
          obtain ⟨written, actualId⟩ := result
          have inserted := ok
          rw [mergeInbound, stored] at inserted
          refine ⟨fun _ => archived_insertIfNewer inserted, fun _ none => absurd none (Option.not_mem_none _),
            fun before found => ?_, fun _ live => ?_⟩
          · rw [stored] at found
            exact absurd found (Option.not_mem_none _)
          · rw [stored] at live
            exact absurd live Bool.false_ne_true
  | some live =>
      simp only [Option.bind_some]
      cases ok : mergeInbound env.toEnvironment db.toStore row now skewSecs with
      | error refused => exact .idle _ _
      | ok result =>
          obtain ⟨written, actualId⟩ := result
          have merged := ok
          rw [mergeInbound, stored] at merged
          obtain ⟨store, overwritten, same⟩ := map_eq_ok.mp merged
          obtain ⟨rfl, _⟩ := Prod.mk.inj same
          have liveId := ((db.memories.find_eq_some_iff _ _).mp stored).2
          obtain ⟨metadata, updatedAt, body⟩ :=
            prepareInbound_body env.chrono row (env.chrono.toRfc3339 now) skewSecs
          generalize prepareInbound env.chrono row (env.chrono.toRfc3339 now) skewSecs = prepared at body overwritten
          subst body
          have mergedId := (mergeMemory_id live { row with metadata := metadata, updatedAt := updatedAt }).trans liveId
          have here := (congrArg db.memories.find mergedId).trans stored
          have lookup := find_overwriteFullRowById here overwritten row.id
          rw [if_pos mergedId.symm] at lookup
          refine ⟨fun _ => archived_overwriteFullRowById here overwritten, fun entry there => ?_,
            fun before found after kept differs => ⟨rfl, fun delivered there => ?_⟩, fun _ _ => ?_⟩
          · rw [← Option.some.inj there]
            exact stored
          · rw [stored] at found
            rw [show store.memories.find row.id = some after from kept] at lookup
            cases found
            rw [Option.some.inj lookup] at differs ⊢
            rw [← Option.some.inj there]
            simp only [mergeMemory_content, lww] at differs ⊢
            generalize remoteWinsLww live { row with metadata := metadata, updatedAt := updatedAt } = wins at differs ⊢
            cases wins with
            | true => rfl
            | false => exact absurd rfl differs
          · rw [show store.memories.find row.id = _ from lookup]
            rfl

/-- An archival has the effect of its record. -/
theorem archiveEffect (reason : Option String) (now : env.chrono.Instant) :
    CallEffect db (afterContentCall db (.archive reason now : ContentCall env id)) id
      (callEntry db (.archive reason now : ContentCall env id)) none false := by
  unfold afterContentCall callEntry
  dsimp only
  cases ok : archiveMemory env.chrono db id reason now with
  | error failed =>
      have nothing : ((db.memories.find id).bind fun _ => (none : Option ArchivedMemory)) = none :=
        Option.bind_fun_none _
      rw [nothing]
      exact .idle none false
  | ok result =>
      obtain ⟨written, moved⟩ := result
      rcases archiveMemoryNoTx_eq_ok ok with ⟨_, rfl, absent⟩ | ⟨live, _, stored, _, rfl⟩
      · rw [absent]
        exact .idle none false
      · rw [stored]
        refine ⟨fun _ => rfl, fun entry there => ?_, fun _ _ now kept => ?_, fun none => absurd none Bool.false_ne_true⟩
        · rw [← Option.some.inj there]
          exact stored
        · -- The row has left the live table.
          exfalso
          have gone := (Option.mem_def.mp kept).symm.trans (KeyedTable.find_retain _ _ _)
          obtain ⟨_, left⟩ := Option.filter_eq_some_iff.mp gone.symm
          have sameId := ((KeyedTable.find_eq_some_iff _ _ _).mp (Option.mem_def.mp kept)).2
          simp [sameId] at left

/-- A restoration takes its record away. -/
theorem restoreEffect (now : env.chrono.Instant) :
    CallEffect db (afterContentCall db (.restore now : ContentCall env id)) id
      (callEntry db (.restore now : ContentCall env id)) none true := by
  have idle : callEntry db (.restore now : ContentCall env id) = none := by
    unfold callEntry
    cases db.memories.find id <;> rfl
  rw [idle]
  refine ⟨fun other => absurd other.symm Bool.false_ne_true, fun _ none => absurd none (Option.not_mem_none _),
    fun before found now kept differs => ?_, fun none => absurd none Bool.false_ne_true⟩
  -- A live row is never restored over.
  exfalso
  unfold afterContentCall restoreArchived at kept
  dsimp only at kept
  cases archived : db.archivedMemories.find? fun entry => entry.row.id = id with
  | none =>
      simp only [archived] at kept
      rw [found] at kept
      exact differs (congrArg Memory.content (Option.some.inj kept).symm)
  | some entry =>
      simp only [archived, Option.mem_def.mp found, ne_eq, reduceCtorEq, not_false_eq_true, if_true] at kept
      exact differs (congrArg Memory.content (Option.some.inj kept).symm)

/-- Every call has the effect of its record. -/
theorem callEffect (db : Database) (call : ContentCall env id) :
    CallEffect db (afterContentCall db call) id (callEntry db call) call.delivered call.isRestore := by
  cases call with
  | update patch expectedVersion now =>
      cases stored : db.memories.find id with
      | some live =>
          have updated := @updateEffect env id db patch expectedVersion now live stored
          simp only [callEntry, stored, Option.bind_some]
          exact updated
      | none =>
          simp only [callEntry, stored, Option.bind_none, afterContentCall]
          cases ok : updateWithExpectedVersion env db.toStore id patch expectedVersion now with
          | error refused => exact .idle none false
          | ok result =>
              obtain ⟨written, found, changed⟩ := result
              rcases updateWithExpectedVersion_ok ok with ⟨_, rfl⟩ | ⟨_, _, present, _⟩
              · exact .idle none false
              · rw [stored] at present
                cases present
  | undo caller dryRun now => exact undoEffect
  | merge row skewSecs now => exact mergeEffect row skewSecs now
  | archive reason now => exact archiveEffect reason now
  | restore now => exact restoreEffect now

end Effects

section Runs

variable {env : WriterEnvironment} {id : String}

/-- The database, with the content that the last call replaced and the delivery that did it; a delivery of the same
row again does not count as another call. -/
structure ReplacedRun where
  db : Database
  replaced : Set (String × Option Memory)

def contentOf (db : Database) (id : String) : Option String := (db.memories.find id).map (·.content)

def nextReplaced (state : ReplacedRun) (call : ContentCall env id) (after : Database) :
    Set (String × Option Memory) :=
  {replaced | ∃ before now, contentOf state.db id = some before ∧ contentOf after id = some now ∧
    if now ≠ before then replaced = (before, call.delivered)
    else replaced ∈ state.replaced ∧ replaced.2.isSome ∧ replaced.2 = call.delivered}

def contentStep (state : ReplacedRun) (call : ContentCall env id) : ReplacedRun :=
  let after := afterContentCall state.db call
  ⟨after, nextReplaced state call after⟩

/-- The archive holds the replaced content. -/
def Recoverable (id : String) (state : ReplacedRun) : Prop :=
  ∀ replaced ∈ state.replaced, ∃ entry ∈ state.db.archivedMemories,
    entry.row.id = id ∧ entry.row.content = replaced.1

/-- A record of this kind is no snapshot of a live row. -/
def OfRemoval (entry : ArchivedMemory) : Prop :=
  entry.archiveReason ≠ "in_place_edit" ∧ entry.archiveReason ≠ "federation_merge"

/-- Only a restore takes the record of a removal away. -/
def KeepsRemovals (db : Database) (call : ContentCall env id) : Prop :=
  ∀ old ∈ db.archivedMemories, old.row.id = id → OfRemoval old → call.isRestore = true ∨
    old ∈ (afterContentCall db call).archivedMemories

/-- No row that has replaced the content is merged again, and no record of a removal gives way to another record. -/
def SlotFree (state : ReplacedRun) (call : ContentCall env id) : Prop :=
  ∀ entry ∈ callEntry state.db call,
    (∀ replaced ∈ state.replaced, replaced.2.isSome → replaced.2 ≠ call.delivered) ∧
    ∀ old ∈ state.db.archivedMemories, old.row.id = id → OfRemoval old → old = entry

/-- A delivery that has replaced the content has left its own. -/
def DeliveredContent (id : String) (state : ReplacedRun) : Prop :=
  ∀ replaced ∈ state.replaced, ∀ row ∈ replaced.2,
    contentOf state.db id = some row.content ∧ replaced.1 ≠ row.content

/-- The record of a call is the only one of its identifier. -/
theorem mem_archiveRow_iff {archived : List ArchivedMemory} {entry old : ArchivedMemory}
    (same : old.row.id = entry.row.id) :
    old ∈ archiveRow archived entry.row entry.archiveReason entry.archivedAt ↔ old = entry := by
  unfold archiveRow
  rw [List.mem_append, List.mem_filter, List.mem_singleton]
  constructor
  · rintro (⟨_, other⟩ | new)
    · exact absurd same (by simpa using other)
    · exact new
  · exact fun here => .inr here

/-- Every call keeps the content that was delivered last. -/
theorem deliveredContent_next {state : ReplacedRun} {call : ContentCall env id}
    (delivers : DeliveredContent id state) : DeliveredContent id (contentStep state call) := by
  have effect := callEffect state.db call
  rintro ⟨old, cause⟩ ⟨before, now, was, is, either⟩ row caused
  have caused : cause = some row := caused
  split_ifs at either with differs
  · obtain ⟨rfl, delivered⟩ := Prod.mk.inj either
    obtain ⟨live, found, rfl⟩ := Option.map_eq_some_iff.mp was
    obtain ⟨kept, there, rfl⟩ := Option.map_eq_some_iff.mp is
    have same := (effect.content live found kept there differs).2 row (delivered ▸ caused)
    exact ⟨is.trans (congrArg some same), fun equal => differs (same.trans equal.symm)⟩
  · obtain ⟨earlier, _, _⟩ := either
    obtain ⟨holds, distinct⟩ := delivers _ earlier row caused
    rw [was] at holds
    exact ⟨is.trans ((congrArg some (not_not.mp differs)).trans holds), distinct⟩

/-- A call that leaves a record archives the live row. -/
theorem archived_of_callEntry {db : Database} {call : ContentCall env id} {entry : ArchivedMemory}
    (written : callEntry db call = some entry) :
    call.isRestore = false ∧ db.memories.find id = some entry.row ∧ entry.row.id = id ∧
      (afterContentCall db call).archivedMemories =
        archiveRow db.archivedMemories entry.row entry.archiveReason entry.archivedAt := by
  have effect := callEffect db call
  have live := effect.live entry written
  have noRestore : call.isRestore = false := by
    cases call with
    | restore now =>
        unfold callEntry at written
        rw [live] at written
        cases written
    | _ => rfl
  have archived := effect.archived noRestore
  rw [written] at archived
  exact ⟨noRestore, live, ((db.memories.find_eq_some_iff _ _).mp live).2, archived⟩

/-- A call that records nothing keeps the archive. -/
theorem archived_of_unwritten {db : Database} {call : ContentCall env id} (noRestore : call.isRestore = false)
    (unwritten : callEntry db call = none) :
    (afterContentCall db call).archivedMemories = db.archivedMemories := by
  have archived := (callEffect db call).archived noRestore
  rw [unwritten] at archived
  exact archived

section Slots

variable {state : ReplacedRun} {call : ContentCall env id}

/-- The record of a replacement holds the content that was live before it. -/
theorem SlotFree.recoverable (free : SlotFree state call) (recoverable : Recoverable id state) :
    Recoverable id (contentStep state call) := by
  rintro ⟨old, cause⟩ ⟨before, now, was, is, either⟩
  show ∃ entry ∈ (afterContentCall state.db call).archivedMemories, _
  split_ifs at either with differs
  · obtain ⟨rfl, _⟩ := Prod.mk.inj either
    obtain ⟨live, found, rfl⟩ := Option.map_eq_some_iff.mp was
    obtain ⟨kept, there, rfl⟩ := Option.map_eq_some_iff.mp is
    have recorded := ((callEffect state.db call).content live found kept there differs).1
    obtain ⟨entry, written⟩ := Option.isSome_iff_exists.mp recorded
    obtain ⟨_, stored, entryId, archived⟩ := archived_of_callEntry written
    have sameRow : live = entry.row := Option.some.inj (found.symm.trans stored)
    refine ⟨entry, ?_, entryId, congrArg Memory.content sameRow.symm⟩
    rw [archived]
    exact (mem_archiveRow_iff rfl).mpr rfl
  · obtain ⟨earlier, someCause, same⟩ := either
    have unwritten : callEntry state.db call = none := by
      by_contra present
      obtain ⟨entry, written⟩ := Option.ne_none_iff_exists'.mp present
      exact (free entry written).1 _ earlier someCause same
    have noRestore : call.isRestore = false := by
      cases call with
      | restore now =>
          rw [show cause = none from same] at someCause
          exact absurd someCause Bool.false_ne_true
      | _ => rfl
    rw [archived_of_unwritten noRestore unwritten]
    exact recoverable _ earlier

/-- A call with a free slot keeps the record of the removals. -/
theorem SlotFree.keepsRemovals (free : SlotFree state call) : KeepsRemovals state.db call := by
  intro old present sameId removal
  cases restores : call.isRestore with
  | true => exact .inl rfl
  | false =>
      refine .inr ?_
      cases written : callEntry state.db call with
      | none =>
          rw [archived_of_unwritten restores written]
          exact present
      | some entry =>
          rw [(archived_of_callEntry written).2.2.2, (free entry written).2 old present sameId removal]
          exact (mem_archiveRow_iff rfl).mpr rfl

/-- A second delivery keeps the content, so its record would hold the content that is live. -/
theorem not_redelivered (delivers : DeliveredContent id state) (kept : Recoverable id (contentStep state call))
    {entry : ArchivedMemory} (written : callEntry state.db call = some entry) {replaced : String × Option Memory}
    (earlier : replaced ∈ state.replaced) (someCause : replaced.2.isSome) : replaced.2 ≠ call.delivered := by
  intro same
  obtain ⟨old, cause⟩ := replaced
  obtain ⟨row, rfl⟩ := Option.isSome_iff_exists.mp someCause
  obtain ⟨holds, distinct⟩ := delivers _ earlier row rfl
  obtain ⟨_, live, entryId, archived⟩ := archived_of_callEntry written
  have effect := callEffect state.db call
  have stays := effect.stays (same ▸ rfl) (live ▸ rfl)
  obtain ⟨after, there⟩ := Option.isSome_iff_exists.mp stays
  have liveContent : entry.row.content = row.content := by
    rw [contentOf, live] at holds
    exact Option.some.inj holds
  have unchanged : after.content = entry.row.content := by
    by_contra differs
    have delivered := (effect.content entry.row live after there differs).2 row same.symm
    exact differs (delivered.trans liveContent.symm)
  have remains : (old, some row) ∈ (contentStep state call).replaced := by
    refine ⟨entry.row.content, after.content, congrArg (Option.map _) live, congrArg (Option.map _) there, ?_⟩
    rw [if_neg (not_not.mpr unchanged)]
    exact ⟨earlier, rfl, same⟩
  obtain ⟨record, present, recordId, recordContent⟩ := kept _ remains
  have here : record ∈ archiveRow state.db.archivedMemories entry.row entry.archiveReason entry.archivedAt :=
    (congrArg (record ∈ ·) archived).mp present
  rw [(mem_archiveRow_iff (recordId.trans entryId.symm)).mp here] at recordContent
  exact distinct (recordContent.symm.trans liveContent)

/-- A call keeps the replaced content and the removals exactly when the slot of its record is free. -/
theorem slotFree_iff (recoverable : Recoverable id state) (delivers : DeliveredContent id state) :
    SlotFree state call ↔ Recoverable id (contentStep state call) ∧ KeepsRemovals state.db call := by
  constructor
  · exact fun free => ⟨free.recoverable recoverable, free.keepsRemovals⟩
  · rintro ⟨kept, keeps⟩ entry written
    refine ⟨fun replaced earlier someCause => not_redelivered delivers kept written earlier someCause, ?_⟩
    obtain ⟨noRestore, _, entryId, archived⟩ := archived_of_callEntry written
    intro old present sameId removal
    rcases keeps old present sameId removal with restores | stays
    · rw [noRestore] at restores
      exact absurd restores Bool.false_ne_true
    · rw [archived] at stays
      exact (mem_archiveRow_iff (sameId.trans entryId.symm)).mp stays

end Slots

/-- Over every sequence of calls on one identifier, each replaced content stays in the archive and each removal keeps
its record exactly when the slots are free. -/
theorem replaced_content_kept_iff (db : Database) (calls : List (ContentCall env id)) :
    EveryStep contentStep SlotFree ⟨db, ∅⟩ calls ↔
      EveryStep contentStep
        (fun state call => Recoverable id (contentStep state call) ∧ KeepsRemovals state.db call) ⟨db, ∅⟩ calls :=
  @EveryStep.congr_of_invariant _ _ contentStep _ _ (fun state => Recoverable id state ∧ DeliveredContent id state)
    (fun _ _ holds => slotFree_iff holds.1 holds.2)
    (fun _ _ holds kept => ⟨kept.1, deliveredContent_next holds.2⟩) _ calls
    ⟨fun _ none => none.elim, fun _ none => none.elim⟩

end Runs

section Samples

def emptyDatabase : Database := ⟨emptyStore, [], [], [], fun _ => none, fun _ => none⟩

def earlierRow : Memory := { Memory.base "peer-id" "2026-06-16T10:00:00+00:00" with content := "old" }

def laterRow : Memory := { Memory.base "peer-id" "2026-06-16T10:05:00+00:00" with content := "new" }

def delivery (row : {row : Memory // row.id = "peer-id"}) : ContentCall openWriterEnvironment "peer-id" :=
  .merge row 300 (0 : Int)

/-- The peer delivers its newer row twice. -/
def deliveredTwice : List (ContentCall openWriterEnvironment "peer-id") :=
  [delivery ⟨earlierRow, rfl⟩, delivery ⟨laterRow, rfl⟩, delivery ⟨laterRow, rfl⟩]

/-- The peer delivers its rows again after the archival. -/
def deliveredOver : List (ContentCall openWriterEnvironment "peer-id") :=
  [delivery ⟨earlierRow, rfl⟩, .archive none (0 : Int), delivery ⟨earlierRow, rfl⟩, delivery ⟨laterRow, rfl⟩]

/-- The second delivery puts the new content over the old one, and a new snapshot takes the place of the removal. -/
theorem deliveredTwice_loses_content :
    (¬ EveryStep contentStep
      (fun state call => Recoverable "peer-id" (contentStep state call) ∧ KeepsRemovals state.db call)
      ⟨emptyDatabase, ∅⟩ deliveredTwice) ∧
    ¬ EveryStep contentStep
      (fun state call => Recoverable "peer-id" (contentStep state call) ∧ KeepsRemovals state.db call)
      ⟨emptyDatabase, ∅⟩ deliveredOver := by
  constructor
  · rintro ⟨_, _, ⟨recoverable, _⟩, _⟩
    have remains : ("old", some laterRow) ∈
        (run contentStep ⟨emptyDatabase, ∅⟩ deliveredTwice).replaced :=
      ⟨"new", "new", rfl, rfl, ⟨"old", "new", rfl, rfl, rfl⟩, rfl, rfl⟩
    obtain ⟨entry, present, _, content⟩ := recoverable _ remains
    have only : (run contentStep ⟨emptyDatabase, ∅⟩ deliveredTwice).db.archivedMemories.map (·.row.content) =
        ["new"] := by decide +kernel
    have new : entry.row.content = "new" := List.mem_singleton.mp (only ▸ List.mem_map_of_mem present)
    exact absurd (content.symm.trans new) (by decide)
  · rintro ⟨_, _, _, ⟨_, keeps⟩, _⟩
    have before : (run contentStep ⟨emptyDatabase, ∅⟩ (deliveredOver.take 3)).db.archivedMemories.map
        (fun entry => (entry.row.id, entry.archiveReason)) = [("peer-id", "archive")] := by decide +kernel
    have after : (run contentStep ⟨emptyDatabase, ∅⟩ deliveredOver).db.archivedMemories.map
        (fun entry => (entry.row.id, entry.archiveReason)) = [("peer-id", "federation_merge")] := by decide +kernel
    obtain ⟨entry, present, named⟩ := List.mem_map.mp (before ▸ List.mem_singleton.mpr rfl)
    obtain ⟨sameId, reason⟩ := Prod.mk.inj named
    have removal : OfRemoval entry := by
      unfold OfRemoval
      rw [reason]
      decide
    rcases keeps entry present sameId removal with restores | stays
    · exact absurd restores Bool.false_ne_true
    · have listed := after ▸ List.mem_map_of_mem
        (f := fun entry : ArchivedMemory => (entry.row.id, entry.archiveReason)) stays
      have other := (Prod.mk.inj (List.mem_singleton.mp listed)).2
      rw [reason] at other
      exact absurd other (by decide)

end Samples
end AiMemory.Storage
