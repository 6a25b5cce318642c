import AiMemory.Library.Interleaving
import AiMemory.Storage.Update

/-
This file decides which interleaved edits of one row survive.
-/

namespace AiMemory.Storage
open AiMemory.Crdt AiMemory.Library AiMemory.Machine

/-- The columns that the edits of a row set. -/
inductive Field where
  | title | content | tier | «namespace» | tags | priority | confidence | expiresAt | metadata
  | sourceUri | accessCount | lastAccessedAt
  deriving DecidableEq, Repr

namespace Field

abbrev Value : Field → Type
  | title => String
  | content => String
  | tier => Tier
  | «namespace» => String
  | tags => List String
  | priority => Int
  | confidence => F64
  | expiresAt => Option String
  | metadata => Json
  | sourceUri => Option String
  | accessCount => Int
  | lastAccessedAt => Option String

def get (row : Memory) : (field : Field) → field.Value
  | title => row.title
  | content => row.content
  | tier => row.tier
  | «namespace» => row.namespace
  | tags => row.tags
  | priority => row.priority
  | confidence => row.confidence
  | expiresAt => row.expiresAt
  | metadata => row.metadata
  | sourceUri => row.sourceUri
  | accessCount => row.accessCount
  | lastAccessedAt => row.lastAccessedAt

/-- A row keeps the value that was asked for; a request for a tier is kept by every tier that lasts as long. -/
def Keeps : (field : Field) → field.Value → field.Value → Prop
  | tier, asked, actual => asked.rank ≤ actual.rank
  | title, asked, actual => actual = asked
  | content, asked, actual => actual = asked
  | «namespace», asked, actual => actual = asked
  | tags, asked, actual => actual = asked
  | priority, asked, actual => actual = asked
  | confidence, asked, actual => actual = asked
  | expiresAt, asked, actual => actual = asked
  | metadata, asked, actual => actual = asked
  | sourceUri, asked, actual => actual = asked
  | accessCount, asked, actual => actual = asked
  | lastAccessedAt, asked, actual => actual = asked

theorem keeps_self (field : Field) (value : field.Value) : field.Keeps value value := by
  cases field <;> first | exact le_refl _ | rfl

/-- The update statement writes these columns from the copy that the call read. -/
def fromCopy : Field → Bool
  | sourceUri => false
  | accessCount => false
  | lastAccessedAt => false
  | _ => true

end Field

section Asks

/-- What a patch asks for; the empty text asks for no expiry. -/
def Patch.asks (patch : Patch) : (field : Field) → Option field.Value
  | .title => patch.title
  | .content => patch.content
  | .tier => patch.tier
  | .namespace => patch.namespace
  | .tags => patch.tags
  | .priority => patch.priority
  | .confidence => patch.confidence
  | .expiresAt => patch.expiresAt.map fun text => patchedExpiresAt (some text) none
  | .metadata => patch.metadata
  | .sourceUri => patch.sourceUri.map some
  | .accessCount => none
  | .lastAccessedAt => none

/-- An access asks for its counters, and for the tier, the expiry and the priority that it changes. -/
def touchAsks (before after : Memory) : (field : Field) → Option field.Value
  | .accessCount => some after.accessCount
  | .lastAccessedAt => some after.lastAccessedAt
  | .tier => if after.tier = before.tier then none else some after.tier
  | .expiresAt => if after.expiresAt = before.expiresAt then none else some after.expiresAt
  | .priority => if after.priority = before.priority then none else some after.priority
  | _ => none

/-- A conserved contradiction asks for the marked metadata. -/
def conserveAsks (after : Memory) : (field : Field) → Option field.Value
  | .metadata => some after.metadata
  | _ => none

end Asks

section History

/-- A history remembers what the successful calls asked of the row. -/
structure History where
  db : Database
  asked : (field : Field) → Option field.Value

def History.start (db : Database) : History := ⟨db, fun _ => none⟩

/-- A successful call replaces the database and what it asks for. -/
def History.record (history : History) (db : Database) (asks : (field : Field) → Option field.Value) : History where
  db := db
  asked field := (asks field).or (history.asked field)

variable (env : WriterEnvironment)

/-- An update waits between its read and its transaction; the other calls are one transaction. -/
inductive EditCall where
  | pending (patch : Patch) (existing : Memory) (expectedVersion : Option Int) (now : env.chrono.Instant)
  | finished

inductive EditRequest where
  | update (patch : Patch) (expectedVersion : Option Int) (now : env.chrono.Instant)
  | touchMany (ids : List String) (shortExtend midExtend : Int) (now : env.chrono.Instant)
  | conserve (winnerId : String) (now : env.chrono.Instant)

variable (id : String)

/-- The asks of a finished transaction compare the row before it with the row after it. -/
def recordRow (history : History) (db : Database) (asks : Memory → Memory → (field : Field) → Option field.Value) :
    History :=
  match history.db.memories.find id, db.memories.find id with
  | some before, some after => history.record db (asks before after)
  | _, _ => { history with db := db }

/-- The first statement of a call. -/
def enterEdit (request : EditRequest env) (history : History) : History × EditCall env :=
  match request with
  | .update patch expectedVersion now =>
      match readForUpdate env history.db.toStore id patch expectedVersion with
      | .ok (some existing) => (history, .pending patch existing expectedVersion now)
      | _ => (history, .finished)
  | .touchMany ids shortExtend midExtend now =>
      let touched := touchMany env.chrono shortExtend midExtend now history.db.toStore ids
      (recordRow id history { history.db with toStore := touched } touchAsks, .finished)
  | .conserve winnerId now =>
      match conserveContradiction env history.db id winnerId now with
      | .ok marked => (recordRow id history marked fun _ => conserveAsks, .finished)
      | .error _ => (history, .finished)

/-- The transaction of an update. -/
def commitEdit (call : EditCall env) (history : History) : History × EditCall env :=
  match call with
  | .finished => (history, .finished)
  | .pending patch existing expectedVersion now =>
      match commitUpdate env history.db.toStore id patch existing expectedVersion now with
      | .ok (written, true, _) => (history.record { history.db with toStore := written } patch.asks, .finished)
      | _ => (history, .finished)

/-- The row has what the last successful call asked for in each field. -/
def Kept (history : History) : Prop :=
  ∀ row ∈ history.db.memories.find id, ∀ field, ∀ value ∈ history.asked field, field.Keeps value (field.get row)

/-- A replaced title or content has just been copied to the archive. -/
def Copied (before after : Store) : Prop :=
  ∀ row ∈ before.memories.find id, ∀ written ∈ after.memories.find id,
    (written.title, written.content) ≠ (row.title, row.content) →
      ∃ stamp, after.archivedMemories = archiveRow before.archivedMemories row "in_place_edit" stamp

end History

section Undisturbed

variable {env : WriterEnvironment} (id : String)

/-- The copy still holds what the last successful call asked for in every column that the update takes from it, and
it notices every change of the text that the update makes. -/
def Undisturbed (history : History) (patch : Patch) (existing : Memory) : Prop :=
  (∀ field, field.fromCopy = true → patch.asks field = none → ∀ value ∈ history.asked field,
    field.Keeps value (field.get existing)) ∧
  ∀ row ∈ history.db.memories.find id, contentChanged (governedRow patch existing) row = true →
    contentChanged (governedRow patch existing) existing = true

/-- The transaction of an update writes: it finds a row of the expected version, and the row that it writes passes the
checks of the table and takes the slot of no other row. -/
def Writes (history : History) (patch : Patch) (existing : Memory) (expectedVersion : Option Int)
    (now : env.chrono.Instant) : Prop :=
  ∃ current ∈ history.db.memories.find id, (∀ expected ∈ expectedVersion, current.version = expected) ∧
    let written := updatedRow patch (governedRow patch existing) current (env.chrono.toRfc3339 now)
    checkConstraints written = none ∧
      ∀ other ∈ history.db.memories.findSlot (slotOf written), other.id = written.id

/-- A turn is undisturbed unless it writes an update over a copy that others have overtaken. -/
def UndisturbedTurn (session : Session History (EditCall env)) (turn : Turn (EditRequest env)) : Prop :=
  match session.resumed turn with
  | some (.pending patch existing expectedVersion now) =>
      Writes id session.shared patch existing expectedVersion now → Undisturbed id session.shared patch existing
  | _ => True

end Undisturbed

section Rows

variable {env : WriterEnvironment} {id : String}

/-- No update makes a row less durable than asked. -/
theorem rank_effectiveTier (requested existing : Tier) :
    requested.rank ≤ (effectiveTier (some requested) existing).rank := by
  cases requested <;> cases existing <;> decide

/-- The update writes each column that the patch names. -/
theorem updatedRow_asked {patch : Patch} {existing current : Memory} {stamp : String} {field : Field}
    {value : field.Value} (asks : patch.asks field = some value) :
    field.Keeps value (field.get (updatedRow patch (governedRow patch existing) current stamp)) := by
  cases field with
  | tier =>
      change value.rank ≤ (effectiveTier patch.tier existing.tier).rank
      rw [show patch.tier = some value from asks]
      exact rank_effectiveTier value existing.tier
  | expiresAt =>
      obtain ⟨text, named, rfl⟩ := Option.map_eq_some_iff.mp asks
      change patchedExpiresAt patch.expiresAt existing.expiresAt = patchedExpiresAt (some text) none
      rw [named]
      unfold patchedExpiresAt
      split <;> simp_all
  | sourceUri =>
      obtain ⟨text, named, rfl⟩ := Option.map_eq_some_iff.mp asks
      change patch.sourceUri.or current.sourceUri = some text
      rw [named, Option.some_or]
  | accessCount => cases asks
  | lastAccessedAt => cases asks
  | title =>
      change patch.title.getD existing.title = value
      rw [show patch.title = some value from asks, Option.getD_some]
  | content =>
      change patch.content.getD existing.content = value
      rw [show patch.content = some value from asks, Option.getD_some]
  | «namespace» =>
      change patch.namespace.getD existing.namespace = value
      rw [show patch.namespace = some value from asks, Option.getD_some]
  | tags =>
      change patch.tags.getD existing.tags = value
      rw [show patch.tags = some value from asks, Option.getD_some]
  | priority =>
      change patch.priority.getD existing.priority = value
      rw [show patch.priority = some value from asks, Option.getD_some]
  | confidence =>
      change patch.confidence.getD existing.confidence = value
      rw [show patch.confidence = some value from asks, Option.getD_some]
  | metadata =>
      change patch.metadata.getD existing.metadata = value
      rw [show patch.metadata = some value from asks, Option.getD_some]

/-- The update writes every other column of its copy back, and leaves the columns outside of the copy. -/
theorem updatedRow_unasked {patch : Patch} {existing current : Memory} {stamp : String} {field : Field}
    (unasked : patch.asks field = none) :
    field.get (updatedRow patch (governedRow patch existing) current stamp) =
      if field.fromCopy then field.get existing else field.get current := by
  cases field with
  | tier => exact congrArg (effectiveTier · existing.tier) unasked
  | expiresAt =>
      exact congrArg (patchedExpiresAt · existing.expiresAt) (Option.map_eq_none_iff.mp unasked)
  | sourceUri =>
      change patch.sourceUri.or current.sourceUri = current.sourceUri
      rw [Option.map_eq_none_iff.mp unasked, Option.none_or]
  | accessCount => rfl
  | lastAccessedAt => rfl
  | title => exact congrArg (Option.getD · existing.title) unasked
  | content => exact congrArg (Option.getD · existing.content) unasked
  | «namespace» => exact congrArg (Option.getD · existing.namespace) unasked
  | tags => exact congrArg (Option.getD · existing.tags) unasked
  | priority => exact congrArg (Option.getD · existing.priority) unasked
  | confidence => exact congrArg (Option.getD · existing.confidence) unasked
  | metadata => exact congrArg (Option.getD · existing.metadata) unasked

/-- A successful transaction writes the stored row, and archives it if its copy says so. -/
theorem commitUpdate_ok {store written : Store} {patch : Patch} {existing : Memory}
    {expectedVersion : Option Int} {now : env.chrono.Instant} {changed : Bool}
    (ok : commitUpdate env store id patch existing expectedVersion now = .ok (written, true, changed)) :
    ∃ current, store.memories.find id = some current ∧
      written.memories.find id = some (updatedRow patch (governedRow patch existing) current
        (env.chrono.toRfc3339 now)) ∧
      written.archivedMemories =
        if contentChanged (governedRow patch existing) existing then
          archiveRow store.archivedMemories current "in_place_edit" (env.chrono.toRfc3339 now)
        else store.archivedMemories := by
  rcases commitUpdate_written ok with ⟨_, _, answered⟩ | ⟨current, _, found, _, _, rfl⟩
  · exact Bool.noConfusion (Prod.mk.inj answered).1
  · have sameId := ((store.memories.find_eq_some_iff _ _).mp found).2
    refine ⟨current, found, ?_, rfl⟩
    rw [KeyedTable.find_replace, found]
    exact congrArg some (if_pos sameId.symm)

/-- A transaction that answers with a written row is one that writes. -/
theorem writes_of_commitUpdate {history : History} {written : Store} {patch : Patch} {existing : Memory}
    {expectedVersion : Option Int} {now : env.chrono.Instant} {changed : Bool}
    (ok : commitUpdate env history.db.toStore id patch existing expectedVersion now = .ok (written, true, changed)) :
    Writes id history patch existing expectedVersion now := by
  unfold commitUpdate at ok
  dsimp only at ok
  split at ok
  · exact Bool.noConfusion (Prod.mk.inj (Prod.mk.inj (Except.ok.inj ok)).2).1
  · rename_i current found
    split at ok
    · contradiction
    · rename_i expectedIt
      split at ok
      · contradiction
      · rename_i checked
        split at ok
        · rename_i noClash
          refine ⟨current, found, ?_, checked, noClash⟩
          intro expected asked
          have unfiltered := (Option.filter_eq_none_iff.mp expectedIt) expected asked
          simpa using unfiltered
        · contradiction

/-- The columns that an access leaves. -/
structure SameBody (before after : Memory) : Prop where
  title : after.title = before.title
  content : after.content = before.content
  «namespace» : after.namespace = before.namespace
  tags : after.tags = before.tags
  confidence : after.confidence = before.confidence
  metadata : after.metadata = before.metadata
  sourceUri : after.sourceUri = before.sourceUri

theorem SameBody.trans {first second third : Memory} (before : SameBody first second)
    (after : SameBody second third) : SameBody first third :=
  ⟨after.title.trans before.title, after.content.trans before.content, after.namespace.trans before.namespace,
    after.tags.trans before.tags, after.confidence.trans before.confidence, after.metadata.trans before.metadata,
    after.sourceUri.trans before.sourceUri⟩

/-- A touch keeps the body. -/
theorem sameBody_touchRow (chrono : Chrono) (shortExtend midExtend : Int) (now : chrono.Instant) (row : Memory) :
    SameBody row (touchRow chrono shortExtend midExtend now row) := by
  unfold touchRow raisePriority promote
  split_ifs <;> exact ⟨rfl, rfl, rfl, rfl, rfl, rfl, rfl⟩

/-- A batch of accesses finds every row that it leaves, and leaves its body. -/
theorem find_touchMany {chrono : Chrono} {shortExtend midExtend : Int} {now : chrono.Instant} {ids : List String}
    {store : Store} {row : Memory}
    (found : (touchMany chrono shortExtend midExtend now store ids).memories.find id = some row) :
    ∃ before, store.memories.find id = some before ∧ SameBody before row := by
  induction ids generalizing store with
  | nil => exact ⟨row, found, rfl, rfl, rfl, rfl, rfl, rfl, rfl⟩
  | cons first rest ih =>
      obtain ⟨middle, touched, same⟩ := ih found
      rw [touch, find_rewriteRow] at touched
      obtain ⟨before, stored, rfl⟩ := Option.map_eq_some_iff.mp touched
      refine ⟨before, stored, ?_⟩
      by_cases isFirst : id = first
      · rw [if_pos isFirst] at same
        exact (sameBody_touchRow chrono shortExtend midExtend now before).trans same
      · rwa [if_neg isFirst] at same

/-- An access changes only what it asks for. -/
theorem touchAsks_complete {before after : Memory} (same : SameBody before after) (field : Field) :
    touchAsks before after field = some (field.get after) ∨
      touchAsks before after field = none ∧ field.get after = field.get before := by
  obtain ⟨title, content, «namespace», tags, confidence, metadata, sourceUri⟩ := same
  cases field with
  | accessCount => exact .inl rfl
  | lastAccessedAt => exact .inl rfl
  | tier =>
      by_cases kept : after.tier = before.tier
      · exact .inr ⟨if_pos kept, kept⟩
      · exact .inl (if_neg kept)
  | expiresAt =>
      by_cases kept : after.expiresAt = before.expiresAt
      · exact .inr ⟨if_pos kept, kept⟩
      · exact .inl (if_neg kept)
  | priority =>
      by_cases kept : after.priority = before.priority
      · exact .inr ⟨if_pos kept, kept⟩
      · exact .inl (if_neg kept)
  | title => exact .inr ⟨rfl, title⟩
  | content => exact .inr ⟨rfl, content⟩
  | «namespace» => exact .inr ⟨rfl, «namespace»⟩
  | tags => exact .inr ⟨rfl, tags⟩
  | confidence => exact .inr ⟨rfl, confidence⟩
  | metadata => exact .inr ⟨rfl, metadata⟩
  | sourceUri => exact .inr ⟨rfl, sourceUri⟩

/-- A created link passed its checks between two live rows, and it is appended where its key is free. -/
structure Linked (env : WriterEnvironment) (db linked : Database) (sourceId targetId relation : String) : Prop where
  passed : ∃ link : MemoryLink, link.key = (sourceId, targetId, relation) ∧
    env.validateLinkPreCreate db.toStore db.memoryLinks link = none
  source : (db.memories.find sourceId).isSome
  target : (db.memories.find targetId).isSome
  links : linked = db ∨ (sourceId, targetId, relation) ∉ db.memoryLinks.map MemoryLink.key ∧
    ∃ link : MemoryLink, link.key = (sourceId, targetId, relation) ∧
      linked = { db with memoryLinks := db.memoryLinks ++ [link] }

/-- A created link changes no row. -/
theorem linked_createLinkSigned {db linked : Database} {sourceId targetId relation : String}
    {now : env.chrono.Instant} (ok : createLinkSigned env db sourceId targetId relation now = .ok linked) :
    Linked env db linked sourceId targetId relation := by
  obtain ⟨_, _, ungated⟩ := bind_eq_ok.mp ok
  dsimp only at ungated
  split at ungated
  · contradiction
  · rename_i passed
    split_ifs at ungated with noSource noTarget known
    · exact ⟨⟨_, rfl, passed⟩, Option.isSome_iff_ne_none.mpr noSource, Option.isSome_iff_ne_none.mpr noTarget,
        .inl (Except.ok.inj ungated).symm⟩
    · have free : (sourceId, targetId, relation) ∉ db.memoryLinks.map MemoryLink.key := by
        simpa [MemoryLink.key] using known
      refine ⟨⟨_, rfl, passed⟩, Option.isSome_iff_ne_none.mpr noSource, Option.isSome_iff_ne_none.mpr noTarget,
        .inr ⟨free, _, ?_, (Except.ok.inj ungated).symm⟩⟩
      cases env.signLink _ <;> rfl

/-- A created link leaves the store. -/
theorem toStore_createLinkSigned {db linked : Database} {source target relation : String}
    {now : env.chrono.Instant} (ok : createLinkSigned env db source target relation now = .ok linked) :
    linked.toStore = db.toStore := by
  rcases (linked_createLinkSigned ok).links with rfl | ⟨_, _, _, rfl⟩
  · rfl
  · rfl

/-- A conserved contradiction leaves the store or marks its loser. -/
theorem conserveContradiction_stores {db marked : Database} {loserId winnerId : String} {now : env.chrono.Instant}
    (ok : conserveContradiction env db loserId winnerId now = .ok marked) :
    marked.toStore = db.toStore ∨ ∃ current ∈ db.memories.find loserId,
      marked.toStore = markedStore db.toStore loserId current.metadata winnerId := by
  unfold conserveContradiction at ok
  split at ok
  · exact .inl (Except.ok.inj ok ▸ rfl)
  · rename_i current stored
    refine .inr ⟨current, stored, ?_⟩
    dsimp only at ok
    split at ok
    · obtain ⟨linked, same, done⟩ := bind_eq_ok.mp ok
      obtain rfl := Except.ok.inj same
      split_ifs at done
      exact Except.ok.inj done ▸ rfl
    · obtain ⟨linked, created, done⟩ := bind_eq_ok.mp ok
      split_ifs at done
      rw [toStore_createLinkSigned created] at done
      exact Except.ok.inj done ▸ rfl

/-- A conserved contradiction changes the metadata of its loser and nothing else of the row. -/
theorem conserveContradiction_ok {db marked : Database} {winnerId : String} {now : env.chrono.Instant}
    (ok : conserveContradiction env db id winnerId now = .ok marked) :
    ∀ row ∈ marked.memories.find id, ∃ before ∈ db.memories.find id, ∃ metadata,
      row = { before with metadata := metadata } := by
  intro row found
  rcases conserveContradiction_stores ok with same | ⟨current, stored, same⟩
  · exact ⟨row, same ▸ found, row.metadata, rfl⟩
  · rw [same, markedStore, find_rewriteRow] at found
    obtain ⟨before, stored, rfl⟩ := Option.map_eq_some_iff.mp found
    exact ⟨before, stored, _, if_pos rfl⟩

end Rows

section Steps

variable {env : WriterEnvironment} {id : String} {history : History}

/-- A recorded call keeps the row when it satisfies what it asks for and what it does not ask for stays kept. -/
theorem kept_record {db : Database} {asks : (field : Field) → Option field.Value}
    (satisfied : ∀ row ∈ db.memories.find id, ∀ field, ∀ value ∈ asks field, field.Keeps value (field.get row))
    (left : ∀ row ∈ db.memories.find id, ∀ field, asks field = none → ∀ value ∈ history.asked field,
      field.Keeps value (field.get row)) : Kept id (history.record db asks) := by
  intro row found field value asked
  rcases Option.or_eq_some_iff.mp asked with own | ⟨unasked, earlier⟩
  · exact satisfied row found field value own
  · exact left row found field unasked value earlier

/-- A call that asks for all that it changes keeps the row. -/
theorem kept_recordRow {db : Database} {asks : Memory → Memory → (field : Field) → Option field.Value}
    (kept : Kept id history)
    (changes : ∀ row ∈ db.memories.find id, ∃ before ∈ history.db.memories.find id, ∀ field,
      asks before row field = some (field.get row) ∨
        asks before row field = none ∧ field.get row = field.get before) :
    Kept id (recordRow id history db asks) := by
  unfold recordRow
  split
  · rename_i before after stored found
    obtain ⟨other, same, complete⟩ := changes after found
    obtain rfl := Option.some.inj (stored.symm.trans same)
    refine kept_record ?_ ?_
    · intro row present field value asked
      obtain rfl := Option.some.inj (found.symm.trans present)
      rcases complete field with own | ⟨none, _⟩
      · rw [own] at asked
        obtain rfl := Option.some.inj asked
        exact field.keeps_self _
      · rw [none] at asked
        cases asked
    · intro row present field unasked value asked
      obtain rfl := Option.some.inj (found.symm.trans present)
      rcases complete field with own | ⟨_, same⟩
      · rw [own] at unasked
        cases unasked
      · rw [same]
        exact kept before stored field value asked
  · rename_i missing
    intro row found field value asked
    obtain ⟨before, stored, _⟩ := changes row found
    exact absurd found (missing before row stored)

/-- A call that leaves the title and the content has nothing to copy. -/
theorem copied_of_sameText {before after : Store}
    (same : ∀ written ∈ after.memories.find id, ∃ row ∈ before.memories.find id,
      written.title = row.title ∧ written.content = row.content) : Copied id before after := by
  intro row stored written found differs
  obtain ⟨other, present, title, content⟩ := same written found
  obtain rfl := Option.some.inj (stored.symm.trans present)
  exact absurd (Prod.ext title content) differs

theorem copied_refl (store : Store) : Copied id store store :=
  copied_of_sameText fun row found => ⟨row, found, rfl, rfl⟩

/-- The recorded edit changes the history only. -/
theorem db_recordRow (db : Database) (asks : Memory → Memory → (field : Field) → Option field.Value) :
    (recordRow id history db asks).db = db := by
  unfold recordRow
  split <;> rfl

/-- The first statement of a call loses nothing. -/
theorem enterEdit_keeps (kept : Kept id history) (request : EditRequest env) :
    Kept id (enterEdit env id request history).1 ∧
      Copied id history.db.toStore (enterEdit env id request history).1.db.toStore := by
  cases request with
  | update patch expectedVersion now =>
      unfold enterEdit
      dsimp only
      split <;> exact ⟨kept, copied_refl _⟩
  | touchMany ids shortExtend midExtend now =>
      have same (row : Memory) (found : row ∈ (touchMany env.chrono shortExtend midExtend now history.db.toStore
          ids).memories.find id) := find_touchMany found
      refine ⟨kept_recordRow kept fun row found => ?_, ?_⟩
      · obtain ⟨before, stored, body⟩ := same row found
        exact ⟨before, stored, touchAsks_complete body⟩
      · rw [enterEdit, db_recordRow]
        refine copied_of_sameText fun row found => ?_
        obtain ⟨before, stored, body⟩ := same row found
        exact ⟨before, stored, body.title, body.content⟩
  | conserve winnerId now =>
      unfold enterEdit
      dsimp only
      split
      · rename_i marked conserved
        refine ⟨kept_recordRow kept fun row found => ?_, ?_⟩
        · obtain ⟨before, stored, metadata, rfl⟩ := conserveContradiction_ok conserved row found
          exact ⟨before, stored, fun field => by cases field <;> first | exact .inl rfl | exact .inr ⟨rfl, rfl⟩⟩
        · rw [db_recordRow]
          refine copied_of_sameText fun row found => ?_
          obtain ⟨before, stored, metadata, rfl⟩ := conserveContradiction_ok conserved row found
          exact ⟨before, stored, rfl, rfl⟩
      · exact ⟨kept, copied_refl _⟩

/-- An undisturbed transaction loses nothing. -/
theorem commitEdit_keeps (kept : Kept id history) (call : EditCall env)
    (undisturbed : ∀ patch existing expectedVersion now,
      call = .pending patch existing expectedVersion now → Writes id history patch existing expectedVersion now →
        Undisturbed id history patch existing) :
    Kept id (commitEdit env id call history).1 ∧
      Copied id history.db.toStore (commitEdit env id call history).1.db.toStore := by
  cases call with
  | finished => exact ⟨kept, copied_refl _⟩
  | pending patch existing expectedVersion now =>
      unfold commitEdit
      dsimp only
      split
      · rename_i written changed committed
        obtain ⟨held, noticed⟩ :=
          undisturbed patch existing expectedVersion now rfl (writes_of_commitUpdate committed)
        obtain ⟨current, stored, found, archived⟩ := commitUpdate_ok committed
        constructor
        · refine kept_record ?_ ?_
          · intro row present field value asked
            obtain rfl := Option.some.inj (found.symm.trans present)
            exact updatedRow_asked asked
          · intro row present field unasked value asked
            obtain rfl := Option.some.inj (found.symm.trans present)
            rw [updatedRow_unasked unasked]
            split_ifs with fromCopy
            · exact held field fromCopy unasked value asked
            · exact kept current stored field value asked
        · intro row before after present differs
          obtain rfl := Option.some.inj (stored.symm.trans before)
          obtain rfl := Option.some.inj (found.symm.trans present)
          have changes : contentChanged (governedRow patch existing) current = true := by
            by_contra same
            refine differs ?_
            simpa [contentChanged, updatedRow] using same
          rw [if_pos (noticed current stored changes)] at archived
          exact ⟨_, archived⟩
      · exact ⟨kept, copied_refl _⟩

end Steps

section Runs

variable (env : WriterEnvironment) (id : String)

/-- A turn starts a call on the row or runs the transaction of a started update. -/
def editStep (session : Session History (EditCall env)) (turn : Turn (EditRequest env)) :
    Session History (EditCall env) :=
  session.next (enterEdit env id) (commitEdit env id) turn

variable {env id}

/-- An undisturbed step keeps the edits. -/
theorem editStep_keeps {session : Session History (EditCall env)} {turn : Turn (EditRequest env)}
    (undisturbed : UndisturbedTurn id session turn) (kept : Kept id session.shared) :
    Kept id (editStep env id session turn).shared ∧
      Copied id session.shared.db.toStore (editStep env id session turn).shared.db.toStore := by
  cases turn with
  | start request => exact enterEdit_keeps kept request
  | resume index =>
      cases held : session.calls[index]? with
      | none =>
          rw [editStep, Session.next_of_idle held]
          exact ⟨kept, copied_refl _⟩
      | some call =>
          rw [editStep, Session.shared_resume held]
          refine commitEdit_keeps kept call ?_
          rintro patch existing expectedVersion now rfl
          simp only [UndisturbedTurn, Session.resumed, held] at undisturbed
          exact undisturbed

/-- In every run whose updates write undisturbed, the row has what the last successful call asked for in each field
whenever one looks, and every replaced text is copied by the call that replaces it. -/
theorem undisturbed_edits_survive (db : Database) {turns : List (Turn (EditRequest env))}
    (every : EveryStep (editStep env id) (UndisturbedTurn id) ⟨History.start db, []⟩ turns) :
    (∀ taken rest, turns = taken ++ rest → Kept id (run (editStep env id) ⟨History.start db, []⟩ taken).shared) ∧
      EveryStep (editStep env id)
        (fun session turn =>
          Copied id session.shared.db.toStore (editStep env id session turn).shared.db.toStore)
        ⟨History.start db, []⟩ turns := by
  have initially : Kept id (History.start db) := fun _ _ _ _ asked => nomatch asked
  have preserved (session : Session History (EditCall env)) (turn : Turn (EditRequest env))
      (undisturbed : UndisturbedTurn id session turn) (kept : Kept id session.shared) :
      Kept id (editStep env id session turn).shared :=
    (editStep_keeps undisturbed kept).1
  constructor
  · rintro taken rest rfl
    have invariant := @run_invariant _ _ (editStep env id) (UndisturbedTurn id)
      (fun session => Kept id session.shared) preserved
    exact invariant (EveryStep.append_iff.mp every).1 initially
  · have invariant := @EveryStep.and_invariant _ _ (editStep env id) (UndisturbedTurn id)
      (fun session => Kept id session.shared) preserved
    exact (invariant every initially).mono fun session turn held => (editStep_keeps held.1 held.2).2

end Runs

section Samples

def editedDatabase : Database := ⟨seededStore, [], [], [], fun _ => none, fun _ => none⟩

def blankPatch : Patch := ⟨none, none, none, none, none, none, none, none, none, none⟩

def tagEdit : EditRequest openWriterEnvironment := .update { blankPatch with tags := some ["tagged"] } none (0 : Int)

def contentEdit : EditRequest openWriterEnvironment :=
  .update { blankPatch with content := some "edited" } none (300 : Int)

def gatedTagEdit : EditRequest openWriterEnvironment :=
  .update { blankPatch with tags := some ["tagged"] } (some 1) (600 : Int)

def gatedContentEdit : EditRequest openWriterEnvironment :=
  .update { blankPatch with content := some "edited" } (some 1) (300 : Int)

/-- Two updates read version 1 and ask for it: the first to commit keeps its content and its copy, and the second
meets version 2 and writes nothing. -/
theorem gated_edit_survives :
    let turns := [.start gatedTagEdit, .start gatedContentEdit, .resume 1, .resume 0]
    Kept "peer-id" (run (editStep openWriterEnvironment "peer-id") ⟨History.start editedDatabase, []⟩ turns).shared ∧
      EveryStep (editStep openWriterEnvironment "peer-id")
        (fun session turn => Copied "peer-id" session.shared.db.toStore
          (editStep openWriterEnvironment "peer-id" session turn).shared.db.toStore)
        ⟨History.start editedDatabase, []⟩ turns := by
  intro turns
  have survive := @undisturbed_edits_survive openWriterEnvironment "peer-id" editedDatabase turns
    ⟨trivial, trivial, fun _ => ⟨?_, ?_⟩, ?_, trivial⟩
  · exact ⟨survive.1 _ [] rfl, survive.2⟩
  · exact fun _ _ _ _ asked => nomatch asked
  · exact fun _ _ _ => by decide
  · rintro ⟨current, stored, expects, _⟩
    obtain rfl := Option.some.inj stored
    exact absurd (expects 1 rfl) (by decide)

/-- The update of the tags read the row first and commits last: the content of the other update is gone, and no copy
of it is left. -/
theorem overtaken_edit_is_lost :
    let turns := [.start tagEdit, .start contentEdit, .resume 1, .resume 0]
    ¬ Kept "peer-id" (run (editStep openWriterEnvironment "peer-id") ⟨History.start editedDatabase, []⟩
        turns).shared ∧
      ¬ EveryStep (editStep openWriterEnvironment "peer-id")
        (fun session turn => Copied "peer-id" session.shared.db.toStore
          (editStep openWriterEnvironment "peer-id" session turn).shared.db.toStore)
        ⟨History.start editedDatabase, []⟩ turns := by
  intro turns
  constructor
  · intro kept
    have content : "c" = "edited" := kept _ rfl .content "edited" rfl
    exact absurd content (by decide)
  · rintro ⟨_, _, _, copied, _⟩
    obtain ⟨stamp, archived⟩ := copied _ rfl _ rfl (by decide)
    -- The only copy is the one that the content update took of the first text.
    have copies : ["c"] = ["edited"] := congrArg (List.map fun entry : ArchivedMemory => entry.row.content) archived
    exact absurd copies (by decide)

end Samples
end AiMemory.Storage
