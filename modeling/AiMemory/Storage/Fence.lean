import AiMemory.Storage.ByteCap
import AiMemory.Storage.Gates

/-
This file decides which writers a stopped record holds back.
-/

namespace AiMemory.Storage
open AiMemory.Crdt AiMemory.Library AiMemory.Machine

section Calls

/-- A call of one writer with its arguments. -/
inductive Call where
  | insert (row : Memory)
  | insertWithConflict (row : Memory) (mode : ConflictMode)
  | insertIfNewer (row : Memory)
  | mergeInbound (row : Memory) (skewSecs : Int)
  | updateWithExpectedVersion (id : String) (patch : Patch) (expectedVersion : Option Int)
  | updateWithArchiveOnSupersede (id : String) (patch : Patch) (expectedVersion : Option Int)
      (editSource : EditSource) (newId : String)
  | setLifecycleState (id : String) (target : LifecycleState)
  | conserveContradiction (loserId winnerId : String)
  | delete (id : String)
  | forget («namespace» pattern : Option String) (tier : Option Tier) (archive : Bool)
  | archiveMemory (id : String) (reason : Option String)
  | restoreArchived (id : String)
  | gc (archive : Bool)
  | sizeGc («namespace» : String) (maxCorpusBytes : Int) (archive : Bool)

def withStore (db : Database) (store : Store) : Database := { db with toStore := store }

/-- A transaction that fails leaves the database. -/
def transaction (db : Database) : Except StorageError Database → Database × Except StorageError Unit
  | .ok committed => (committed, .ok ())
  | .error error => (db, .error error)

variable (env : WriterEnvironment) (db : Database) (now : env.chrono.Instant)

/-- A call leaves the database that it has committed; a deletion and the two collections are no single transaction. -/
def execute : Call → Database × Except StorageError Unit
  | .insert row => transaction db ((insert env db.toStore row now).map fun result => withStore db result.1)
  | .insertWithConflict row mode =>
      transaction db ((insertWithConflict env db.toStore row now mode).map fun result => withStore db result.1)
  | .insertIfNewer row =>
      transaction db (((insertIfNewer env.toEnvironment db.toStore row now).mapError .write).map fun result =>
        withStore db result.1)
  | .mergeInbound row skewSecs =>
      transaction db (((mergeInbound env.toEnvironment db.toStore row now skewSecs).mapError .write).map fun result =>
        withStore db result.1)
  | .updateWithExpectedVersion id patch expectedVersion =>
      transaction db ((updateWithExpectedVersion env db.toStore id patch expectedVersion now).map fun result =>
        withStore db result.1)
  | .updateWithArchiveOnSupersede id patch expectedVersion editSource newId =>
      transaction db
        ((updateWithArchiveOnSupersede env db id patch expectedVersion editSource newId now).map (·.1))
  | .setLifecycleState id target =>
      transaction db ((setLifecycleState env.chrono db.toStore id target now).map fun result => withStore db result.1)
  | .conserveContradiction loserId winnerId => transaction db (conserveContradiction env db loserId winnerId now)
  | .delete id => ((delete db id).1, (delete db id).2.map fun _ => ())
  | .forget «namespace» pattern tier archive =>
      transaction db ((forget env db «namespace» pattern tier archive now).map (·.1))
  | .archiveMemory id reason => transaction db ((archiveMemory env.chrono db id reason now).map (·.1))
  | .restoreArchived id => transaction db ((restoreArchived env db id now).map (·.1))
  | .gc archive => ((gc env db archive now).1, (gc env db archive now).2.map fun _ => ())
  | .sizeGc «namespace» maxCorpusBytes archive =>
      ((sizeGc env db «namespace» maxCorpusBytes archive now).1,
        (sizeGc env db «namespace» maxCorpusBytes archive now).2.map fun _ => ())

/-- The database after the call. -/
def afterCall (call : Call) : Database := (execute env db now call).1

/-- The call fails and leaves the three tables. -/
def Fenced (call : Call) : Prop :=
  (∃ error, (execute env db now call).2 = .error error) ∧
    (afterCall env db now call).memories = db.memories ∧
    (afterCall env db now call).archivedMemories = db.archivedMemories ∧
    (afterCall env db now call).memoryLinks = db.memoryLinks

end Calls

section Refused

universe u
variable {Error Other : Type*} {Value Result : Type u}

def Refused (result : Except Error Value) : Prop := ∃ error, result = .error error

@[simp] theorem refused_error (error : Error) : Refused (.error error : Except Error Value) := ⟨error, rfl⟩

@[simp] theorem not_refused_ok (value : Value) : ¬ Refused (.ok value : Except Error Value) :=
  fun ⟨_, same⟩ => nomatch same

/-- A sequence fails in its first part or in what follows it. -/
theorem refused_bind (first : Except Error Value) (rest : Value → Except Error Result) :
    Refused (first >>= rest) ↔ Refused first ∨ ∃ value, first = .ok value ∧ Refused (rest value) := by
  cases first with
  | error error => exact iff_of_true ⟨error, rfl⟩ (.inl ⟨error, rfl⟩)
  | ok value =>
      constructor
      · exact fun failed => .inr ⟨value, rfl, failed⟩
      · rintro (failed | ⟨other, same, failed⟩)
        · exact absurd failed (not_refused_ok value)
        · exact Except.ok.inj same ▸ failed

/-- A check at the end fails whatever came before it. -/
theorem refused_checked {first : Except Error Value} {check : Bool} {finish : Value → Result} {error : Error} :
    (Refused first ∨ ∃ value, first = .ok value ∧
        Refused (if check then .ok (finish value) else .error error : Except Error Result)) ↔
      Refused first ∨ check = false := by
  cases first with
  | error failed => exact iff_of_true (.inl (refused_error failed)) (.inl (refused_error failed))
  | ok value => cases check <;> simp

end Refused

section Stopped

variable {env : WriterEnvironment} {db : Database} {now : env.chrono.Instant}

section Gated

variable {store : Store} {stop : RecordStop} (stopped : store.recordStop = some stop)
include stopped

end Gated

/-- The plain insertion fails exactly when the row breaks a constraint or one of its keys is taken. -/
theorem plainInsert_refused_iff {store : Store} {row : Memory} {clash : StorageError} :
    Refused (plainInsert store row clash) ↔
      (checkConstraints row).isSome ∨ (store.memories.findSlot (slotOf row)).isSome ∨
        (store.memories.find row.id).isSome := by
  unfold plainInsert
  split
  · rename_i broken
    simp [broken]
  · rename_i sound
    split
    · rename_i taken
      simp [taken]
    · rename_i free
      split
      · rename_i known
        simp [known]
      · rename_i fresh
        simp [sound, free, fresh]

/-- A restoration is refused exactly when its archived row cannot return. -/
theorem restoreArchived_refused_iff (id : String) :
    Refused (restoreArchived env db id now) ↔
      ∃ entry ∈ db.archivedMemories.find? fun entry => entry.row.id = id,
        db.memories.find id ≠ none ∨ (env.governancePreWrite (restoreCandidate env entry.row)).isSome ∨
          (checkConstraints (restoredRow env entry.row now)).isSome ∨
          (db.memories.findSlot (slotOf entry.row)).isSome ∨ atomReturns db id = false := by
  unfold restoreArchived
  cases archived : db.archivedMemories.find? fun entry => entry.row.id = id with
  | none => simp
  | some entry =>
      have sameId : entry.row.id = id := by simpa using List.find?_some archived
      simp only [Option.mem_some_iff, exists_eq_left']
      by_cases live : db.memories.find id = none
      · rw [if_neg (by simpa using live), refused_bind, consultGovernancePreWrite]
        cases env.governancePreWrite (restoreCandidate env entry.row) with
        | some reason => simp
        | none =>
            have fresh : db.memories.find (restoredRow env entry.row now).id = none := sameId ▸ live
            rw [or_iff_right (not_refused_ok ()), or_iff_right (not_not_intro live)]
            simp only [refused_bind, refused_checked]
            rw [plainInsert_refused_iff, fresh]
            simp [slotOf, restoredRow, or_assoc]
      · rw [if_pos live]
        exact iff_of_true (refused_error _) (.inl live)

end Stopped

section Samples

end Samples
end AiMemory.Storage
