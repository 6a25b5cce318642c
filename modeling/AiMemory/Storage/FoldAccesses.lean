import AiMemory.Library.ChunkedDrain
import AiMemory.Library.SortOn
import AiMemory.Storage.Update

/-
This file embeds the fold of the recorded recalls and compares it with one touch for each of them.
-/

namespace AiMemory.Storage
open AiMemory.Crdt AiMemory.Library AiMemory.Machine

/-- A recall leaves one row in the ledger for each memory that it returned. -/
structure RecallObservation where
  memoryId : String
  observedAt : String
  folded : Bool
  deriving DecidableEq

structure RecallDatabase where
  store : Store
  ledger : List RecallObservation

/-- The unfolded observations of one memory. -/
structure AccessGroup where
  memoryId : String
  count : Nat
  latest : String
  deriving DecidableEq

section Ledger

variable (ledger : List RecallObservation) (id : String)

def unfolded : List RecallObservation := ledger.filter fun observation => observation.folded = false

def unfoldedOf : List RecallObservation := (unfolded ledger).filter fun observation => observation.memoryId = id

def unfoldedIds : List String := ((unfolded ledger).map RecallObservation.memoryId).dedup.insertionSort (· ≤ ·)

def aggregate : AccessGroup where
  memoryId := id
  count := (unfoldedOf ledger id).length
  latest := ((unfoldedOf ledger id).map RecallObservation.observedAt).foldl larger ""

/-- One group for each memory with unfolded observations, in the order of the identifiers. -/
def aggregates : List AccessGroup := (unfoldedIds ledger).map (aggregate ledger)

def markFolded : List RecallObservation := ledger.map fun observation =>
  if observation.folded = false ∧ observation.memoryId = id then { observation with folded := true } else observation

end Ledger

section Fold

variable (chrono : Chrono) (shortExtend midExtend : Int)

/-- An expiry is moved to the end of the window when that is later as a text. -/
def extendExpiry (now : chrono.Instant) (tier : Tier) (expiresAt : Option String) : Option String :=
  match tier with
  | .long => expiresAt
  | .short => expiresAt.map fun expiry => larger expiry (chrono.toRfc3339 (chrono.addSeconds now shortExtend))
  | .mid => expiresAt.map fun expiry => larger expiry (chrono.toRfc3339 (chrono.addSeconds now midExtend))

/-- The statement applies all the accesses of a group, and an integer division of SQLite drops the fraction. -/
def bumpFolded (count : Nat) (latest : chrono.Instant) (row : Memory) : Memory :=
  { row with
    accessCount := min (row.accessCount + count) 1000000
    priority := min (row.priority + ((min (row.accessCount + count) 1000000).tdiv 10 - row.accessCount.tdiv 10)) 10
    lastAccessedAt :=
      match row.lastAccessedAt with
      | none => some (chrono.toRfc3339 latest)
      | some last => if last < chrono.toRfc3339 latest then some (chrono.toRfc3339 latest) else some last
    expiresAt := extendExpiry chrono shortExtend midExtend latest row.tier row.expiresAt }

def foldRow (count : Nat) (latest now : chrono.Instant) (row : Memory) : Memory :=
  promote chrono now (bumpFolded chrono shortExtend midExtend count latest row)

theorem id_foldRow (count : Nat) (latest now : chrono.Instant) (row : Memory) :
    (foldRow chrono shortExtend midExtend count latest now row).id = row.id := by
  unfold foldRow promote
  split_ifs <;> rfl

theorem slotOf_foldRow (count : Nat) (latest now : chrono.Instant) (row : Memory) :
    slotOf (foldRow chrono shortExtend midExtend count latest now row) = slotOf row := by
  unfold foldRow promote
  split_ifs <;> rfl

/-- The clock is read once in a chunk and again for a stamp that does not parse. -/
structure FoldClock where
  chunk : Nat → chrono.Instant
  unparsed : Nat → String → chrono.Instant

def stampInstant (stamp : String) : Option chrono.Instant :=
  (chrono.parseFromRfc3339 stamp).map chrono.withTimezoneUtc

variable {chrono} (clock : FoldClock chrono)

def foldGroup (round : Nat) (db : RecallDatabase) (group : AccessGroup) : RecallDatabase :=
  let latest := (stampInstant chrono group.latest).getD (clock.unparsed round group.memoryId)
  let now := clock.chunk round
  { store := rewriteRow db.store group.memoryId (foldRow chrono shortExtend midExtend group.count latest now)
      (id_foldRow chrono shortExtend midExtend group.count latest now)
      (slotOf_foldRow chrono shortExtend midExtend group.count latest now)
    ledger := markFolded db.ledger group.memoryId }

end Fold

section Pending

variable {ledger : List RecallObservation} {id : String}

/-- No memory is folded twice. -/
theorem nodup_unfoldedIds (ledger : List RecallObservation) : (unfoldedIds ledger).Nodup :=
  (List.perm_insertionSort _ _).nodup_iff.mpr (List.nodup_dedup _)

/-- A memory is folded exactly when it has unfolded observations. -/
theorem mem_unfoldedIds : id ∈ unfoldedIds ledger ↔ unfoldedOf ledger id ≠ [] := by
  rw [unfoldedIds, (List.perm_insertionSort _ _).mem_iff, List.mem_dedup, List.mem_map, unfoldedOf, ne_eq,
    List.filter_eq_nil_iff]
  simp

/-- The mark takes the rows of its memory out of the unfolded ones. -/
theorem unfolded_markFolded (ledger : List RecallObservation) (id : String) :
    unfolded (markFolded ledger id) = (unfolded ledger).filter fun observation => observation.memoryId ≠ id := by
  have kept : ∀ observation ∈ (unfolded ledger).filter fun observation => observation.memoryId ≠ id,
      (if observation.folded = false ∧ observation.memoryId = id then { observation with folded := true }
        else observation) = observation := by
    intro observation present
    have apart : observation.memoryId ≠ id := by simpa using (List.mem_filter.mp present).2
    exact if_neg fun marked => apart marked.2
  rw [unfolded, markFolded, List.filter_map]
  refine Eq.trans (congrArg (List.map _) ?_) ((List.map_congr_left kept).trans (List.map_id _))
  rw [unfolded, List.filter_filter]
  apply List.filter_congr
  intro observation _
  cases folded : observation.folded <;> by_cases same : observation.memoryId = id <;> simp [folded, same]

/-- Marking one memory leaves the others unfolded. -/
theorem unfoldedOf_markFolded {other : String} (apart : other ≠ id) :
    unfoldedOf (markFolded ledger id) other = unfoldedOf ledger other := by
  rw [unfoldedOf, unfolded_markFolded, List.filter_filter, unfoldedOf]
  apply List.filter_congr
  intro observation present
  by_cases same : observation.memoryId = other <;> simp [same, apart]

theorem sorted_unfoldedIds (ledger : List RecallObservation) :
    (unfoldedIds ledger).Pairwise fun first second => first ≤ second :=
  insertionSort_sorted (fun id : String => id) _

/-- A marked memory is not folded again. -/
theorem unfoldedIds_markFolded :
    unfoldedIds (markFolded ledger id) = (unfoldedIds ledger).filter fun other => other ≠ id := by
  have distinct := nodup_unfoldedIds (markFolded ledger id)
  have sameMembers : ∀ other, other ∈ unfoldedIds (markFolded ledger id) ↔
      other ∈ (unfoldedIds ledger).filter fun other => other ≠ id := by
    intro other
    rw [List.mem_filter, mem_unfoldedIds, mem_unfoldedIds]
    by_cases same : other = id
    · subst same
      simp [unfoldedOf, unfolded_markFolded]
    · simp [unfoldedOf_markFolded same, same]
  apply eq_of_sorted (by rwa [List.map_id'])
  · exact (List.perm_ext_iff_of_nodup distinct ((nodup_unfoldedIds ledger).filter _)).mpr sameMembers
  · exact sorted_unfoldedIds _
  · exact (sorted_unfoldedIds ledger).filter _

theorem aggregates_markFolded :
    aggregates (markFolded ledger id) = (aggregates ledger).filter fun group => group.memoryId ≠ id := by
  rw [aggregates, aggregates, unfoldedIds_markFolded, List.filter_map]
  apply List.map_congr_left
  intro other present
  have apart : other ≠ id := by simpa using (List.mem_filter.mp present).2
  rw [aggregate, aggregate, unfoldedOf_markFolded apart]

/-- A group aggregates the unfolded observations of its memory. -/
theorem mem_aggregates {group : AccessGroup} :
    group ∈ aggregates ledger ↔ unfoldedOf ledger group.memoryId ≠ [] ∧ group = aggregate ledger group.memoryId := by
  rw [aggregates, List.mem_map, ← mem_unfoldedIds]
  constructor
  · rintro ⟨id, present, rfl⟩
    exact ⟨present, rfl⟩
  · rintro ⟨present, same⟩
    exact ⟨group.memoryId, present, same.symm⟩

/-- Without groups everything is folded. -/
theorem unfolded_of_aggregates (drained : aggregates ledger = []) : unfolded ledger = [] := by
  rw [List.eq_nil_iff_forall_not_mem]
  intro observation present
  have listed : observation.memoryId ∈ unfoldedIds ledger := by
    rw [unfoldedIds, (List.perm_insertionSort _ _).mem_iff, List.mem_dedup]
    exact List.mem_map_of_mem present
  rw [aggregates, List.map_eq_nil_iff] at drained
  rw [drained] at listed
  cases listed

theorem nodup_aggregates (ledger : List RecallObservation) : (aggregates ledger).Nodup :=
  (nodup_unfoldedIds ledger).map fun _ _ same => congrArg AccessGroup.memoryId same

end Pending

section Loop

variable {chrono : Chrono} (shortExtend midExtend : Int) (clock : FoldClock chrono)

/-- The fold of a group marks its ledger rows, which leaves the other groups. -/
def accessDrain : Drain RecallDatabase AccessGroup where
  pending db := aggregates db.ledger
  distinct db := nodup_aggregates db.ledger
  step := foldGroup shortExtend midExtend clock
  settles round db group present := by
    rw [foldGroup, aggregates_markFolded]
    apply List.filter_congr
    intro other listed
    obtain ⟨_, same⟩ := mem_aggregates.mp present
    obtain ⟨_, otherSame⟩ := mem_aggregates.mp listed
    rw [decide_eq_decide, not_iff_not]
    exact ⟨fun shared => by rw [otherSame, same, shared], fun shared => by rw [shared]⟩

def foldChunkMemories : Nat := 1000

/-- The fold returns the number of the folded memories. -/
def foldRecallAccesses (db : RecallDatabase) : RecallDatabase × Nat :=
  if unfolded db.ledger = [] then (db, 0)
  else (accessDrain shortExtend midExtend clock).run foldChunkMemories (by decide) 0 db

end Loop
end AiMemory.Storage
