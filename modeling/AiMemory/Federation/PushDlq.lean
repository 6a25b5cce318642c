import AiMemory.Crdt.Json
import AiMemory.Library.KeyedTable
import Mathlib.Data.List.Sort
import Mathlib.Data.String.Basic

/-
This file embeds the dead-letter queue of the federation pushes and its statements.
-/

namespace AiMemory.Federation
open AiMemory.Crdt AiMemory.Library

/-- A stored row; the payload is the JSON text of its column. -/
structure DlqRow where
  id : Nat
  memoryId : String
  peerId : String
  payloadJson : String
  attemptCount : Nat
  lastError : String
  failedAt : String
  replayedAt : Option String
  deriving DecidableEq

namespace DlqRow

def pending (row : DlqRow) : Bool := row.replayedAt.isNone

/-- The partial unique index covers the pending rows alone. -/
def slot (row : DlqRow) : (String × String) ⊕ Nat :=
  if row.pending then .inl (row.memoryId, row.peerId) else .inr row.id

def retried (row : DlqRow) (count : Nat → Nat) (error : String → String) : DlqRow :=
  { row with attemptCount := count row.attemptCount, lastError := error row.lastError }

def replayed (row : DlqRow) (now : String) : DlqRow := { row with replayedAt := some now }

theorem id_of_slot {row : DlqRow} {id : Nat} (same : row.slot = .inr id) : row.id = id := by
  unfold slot at same
  split at same
  · cases same
  · exact Sum.inr.inj same

/-- A row has a pending slot exactly when it is pending for that memory and peer. -/
theorem slot_eq_pair_iff (row : DlqRow) (memoryId peerId : String) :
    row.slot = .inl (memoryId, peerId) ↔
      row.pending = true ∧ row.memoryId = memoryId ∧ row.peerId = peerId := by
  unfold slot
  split <;> simp [*]

end DlqRow

/-- The sequence of the primary keys never falls. -/
structure PushDlq where
  rows : KeyedTable DlqRow.id DlqRow.slot
  lastId : Nat
  issued : ∀ row ∈ rows.rows, row.id ≤ lastId

/-- The serializer writes the payloads and reads them back. -/
structure PayloadSerde where
  valueToString : Json → String
  valueFromStr : String → Option Json

/-- A text that does not parse reads as the empty object. -/
def PayloadSerde.readPayload (serde : PayloadSerde) (text : String) : Json :=
  (serde.valueFromStr text).getD Json.empty

/-- A pending row as the replay worker receives it. -/
structure FederationPushDlqRow where
  id : Nat
  memoryId : String
  peerId : String
  payloadJson : Json
  attemptCount : Nat
  lastError : String

def DlqRow.taken (serde : PayloadSerde) (row : DlqRow) : FederationPushDlqRow :=
  ⟨row.id, row.memoryId, row.peerId, serde.readPayload row.payloadJson, row.attemptCount, row.lastError⟩

/-- The arguments of one enqueue. -/
structure PushFailure where
  memoryId : String
  peerId : String
  payloadJson : Json
  lastError : String

def maxReplayAttempts : Nat := 100

namespace PushDlq

def empty : PushDlq := ⟨KeyedTable.empty, 0, nofun⟩

def pending (dlq : PushDlq) (memoryId peerId : String) : Option DlqRow :=
  dlq.rows.findSlot (.inl (memoryId, peerId))

/-- The update writes the attempts and the error of the matching rows and nothing else. -/
def retry (dlq : PushDlq) (matching : DlqRow → Bool) (count : Nat → Nat) (error : String → String) :
    PushDlq where
  rows := dlq.rows.rewrite (fun row => if matching row then row.retried count error else row)
    (fun row => by split <;> rfl) (by
      intro first firstPresent second secondPresent same
      refine dlq.rows.id_of_slot firstPresent secondPresent ?_
      split at same <;> split at same <;> exact same)
  lastId := dlq.lastId
  issued := by
    intro row present
    obtain ⟨old, held, rfl⟩ := List.mem_map.mp present
    split <;> exact dlq.issued old held

/-- The row that an insertion writes. -/
def opening (serde : PayloadSerde) (dlq : PushDlq) (failure : PushFailure) (now : String) : DlqRow where
  id := dlq.lastId + 1
  memoryId := failure.memoryId
  peerId := failure.peerId
  payloadJson := serde.valueToString failure.payloadJson
  attemptCount := 1
  lastError := failure.lastError
  failedAt := now
  replayedAt := none

theorem find_next (dlq : PushDlq) : dlq.rows.find (dlq.lastId + 1) = none := by
  rw [KeyedTable.find_eq_none_iff]
  intro row present same
  have issued := dlq.issued row present
  omega

/-- The insertion takes the next primary key. -/
def insert (serde : PayloadSerde) (dlq : PushDlq) (failure : PushFailure) (now : String)
    (free : dlq.pending failure.memoryId failure.peerId = none) : PushDlq where
  rows := dlq.rows.append (dlq.opening serde failure now) dlq.find_next free
  lastId := dlq.lastId + 1
  issued := by
    intro row present
    rcases List.mem_append.mp present with old | new
    · exact (dlq.issued row old).trans (Nat.le_succ _)
    · exact (List.mem_singleton.mp new) ▸ le_refl _

/-- A pending row of the pair keeps its payload, and only its attempts and its error change. -/
def enqueuePushFailure (serde : PayloadSerde) (dlq : PushDlq) (failure : PushFailure) (now : String) :
    PushDlq :=
  if free : dlq.pending failure.memoryId failure.peerId = none then dlq.insert serde failure now free
  else
    dlq.retry (fun row => row.slot = .inl (failure.memoryId, failure.peerId)) (· + 1)
      fun _ => failure.lastError

/-- The oldest failures come first. -/
def takePendingDlqRows (serde : PayloadSerde) (dlq : PushDlq) (limit : Nat) : List FederationPushDlqRow :=
  (((dlq.rows.rows.filter fun row => row.pending ∧ row.attemptCount < maxReplayAttempts).insertionSort
    fun first second => first.failedAt ≤ second.failedAt).take limit).map (DlqRow.taken serde)

/-- The statement stamps the row by its primary key, whatever the row holds by then. -/
def markDlqRowReplayed (dlq : PushDlq) (id : Nat) (now : String) : PushDlq where
  rows := dlq.rows.rewrite (fun row => if row.id = id then row.replayed now else row)
    (fun row => by split <;> rfl) (by
      intro first firstPresent second secondPresent same
      split at same <;> split at same
      case _ firstMarked secondMarked => exact firstMarked.trans secondMarked.symm
      case _ firstMarked _ => exact (DlqRow.id_of_slot same.symm).symm
      case _ _ secondMarked => exact DlqRow.id_of_slot same
      case _ => exact dlq.rows.id_of_slot firstPresent secondPresent same)
  lastId := dlq.lastId
  issued := by
    intro row present
    obtain ⟨old, held, rfl⟩ := List.mem_map.mp present
    split <;> exact dlq.issued old held

def bumpDlqAttempt (dlq : PushDlq) (id : Nat) (lastError : String) : PushDlq :=
  dlq.retry (fun row => row.id = id ∧ row.pending) (· + 1) fun _ => lastError

def pendingDlqCount (dlq : PushDlq) : Nat := dlq.rows.rows.countP DlqRow.pending

/-- A throttle refreshes the error and burns no attempt. -/
def noteDlqThrottled (dlq : PushDlq) (id : Nat) (lastError : String) : PushDlq :=
  dlq.retry (fun row => row.id = id ∧ row.pending) (fun count => count) fun _ => lastError

def resetThrottledQuarantine (dlq : PushDlq) : PushDlq :=
  dlq.retry
    (fun row => row.pending ∧ maxReplayAttempts ≤ row.attemptCount ∧
      "429".toList <:+: row.lastError.toList)
    (fun _ => 0) fun error => error

/-- The pending row of a memory and a peer is the one row of their slot. -/
theorem pending_eq_some_iff (dlq : PushDlq) (memoryId peerId : String) (row : DlqRow) :
    dlq.pending memoryId peerId = some row ↔
      row ∈ dlq.rows.rows ∧ row.pending = true ∧ row.memoryId = memoryId ∧ row.peerId = peerId := by
  rw [pending, KeyedTable.findSlot_eq_some_iff, DlqRow.slot_eq_pair_iff]

section Pending

/-- A retry reaches the pending row of a pair and leaves its keys and its payload. -/
theorem pending_retry (dlq : PushDlq) (matching : DlqRow → Bool) (count : Nat → Nat)
    (error : String → String) (memoryId peerId : String) :
    (dlq.retry matching count error).pending memoryId peerId =
      (dlq.pending memoryId peerId).map fun row => if matching row then row.retried count error else row := by
  have sameSlots : ∀ row : DlqRow,
      (if matching row then row.retried count error else row).slot = row.slot := by
    intro row
    split <;> rfl
  simp only [pending, KeyedTable.findSlot, retry, KeyedTable.rewrite, List.find?_map]
  congr 2
  funext row
  simp [sameSlots row]

/-- An insertion opens the row of its own pair. -/
theorem pending_insert (serde : PayloadSerde) (dlq : PushDlq) (failure : PushFailure) (now : String)
    (free : dlq.pending failure.memoryId failure.peerId = none) (memoryId peerId : String) :
    (dlq.insert serde failure now free).pending memoryId peerId =
      if failure.memoryId = memoryId ∧ failure.peerId = peerId then some (dlq.opening serde failure now)
      else dlq.pending memoryId peerId := by
  by_cases own : failure.memoryId = memoryId ∧ failure.peerId = peerId
  · obtain ⟨rfl, rfl⟩ := own
    rw [if_pos ⟨rfl, rfl⟩, pending_eq_some_iff]
    exact ⟨List.mem_append_right _ (List.mem_singleton_self _), rfl, rfl, rfl⟩
  · have other : (dlq.opening serde failure now).slot ≠ .inl (memoryId, peerId) := by
      rw [Ne, DlqRow.slot_eq_pair_iff]
      exact fun same => own same.2
    rw [if_neg own]
    simp [pending, KeyedTable.findSlot, insert, KeyedTable.append, List.find?_append, other]

/-- A stamp takes its own row off the pending ones. -/
theorem pending_mark (dlq : PushDlq) (id : Nat) (now memoryId peerId : String) :
    (dlq.markDlqRowReplayed id now).pending memoryId peerId =
      (dlq.pending memoryId peerId).filter fun row => row.id ≠ id := by
  apply Option.ext
  intro row
  rw [pending_eq_some_iff, Option.filter_eq_some_iff, pending_eq_some_iff]
  constructor
  · rintro ⟨present, waiting, pair⟩
    obtain ⟨old, held, rfl⟩ := List.mem_map.mp present
    by_cases marked : old.id = id
    · rw [if_pos marked] at waiting
      cases waiting
    · rw [if_neg marked] at waiting pair ⊢
      exact ⟨⟨held, waiting, pair⟩, decide_eq_true marked⟩
  · rintro ⟨⟨held, waiting, pair⟩, other⟩
    exact ⟨List.mem_map.mpr ⟨row, held, if_neg (of_decide_eq_true other)⟩, waiting, pair⟩

/-- Two pairs whose pending rows share a primary key are one pair. -/
theorem pair_of_id {dlq : PushDlq} {memoryId peerId otherMemoryId otherPeerId : String} {row other : DlqRow}
    (found : dlq.pending memoryId peerId = some row)
    (otherFound : dlq.pending otherMemoryId otherPeerId = some other) (same : row.id = other.id) :
    memoryId = otherMemoryId ∧ peerId = otherPeerId := by
  obtain ⟨held, _, rfl, rfl⟩ := (pending_eq_some_iff dlq _ _ _).mp found
  obtain ⟨otherHeld, _, rfl, rfl⟩ := (pending_eq_some_iff dlq _ _ _).mp otherFound
  rw [List.inj_on_of_nodup_map dlq.rows.uniqueId held otherHeld same]
  exact ⟨rfl, rfl⟩

/-- The rows that a take returns are pending rows, each of them once. -/
theorem taken_of_take {serde : PayloadSerde} {dlq : PushDlq} {limit : Nat} {row : FederationPushDlqRow}
    (present : row ∈ dlq.takePendingDlqRows serde limit) :
    ∃ stored, dlq.pending row.memoryId row.peerId = some stored ∧ stored.taken serde = row := by
  obtain ⟨stored, limited, rfl⟩ := List.mem_map.mp present
  have sorted := List.mem_of_mem_take limited
  have held := List.mem_filter.mp ((List.perm_insertionSort _ _).mem_iff.mp sorted)
  exact ⟨stored, (pending_eq_some_iff dlq _ _ _).mpr
    ⟨held.1, (of_decide_eq_true held.2).1, rfl, rfl⟩, rfl⟩

/-- No row is taken twice into one batch. -/
theorem nodup_take (serde : PayloadSerde) (dlq : PushDlq) (limit : Nat) :
    ((dlq.takePendingDlqRows serde limit).map FederationPushDlqRow.id).Nodup := by
  have sameIds : FederationPushDlqRow.id ∘ DlqRow.taken serde = DlqRow.id := rfl
  rw [takePendingDlqRows, List.map_map, sameIds]
  have filtered := dlq.rows.uniqueId.sublist
    (List.filter_sublist (p := fun row => row.pending ∧ row.attemptCount < maxReplayAttempts).map DlqRow.id)
  have sorted := ((List.perm_insertionSort (fun first second => first.failedAt ≤ second.failedAt) _).map
    DlqRow.id).nodup_iff.mpr filtered
  exact sorted.sublist ((List.take_sublist _ _).map DlqRow.id)

end Pending

end PushDlq
end AiMemory.Federation
