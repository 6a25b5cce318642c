import Mathlib.Data.List.Basic
import Mathlib.Data.List.Nodup

/-
This file develops tables with two unique keys and compares tables on the rows that an observer watches.
-/

namespace AiMemory.Library

universe u v w

section Watched

variable {Row : Type u} {watched : Row → Prop} {rows : List Row}

/-- The two tables hold the same watched rows. -/
def SameRows (watched : Row → Prop) (before after : List Row) : Prop :=
  ∀ row, watched row → (row ∈ after ↔ row ∈ before)

namespace SameRows

theorem refl (watched : Row → Prop) (rows : List Row) : SameRows watched rows rows := fun _ _ => Iff.rfl

theorem trans {first second third : List Row} (left : SameRows watched first second)
    (right : SameRows watched second third) : SameRows watched first third :=
  fun row watches => (right row watches).trans (left row watches)

/-- An appended row stays unseen. -/
theorem append {row : Row} (unseen : ¬ watched row) : SameRows watched rows (rows ++ [row]) := by
  intro other watches
  have differs : other ≠ row := fun same => unseen (same ▸ watches)
  simp [differs]

/-- A deletion that takes no watched row stays unseen. -/
theorem filter {keep : Row → Bool} (kept : ∀ row ∈ rows, watched row → keep row) :
    SameRows watched rows (rows.filter keep) := by
  intro row watches
  rw [List.mem_filter]
  exact ⟨fun member => member.1, fun present => ⟨present, kept row present watches⟩⟩

/-- A rewrite that neither starts nor ends at a watched row stays unseen. -/
theorem map {change : Row → Row}
    (changes : ∀ row ∈ rows, change row = row ∨ ¬ watched row ∧ ¬ watched (change row)) :
    SameRows watched rows (rows.map change) := by
  intro row watches
  rw [List.mem_map]
  constructor
  · rintro ⟨old, present, rfl⟩
    rcases changes old present with same | ⟨_, unseen⟩
    · rw [same]
      exact present
    · exact absurd watches unseen
  · intro present
    rcases changes row present with same | ⟨unseen, _⟩
    · exact ⟨row, present, same⟩
    · exact absurd watches unseen

end SameRows

end Watched

/-- No two rows share an identifier, and no two rows share a slot. -/
structure KeyedTable {Row : Type u} {Id : Type v} {Slot : Type w} (idOf : Row → Id)
    (slotOf : Row → Slot) where
  rows : List Row
  uniqueId : (rows.map idOf).Nodup
  uniqueSlot : (rows.map slotOf).Nodup

namespace KeyedTable

variable {Row : Type u} {Id : Type v} {Slot : Type w} {idOf : Row → Id} {slotOf : Row → Slot}

/-- A key without duplicates selects at most one row. -/
theorem find?_key_iff {Key : Type*} [DecidableEq Key] {key : Row → Key} {rows : List Row}
    (unique : (rows.map key).Nodup) (query : Key) (row : Row) :
    rows.find? (fun candidate => key candidate = query) = some row ↔
      row ∈ rows ∧ key row = query := by
  constructor
  · intro found
    exact ⟨List.mem_of_find?_eq_some found, by simpa using List.find?_some found⟩
  · rintro ⟨present, same⟩
    cases found : rows.find? (fun candidate => key candidate = query) with
    | none => exact absurd same (by simpa using List.find?_eq_none.mp found row present)
    | some other =>
        have otherKey : key other = query := by simpa using List.find?_some found
        rw [List.inj_on_of_nodup_map unique (List.mem_of_find?_eq_some found) present
          (otherKey.trans same.symm)]

def empty : KeyedTable idOf slotOf := ⟨[], List.nodup_nil, List.nodup_nil⟩

/-- Rows that share a slot are one row. -/
theorem id_of_slot (table : KeyedTable idOf slotOf) {first second : Row}
    (firstPresent : first ∈ table.rows) (secondPresent : second ∈ table.rows)
    (same : slotOf first = slotOf second) :
    idOf first = idOf second :=
  congrArg idOf (List.inj_on_of_nodup_map table.uniqueSlot firstPresent secondPresent same)

/-- The rewrite keeps every identifier, and rows that share a slot after it are one row. -/
def rewrite (table : KeyedTable idOf slotOf) (change : Row → Row)
    (keepsId : ∀ row, idOf (change row) = idOf row)
    (apart : ∀ first ∈ table.rows, ∀ second ∈ table.rows,
      slotOf (change first) = slotOf (change second) → idOf first = idOf second) :
    KeyedTable idOf slotOf where
  rows := table.rows.map change
  uniqueId := by
    have sameIds : idOf ∘ change = idOf := funext keepsId
    rw [List.map_map, sameIds]
    exact table.uniqueId
  uniqueSlot := by
    rw [List.map_map]
    refine List.Nodup.map_on ?_ (List.Nodup.of_map idOf table.uniqueId)
    intro first firstPresent second secondPresent same
    exact List.inj_on_of_nodup_map table.uniqueId firstPresent secondPresent
      (apart first firstPresent second secondPresent same)

/-- The deletion keeps the rows that it does not select. -/
def retain (table : KeyedTable idOf slotOf) (keep : Row → Bool) : KeyedTable idOf slotOf where
  rows := table.rows.filter keep
  uniqueId := table.uniqueId.sublist (List.filter_sublist.map idOf)
  uniqueSlot := table.uniqueSlot.sublist (List.filter_sublist.map slotOf)

/-- A deletion that selects no row leaves the table. -/
theorem retain_eq_self {table : KeyedTable idOf slotOf} {keep : Row → Bool}
    (kept : ∀ row ∈ table.rows, keep row = true) : table.retain keep = table := by
  have same : table.rows.filter keep = table.rows := List.filter_eq_self.mpr kept
  cases table
  simp only [retain] at same ⊢
  congr

section Find

variable [DecidableEq Id]

def find (table : KeyedTable idOf slotOf) (id : Id) : Option Row :=
  table.rows.find? fun row => idOf row = id

/-- The row that is found is the one with that identifier. -/
theorem find_eq_some_iff (table : KeyedTable idOf slotOf) (id : Id) (row : Row) :
    table.find id = some row ↔ row ∈ table.rows ∧ idOf row = id :=
  find?_key_iff table.uniqueId id row

theorem find_eq_none_iff (table : KeyedTable idOf slotOf) (id : Id) :
    table.find id = none ↔ ∀ row ∈ table.rows, idOf row ≠ id := by
  simp [find, List.find?_eq_none]

/-- A lookup after a deletion finds the row if it was kept. -/
theorem find_retain (table : KeyedTable idOf slotOf) (keep : Row → Bool) (query : Id) :
    (table.retain keep).find query = (table.find query).filter keep := by
  refine Option.ext fun row => ?_
  rw [find_eq_some_iff, Option.filter_eq_some_iff, find_eq_some_iff, retain, List.mem_filter]
  exact and_right_comm

end Find

section FindSlot

variable [DecidableEq Slot]

def findSlot (table : KeyedTable idOf slotOf) (slot : Slot) : Option Row :=
  table.rows.find? fun row => slotOf row = slot

/-- The row of a slot is the one that is stored there. -/
theorem findSlot_eq_some_iff (table : KeyedTable idOf slotOf) (slot : Slot) (row : Row) :
    table.findSlot slot = some row ↔ row ∈ table.rows ∧ slotOf row = slot :=
  find?_key_iff table.uniqueSlot slot row

theorem findSlot_eq_none_iff (table : KeyedTable idOf slotOf) (slot : Slot) :
    table.findSlot slot = none ↔ ∀ row ∈ table.rows, slotOf row ≠ slot := by
  simp [findSlot, List.find?_eq_none]

end FindSlot

variable [DecidableEq Id] [DecidableEq Slot]

/-- The insertion appends a row whose keys are both new. -/
def append (table : KeyedTable idOf slotOf) (row : Row) (freshId : table.find (idOf row) = none)
    (freshSlot : table.findSlot (slotOf row) = none) : KeyedTable idOf slotOf where
  rows := table.rows ++ [row]
  uniqueId := by
    rw [List.map_append]
    refine List.nodup_append.mpr ⟨table.uniqueId, List.nodup_singleton _, ?_⟩
    have absent := (find_eq_none_iff table _).mp freshId
    simpa using absent
  uniqueSlot := by
    rw [List.map_append]
    refine List.nodup_append.mpr ⟨table.uniqueSlot, List.nodup_singleton _, ?_⟩
    have absent := (findSlot_eq_none_iff table _).mp freshSlot
    simpa using absent

/-- The update overwrites the row of one identifier; its slot is free or already its own. -/
def replace (table : KeyedTable idOf slotOf) (row : Row)
    (noClash : ∀ other ∈ table.findSlot (slotOf row), idOf other = idOf row) :
    KeyedTable idOf slotOf where
  rows := table.rows.map fun old => if idOf old = idOf row then row else old
  uniqueId := by
    have sameIds : (idOf ∘ fun old => if idOf old = idOf row then row else old) = idOf := by
      funext old
      by_cases isRow : idOf old = idOf row <;> simp [isRow]
    rw [List.map_map, sameIds]
    exact table.uniqueId
  uniqueSlot := by
    have distinct := (List.pairwise_map.mp table.uniqueId).and (List.pairwise_map.mp table.uniqueSlot)
    rw [List.map_map]
    refine List.pairwise_map.mpr (distinct.imp_of_mem ?_)
    intro first second firstPresent secondPresent differ same
    have free : ∀ other ∈ table.rows, slotOf other = slotOf row → idOf other = idOf row :=
      fun other present slot => noClash other ((findSlot_eq_some_iff table _ other).mpr ⟨present, slot⟩)
    by_cases isFirst : idOf first = idOf row <;> by_cases isSecond : idOf second = idOf row
    · exact differ.1 (isFirst.trans isSecond.symm)
    · simp only [Function.comp_apply, isFirst, isSecond, if_true, if_false] at same
      exact isSecond (free second secondPresent same.symm)
    · simp only [Function.comp_apply, isFirst, isSecond, if_true, if_false] at same
      exact isFirst (free first firstPresent same)
    · simp only [Function.comp_apply, isFirst, isSecond, if_false] at same
      exact differ.2 same

/-- A lookup after an insertion finds the new row by its identifier. -/
theorem find_append (table : KeyedTable idOf slotOf) (row : Row)
    (freshId : table.find (idOf row) = none) (freshSlot : table.findSlot (slotOf row) = none)
    (query : Id) :
    (table.append row freshId freshSlot).find query =
      if query = idOf row then some row else table.find query := by
  by_cases isRow : query = idOf row
  · rw [if_pos isRow, find_eq_some_iff]
    exact ⟨List.mem_append_right _ (List.mem_singleton_self row), isRow.symm⟩
  · simp [find, append, List.find?_append, Ne.symm isRow, isRow]

/-- A lookup after a replacement finds the new row by its identifier. -/
theorem find_replace (table : KeyedTable idOf slotOf) (row : Row)
    (noClash : ∀ other ∈ table.findSlot (slotOf row), idOf other = idOf row) (query : Id) :
    (table.replace row noClash).find query =
      (table.find query).map fun old => if query = idOf row then row else old := by
  cases found : table.find query with
  | none =>
      rw [find_eq_none_iff] at found
      rw [Option.map_none, find_eq_none_iff]
      intro new present
      obtain ⟨old, oldPresent, rfl⟩ := List.mem_map.mp present
      by_cases isRow : idOf old = idOf row
      · simpa [isRow] using isRow ▸ found old oldPresent
      · simpa [isRow] using found old oldPresent
  | some old =>
      obtain ⟨present, same⟩ := (find_eq_some_iff table query old).mp found
      rw [Option.map_some, find_eq_some_iff]
      refine ⟨List.mem_map.mpr ⟨old, present, by rw [same]⟩, ?_⟩
      by_cases isRow : query = idOf row <;> simp [isRow, same]

/-- The update of a stored row shows the new row under its identifier and every other row as before. -/
theorem find_replace_stored {table : KeyedTable idOf slotOf} {row old : Row}
    (stored : table.find (idOf row) = some old)
    (noClash : ∀ other ∈ table.findSlot (slotOf row), idOf other = idOf row) (query : Id) :
    (table.replace row noClash).find query = if query = idOf row then some row else table.find query := by
  rw [find_replace]
  by_cases isRow : query = idOf row
  · rw [if_pos isRow, isRow, stored, Option.map_some, if_pos rfl]
  · simp [isRow]

/-- The update of a row with itself leaves the table. -/
theorem replace_self {table : KeyedTable idOf slotOf} {row : Row} (stored : table.find (idOf row) = some row)
    (noClash : ∀ other ∈ table.findSlot (slotOf row), idOf other = idOf row) : table.replace row noClash = table := by
  have present := ((find_eq_some_iff table _ _).mp stored).1
  have same : (table.rows.map fun old => if idOf old = idOf row then row else old) = table.rows := by
    have each : ∀ old ∈ table.rows, (if idOf old = idOf row then row else old) = id old := by
      intro old oldPresent
      split_ifs with isRow
      · exact List.inj_on_of_nodup_map table.uniqueId present oldPresent isRow.symm
      · rfl
    rw [List.map_congr_left each, List.map_id]
  cases table
  simp only [replace] at same ⊢
  congr

end KeyedTable

end AiMemory.Library
