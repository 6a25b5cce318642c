import AiMemory.Library.KeyedTable
import Mathlib.Data.Option.Basic

/-
This file develops tables with a primary key and the statements that write them.
-/

namespace AiMemory.Library

universe u v

/-- No two rows share a primary key. -/
structure Table {Row : Type u} {Key : Type v} (key : Row → Key) where
  rows : List Row
  unique : (rows.map key).Nodup

namespace Table

variable {Row : Type u} {Key : Type v} {key : Row → Key}

def empty : Table key := ⟨[], List.nodup_nil⟩

def single (row : Row) : Table key := ⟨[row], List.nodup_singleton _⟩

section Modify

variable (table : Table key) (admits : Row → Bool)

/-- The update changes the admitted rows and no key. -/
def modify (change : Row → Row) (keeps : ∀ row, key (change row) = key row) : Table key where
  rows := table.rows.map fun row => if admits row then change row else row
  unique := by
    have sameKeys : (key ∘ fun row => if admits row then change row else row) = key := by
      funext row
      by_cases admitted : admits row = true <;> simp [admitted, keeps]
    rw [List.map_map, sameKeys]
    exact table.unique

/-- The deletion drops the admitted rows. -/
def delete : Table key where
  rows := table.rows.filter fun row => !admits row
  unique := table.unique.sublist (List.filter_sublist.map key)

end Modify

variable [DecidableEq Key]

def lookup (table : Table key) (query : Key) : Option Row :=
  table.rows.find? fun row => key row = query

theorem lookup_eq_some_iff {table : Table key} {query : Key} {row : Row} :
    table.lookup query = some row ↔ row ∈ table.rows ∧ key row = query :=
  KeyedTable.find?_key_iff table.unique query row

theorem key_of_lookup {table : Table key} {query : Key} {row : Row}
    (found : table.lookup query = some row) : key row = query :=
  (lookup_eq_some_iff.mp found).2

/-- The replacement drops the row with the key and appends the new row. -/
def upsert (table : Table key) (row : Row) : Table key where
  rows := table.rows.filter (fun old => key old ≠ key row) ++ [row]
  unique := by
    rw [List.map_append]
    refine List.nodup_append.mpr
      ⟨table.unique.sublist (List.filter_sublist.map key), List.nodup_singleton _, ?_⟩
    intro old present new fresh same
    obtain ⟨kept, filtered, rfl⟩ := List.mem_map.mp present
    rw [List.mem_singleton.mp fresh] at same
    exact of_decide_eq_true (List.mem_filter.mp filtered).2 same

/-- A lookup after an upsert finds the new row under its key. -/
theorem lookup_upsert (table : Table key) (row : Row) (query : Key) :
    (table.upsert row).lookup query = if query = key row then some row else table.lookup query := by
  apply Option.ext
  intro found
  rw [lookup_eq_some_iff]
  by_cases same : query = key row
  · subst same
    simp only [upsert, List.mem_append, List.mem_filter, List.mem_singleton, if_true,
      Option.some.injEq]
    constructor
    · rintro ⟨⟨_, other⟩ | rfl, here⟩
      · exact absurd here (of_decide_eq_true other)
      · rfl
    · rintro rfl
      exact ⟨.inr rfl, rfl⟩
  · simp only [upsert, List.mem_append, List.mem_filter, List.mem_singleton, if_neg same,
      lookup_eq_some_iff]
    constructor
    · rintro ⟨⟨present, _⟩ | rfl, here⟩
      · exact ⟨present, here⟩
      · exact absurd here.symm same
    · rintro ⟨present, here⟩
      exact ⟨.inl ⟨present, by simpa [here] using same⟩, here⟩

/-- A lookup after a change finds the changed row. -/
theorem lookup_modify (table : Table key) (admits : Row → Bool) (change : Row → Row)
    (keeps : ∀ row, key (change row) = key row) (query : Key) :
    (table.modify admits change keeps).lookup query =
      (table.lookup query).map fun row => if admits row then change row else row := by
  have sameKey : ∀ row, key (if admits row then change row else row) = key row := by
    intro row
    by_cases admitted : admits row = true <;> simp [admitted, keeps]
  apply Option.ext
  intro found
  simp only [lookup_eq_some_iff, modify, List.mem_map, Option.map_eq_some_iff]
  constructor
  · rintro ⟨⟨row, present, rfl⟩, here⟩
    exact ⟨row, ⟨present, (sameKey row).symm.trans here⟩, rfl⟩
  · rintro ⟨row, ⟨present, here⟩, rfl⟩
    exact ⟨⟨row, present, rfl⟩, (sameKey row).trans here⟩

theorem lookup_delete (table : Table key) (admits : Row → Bool) (query : Key) :
    (table.delete admits).lookup query = (table.lookup query).filter fun row => !admits row := by
  apply Option.ext
  intro found
  simp only [lookup_eq_some_iff, delete, List.mem_filter, Option.filter_eq_some_iff]
  exact ⟨fun ⟨⟨present, kept⟩, here⟩ => ⟨⟨present, here⟩, kept⟩,
    fun ⟨⟨present, here⟩, kept⟩ => ⟨⟨present, kept⟩, here⟩⟩

theorem lookup_isSome_iff {table : Table key} {query : Key} :
    (table.lookup query).isSome ↔ query ∈ table.rows.map key := by
  rw [Option.isSome_iff_exists, List.mem_map]
  exact exists_congr fun row => lookup_eq_some_iff

/-- Tables with the same keys have as many rows. -/
theorem length_eq_of_lookup {first second : Table key}
    (same : ∀ query, (first.lookup query).isSome ↔ (second.lookup query).isSome) :
    first.rows.length = second.rows.length := by
  have keys : (first.rows.map key).Perm (second.rows.map key) := by
    apply (List.perm_ext_iff_of_nodup first.unique second.unique).mpr
    intro query
    rw [← lookup_isSome_iff, ← lookup_isSome_iff]
    exact same query
  simpa using keys.length_eq

/-- A row with a new key is appended. -/
theorem upsert_rows_of_absent {table : Table key} {row : Row} (absent : table.lookup (key row) = none) :
    (table.upsert row).rows = table.rows ++ [row] := by
  refine congrArg (· ++ [row]) (List.filter_eq_self.mpr fun old present => decide_eq_true ?_)
  intro same
  have found := lookup_eq_some_iff.mpr ⟨present, same⟩
  rw [absent] at found
  cases found

end Table
end AiMemory.Library
