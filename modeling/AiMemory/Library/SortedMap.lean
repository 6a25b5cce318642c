import Mathlib.Data.Finset.Sort
import Mathlib.Order.Basic
import Mathlib.Data.List.Basic

/-
This file develops finite maps whose entries are strictly sorted by key.
-/

namespace AiMemory.Library

universe u v w
variable {Key : Type u} {Value : Type v} {Other : Type w} [LinearOrder Key]

/-- The sorted insertion replaces the value of a present key. -/
def insertEntry (key : Key) (value : Value) : List (Key × Value) → List (Key × Value)
  | [] => [(key, value)]
  | head :: rest =>
      if key < head.1 then (key, value) :: head :: rest
      else if key = head.1 then (key, value) :: rest
      else head :: insertEntry key value rest

/-- An insertion adds its entry and no other. -/
theorem mem_insertEntry {key : Key} {value : Value} {entry : Key × Value}
    {entries : List (Key × Value)} (present : entry ∈ insertEntry key value entries) :
    entry = (key, value) ∨ entry ∈ entries := by
  induction entries with
  | nil => exact .inl (List.mem_singleton.mp present)
  | cons head rest ih =>
      rw [insertEntry] at present
      split_ifs at present <;> grind

/-- An insertion keeps the keys in order. -/
theorem sorted_insertEntry (key : Key) (value : Value) {entries : List (Key × Value)}
    (sorted : entries.Pairwise fun first second => first.1 < second.1) :
    (insertEntry key value entries).Pairwise fun first second => first.1 < second.1 := by
  induction entries with
  | nil => exact List.pairwise_singleton _ _
  | cons head rest ih =>
      rw [insertEntry]
      split_ifs with before same
      · refine List.pairwise_cons.mpr ⟨fun entry present => ?_, sorted⟩
        rcases List.mem_cons.mp present with rfl | later
        · exact before
        · exact before.trans (List.rel_of_pairwise_cons sorted later)
      · subst same
        exact List.pairwise_cons.mpr ⟨fun entry later => List.rel_of_pairwise_cons sorted later,
          sorted.of_cons⟩
      · refine List.pairwise_cons.mpr ⟨fun entry present => ?_, ih sorted.of_cons⟩
        rcases mem_insertEntry present with rfl | later
        · exact lt_of_le_of_ne (not_lt.mp before) (Ne.symm same)
        · exact List.rel_of_pairwise_cons sorted later

/-- The first entry of a key gives its value. -/
def lookupEntry (query : Key) : List (Key × Value) → Option Value
  | [] => none
  | head :: rest => if query = head.1 then some head.2 else lookupEntry query rest

/-- A lookup after an insertion finds the new value under its key. -/
theorem lookupEntry_insertEntry (key query : Key) (value : Value) (entries : List (Key × Value)) :
    lookupEntry query (insertEntry key value entries) =
      if query = key then some value else lookupEntry query entries := by
  induction entries with
  | nil => rfl
  | cons head rest ih =>
      rw [insertEntry]
      split_ifs with before same isKey isKey isKey
      all_goals simp_all [lookupEntry]

theorem lookupEntry_none {query : Key} {entries : List (Key × Value)}
    (absent : ∀ entry ∈ entries, query ≠ entry.1) : lookupEntry query entries = none := by
  induction entries with
  | nil => rfl
  | cons head rest ih =>
      rw [lookupEntry, if_neg (absent head List.mem_cons_self)]
      exact ih fun entry later => absent entry (List.mem_cons_of_mem _ later)

/-- Sorted entries with the same lookups are the same entries. -/
theorem entries_ext {first second : List (Key × Value)}
    (firstSorted : first.Pairwise fun left right => left.1 < right.1)
    (secondSorted : second.Pairwise fun left right => left.1 < right.1)
    (same : ∀ query, lookupEntry query first = lookupEntry query second) : first = second := by
  induction first generalizing second with
  | nil =>
      cases second with
      | nil => rfl
      | cons head rest => simpa [lookupEntry] using same head.1
  | cons head rest ih =>
      cases second with
      | nil => simpa [lookupEntry] using same head.1
      | cons other others =>
          have restAbove : ∀ query, query ≤ head.1 → lookupEntry query rest = none :=
            fun query low => lookupEntry_none fun entry later =>
              (low.trans_lt (List.rel_of_pairwise_cons firstSorted later)).ne
          have othersAbove : ∀ query, query ≤ other.1 → lookupEntry query others = none :=
            fun query low => lookupEntry_none fun entry later =>
              (low.trans_lt (List.rel_of_pairwise_cons secondSorted later)).ne
          -- the smaller of the two first keys has a value on one side only
          have keys : head.1 = other.1 := by
            rcases lt_trichotomy head.1 other.1 with less | equal | more
            · have missing := same head.1
              simp [lookupEntry, less.ne, othersAbove _ less.le] at missing
            · exact equal
            · have missing := same other.1
              simp [lookupEntry, more.ne, restAbove _ more.le] at missing
          have values : head.2 = other.2 := by
            have found := same head.1
            simpa [lookupEntry, keys] using found
          have heads : head = other := Prod.ext keys values
          subst heads
          congr 1
          apply ih firstSorted.of_cons secondSorted.of_cons
          intro query
          by_cases isHead : query = head.1
          · rw [restAbove _ isHead.le, othersAbove _ isHead.le]
          · have found := same query
            simpa [lookupEntry, isHead] using found

/-- A sorted map keeps one value for each key. -/
structure SortedMap (Key : Type u) (Value : Type v) [LinearOrder Key] where
  entries : List (Key × Value)
  sorted : entries.Pairwise fun first second => first.1 < second.1

namespace SortedMap

def empty : SortedMap Key Value := ⟨[], List.Pairwise.nil⟩

def isEmpty (map : SortedMap Key Value) : Bool := map.entries.isEmpty

def lookup (map : SortedMap Key Value) (query : Key) : Option Value :=
  lookupEntry query map.entries

def insert (map : SortedMap Key Value) (key : Key) (value : Value) : SortedMap Key Value :=
  ⟨insertEntry key value map.entries, sorted_insertEntry key value map.sorted⟩

@[simp] theorem lookup_insert (map : SortedMap Key Value) (key query : Key) (value : Value) :
    (map.insert key value).lookup query = if query = key then some value else map.lookup query :=
  lookupEntry_insertEntry key query value map.entries

/-- The lookups determine the map. -/
@[ext] theorem ext {first second : SortedMap Key Value}
    (same : ∀ query, first.lookup query = second.lookup query) : first = second := by
  obtain ⟨entries, sorted⟩ := first
  obtain ⟨others, otherSorted⟩ := second
  obtain rfl := entries_ext sorted otherSorted same
  rfl

/-- A map is empty exactly when every lookup fails. -/
theorem isEmpty_iff (map : SortedMap Key Value) :
    map.isEmpty = true ↔ ∀ query, map.lookup query = none := by
  obtain ⟨entries, sorted⟩ := map
  cases entries with
  | nil => simp [isEmpty, lookup, lookupEntry]
  | cons head rest =>
      simp only [isEmpty, lookup, List.isEmpty_cons, Bool.false_eq_true, false_iff, not_forall]
      exact ⟨head.1, by simp [lookupEntry]⟩

/-- A pass over the entries in key order folds each lookup once. -/
theorem lookup_foldl_insert {Result : Type w} (pick : Option Result → Value → Result)
    (entries : List (Key × Value))
    (sorted : entries.Pairwise fun first second => first.1 < second.1)
    (start : SortedMap Key Result) (query : Key) :
    (entries.foldl (fun map entry =>
        map.insert entry.1 (pick (map.lookup entry.1) entry.2)) start).lookup query =
      match lookupEntry query entries with
      | some value => some (pick (start.lookup query) value)
      | none => start.lookup query := by
  induction entries generalizing start with
  | nil => rfl
  | cons head rest ih =>
      rw [List.foldl_cons, ih sorted.of_cons, lookupEntry]
      by_cases isHead : query = head.1
      · have later : lookupEntry query rest = none := lookupEntry_none fun entry present =>
          isHead.trans_ne (List.rel_of_pairwise_cons sorted present).ne
        simp [isHead ▸ later, isHead]
      · simp [isHead]

/-- A map over a finite key set has exactly these keys. -/
def ofKeys (keys : Finset Key) (value : {key // key ∈ keys} → Value) : SortedMap Key Value where
  entries := (keys.sort (· ≤ ·)).attach.map fun key =>
    (key.1, value ⟨key.1, (Finset.mem_sort _).mp key.2⟩)
  sorted := by
    have increasing := (Finset.sortedLT_sort keys).pairwise
    rw [← List.attach_map_subtype_val (keys.sort (· ≤ ·)), List.pairwise_map] at increasing
    exact List.pairwise_map.mpr increasing

theorem lookupEntry_map_attach (keys : List Key) (value : {key // key ∈ keys} → Value)
    (query : Key) :
    lookupEntry query (keys.attach.map fun key => (key.1, value key)) =
      if present : query ∈ keys then some (value ⟨query, present⟩) else none := by
  induction keys with
  | nil => rfl
  | cons head rest ih =>
      rw [List.attach_cons, List.map_cons, lookupEntry, List.map_map]
      by_cases isHead : query = head
      · subst isHead
        simp
      · rw [if_neg isHead]
        have later := ih fun key => value ⟨key.1, List.mem_cons_of_mem _ key.2⟩
        simpa [Function.comp_def, isHead] using later

/-- A lookup finds the value of a listed key. -/
theorem lookup_ofKeys (keys : Finset Key) (value : {key // key ∈ keys} → Value) (query : Key) :
    (ofKeys keys value).lookup query =
      if present : query ∈ keys then some (value ⟨query, present⟩) else none := by
  have found := lookupEntry_map_attach (keys.sort (· ≤ ·))
    (fun key => value ⟨key.1, (Finset.mem_sort _).mp key.2⟩) query
  rw [lookup, ofKeys, found]
  by_cases present : query ∈ keys <;> simp [present]

end SortedMap
end AiMemory.Library
