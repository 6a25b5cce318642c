import AiMemory.Crdt.Json
import AiMemory.Library.Register
import AiMemory.Library.SortedMap
import Mathlib.Data.Fintype.Sets

/-
This file embeds the vector clock of a row and its wire form.
-/

namespace AiMemory.Crdt
open AiMemory.Library

/-- The clock keeps the latest time of each peer; an absent peer was never seen. -/
structure VectorClock where
  entries : SortedMap String String

namespace VectorClock

def default : VectorClock := ⟨SortedMap.empty⟩

/-- The observation advances one peer and never regresses it. -/
def observe (clock : VectorClock) (peerId «at» : String) : VectorClock :=
  ⟨clock.entries.insert peerId
    (match clock.entries.lookup peerId with
      | some existing => if existing < «at» then «at» else existing
      | none => «at»)⟩

def merge (self other : VectorClock) : VectorClock :=
  other.entries.entries.foldl (fun clock entry => clock.observe entry.1 entry.2) self

def latestFrom (clock : VectorClock) (peerId : String) : Option String :=
  clock.entries.lookup peerId

@[ext] theorem ext {first second : VectorClock}
    (same : ∀ peerId, first.latestFrom peerId = second.latestFrom peerId) : first = second := by
  obtain ⟨entries⟩ := first
  obtain ⟨others⟩ := second
  exact congrArg mk (SortedMap.ext same)

/-- The fold of the observations acts on the entries alone. -/
theorem entries_foldl_observe (entries : List (String × String)) (clock : VectorClock) :
    (entries.foldl (fun clock entry => clock.observe entry.1 entry.2) clock).entries =
      entries.foldl (fun map entry => map.insert entry.1
        (match map.lookup entry.1 with
          | some existing => if existing < entry.2 then entry.2 else existing
          | none => entry.2)) clock.entries := by
  induction entries generalizing clock with
  | nil => rfl
  | cons head rest ih => exact ih _

/-- The merge is the pointwise maximum. -/
theorem latestFrom_merge (self other : VectorClock) (peerId : String) :
    (self.merge other).latestFrom peerId =
      joinOption larger (self.latestFrom peerId) (other.latestFrom peerId) := by
  have folded := SortedMap.lookup_foldl_insert
    (fun (old : Option String) new => match old with
      | some existing => if existing < new then new else existing
      | none => new) other.entries.entries other.entries.sorted self.entries peerId
  unfold latestFrom merge
  rw [entries_foldl_observe]
  apply folded.trans
  rw [show lookupEntry peerId other.entries.entries = other.entries.lookup peerId from rfl]
  cases self.entries.lookup peerId <;> cases other.entries.lookup peerId <;> rfl

theorem merge_comm (self other : VectorClock) : self.merge other = other.merge self := by
  ext1 peerId
  rw [latestFrom_merge, latestFrom_merge]
  exact joinOption_comm (fun left right => by rw [larger_eq_max, larger_eq_max, max_comm]) _ _

/-- Three clocks can be merged in any grouping. -/
theorem merge_assoc (first second third : VectorClock) :
    (first.merge second).merge third = first.merge (second.merge third) := by
  ext1 peerId
  simp only [latestFrom_merge]
  exact joinOption_assoc (fun left middle right => by simp only [larger_eq_max, max_assoc]) _ _ _

/-- A clock that was merged in changes nothing when it comes again. -/
theorem merge_absorb (self other : VectorClock) : (self.merge other).merge other = self.merge other := by
  ext1 peerId
  simp only [latestFrom_merge]
  exact joinOption_absorb (fun value => by rw [larger_eq_max, max_self])
    fun first _ second _ => larger_absorb lt_irrefl first second

@[simp] theorem merge_default (self : VectorClock) : self.merge default = self := rfl

@[simp] theorem default_merge (other : VectorClock) : default.merge other = other := by
  rw [merge_comm, merge_default]

/-- The decoder of a string map accepts an object of strings only. -/
def decodeEntries : Json → Option (SortedMap String String)
  | .object keys vals =>
      if strings : ∀ key, (vals key).asStr.isSome then
        some (SortedMap.ofKeys keys fun key => (vals key).asStr.get (strings key))
      else none
  | _ => none

/-- The derived decoder reads an object with a default field, or a sequence of at most one. -/
def fromValue : Json → Option VectorClock
  | .object keys vals =>
      match (Json.object keys vals).get "entries" with
      | some entries => (decodeEntries entries).map VectorClock.mk
      | none => some default
  | .array 0 _ => some default
  | .array 1 items => (decodeEntries (items 0)).map VectorClock.mk
  | _ => none

/-- The encoder writes one string for each peer. -/
def encodeEntries (map : SortedMap String String) : Json :=
  map.entries.foldl (fun json entry => json.insert entry.1 (.string entry.2)) Json.empty

def toValue (clock : VectorClock) : Json :=
  Json.empty.insert "entries" (encodeEntries clock.entries)

theorem get_foldl_insert (entries : List (String × String))
    (sorted : entries.Pairwise fun first second => first.1 < second.1) {json : Json}
    (object : json.isObject) (query : String) :
    (entries.foldl (fun json entry => json.insert entry.1 (.string entry.2)) json).get query =
      ((lookupEntry query entries).map Json.string).or (json.get query) := by
  induction entries generalizing json with
  | nil => rfl
  | cons head rest ih =>
      have inserted : (json.insert head.1 (.string head.2)).isObject := by
        rw [Json.isObject_insert]
        exact object
      have override := Json.get_put object head.1 (some (.string head.2)) query
      rw [List.foldl_cons, ih sorted.of_cons inserted, lookupEntry]
      rw [Json.put] at override
      rw [override]
      by_cases isHead : query = head.1
      · have later : lookupEntry query rest = none := lookupEntry_none fun entry present =>
          isHead.trans_ne (List.rel_of_pairwise_cons sorted present).ne
        simp [isHead ▸ later, isHead]
      · simp [isHead]

theorem isObject_foldl_insert (entries : List (String × String)) (json : Json) :
    (entries.foldl (fun json entry => json.insert entry.1 (.string entry.2)) json).isObject =
      json.isObject := by
  induction entries generalizing json with
  | nil => rfl
  | cons head rest ih => rw [List.foldl_cons, ih, Json.isObject_insert]

theorem get_encodeEntries (map : SortedMap String String) (query : String) :
    (encodeEntries map).get query = (map.lookup query).map Json.string := by
  rw [encodeEntries, get_foldl_insert map.entries map.sorted rfl]
  simp [Json.empty, SortedMap.lookup]

/-- The decoder inverts the encoder of a string map. -/
theorem decodeEntries_encodeEntries (map : SortedMap String String) :
    decodeEntries (encodeEntries map) = some map := by
  have object : (encodeEntries map).isObject := by
    rw [encodeEntries, isObject_foldl_insert]
    rfl
  have lookups := get_encodeEntries map
  obtain ⟨keys, vals, shape⟩ := Json.exists_of_isObject object
  rw [shape] at lookups ⊢
  have found : ∀ key, ∃ text, vals key = .string text ∧ map.lookup key.1 = some text := by
    intro key
    have lookup := lookups key.1
    rw [Json.get_object, dif_pos key.2] at lookup
    obtain ⟨text, inMap, same⟩ := Option.map_eq_some_iff.mp lookup.symm
    exact ⟨text, same.symm, inMap⟩
  have strings : ∀ key, (vals key).asStr.isSome := by
    intro key
    obtain ⟨text, same, _⟩ := found key
    rw [same]
    rfl
  rw [decodeEntries, dif_pos strings]
  refine congrArg some (SortedMap.ext fun query => ?_)
  rw [SortedMap.lookup_ofKeys]
  by_cases present : query ∈ keys
  · obtain ⟨text, same, inMap⟩ := found ⟨query, present⟩
    simp [present, same, inMap, Json.asStr]
  · have lookup := lookups query
    simp only [Json.get_object, dif_neg present] at lookup
    simp [present, Option.map_eq_none_iff.mp lookup.symm]

/-- The decoder inverts the encoder. -/
@[simp] theorem fromValue_toValue (clock : VectorClock) : fromValue clock.toValue = some clock := by
  obtain ⟨keys, vals, shape⟩ := Json.exists_of_isObject
    (show clock.toValue.isObject from Json.isObject_insert _ _ _)
  have empty : Json.empty.isObject := rfl
  have lookup : clock.toValue.get "entries" = some (encodeEntries clock.entries) := by
    simpa [Json.put, toValue] using Json.get_put empty "entries"
      (some (encodeEntries clock.entries)) "entries"
  rw [shape] at lookup ⊢
  simp [fromValue, lookup, decodeEntries_encodeEntries]

end VectorClock

/-- An absent or malformed clock reads as the empty clock. -/
def parseVersionVector (metadata : Json) : VectorClock :=
  ((metadata.get "version_vector").bind VectorClock.fromValue).getD VectorClock.default

end AiMemory.Crdt
