import AiMemory.Library.Register
import AiMemory.Machine.Numbers
import Mathlib.Data.Finset.Basic
import Mathlib.Data.String.Basic

/-
This file embeds the JSON values and their deep merge.
-/

namespace AiMemory.Crdt
open AiMemory.Library AiMemory.Machine

inductive Number where
  | posInt (value : Nat)
  | negInt (value : Int)
  | float (value : F64)
  deriving DecidableEq, Repr

/-- An object is a finite key set with one value for each key. -/
inductive Json where
  | null
  | bool (value : Bool)
  | number (value : Number)
  | string (value : String)
  | array (length : Nat) (items : Fin length → Json)
  | object (keys : Finset String) (vals : {key // key ∈ keys} → Json)

namespace Json

def isObject : Json → Bool
  | .object _ _ => true
  | _ => false

/-- Only an object answers a lookup by key. -/
def get : Json → String → Option Json
  | .object keys vals, key => if present : key ∈ keys then some (vals ⟨key, present⟩) else none
  | _, _ => none

def asStr : Json → Option String
  | .string value => some value
  | _ => none

def empty : Json := .object ∅ fun key => absurd key.2 (Finset.notMem_empty _)

def insert (json : Json) (key : String) (value : Json) : Json :=
  match json with
  | .object keys vals => .object (Insert.insert key keys) fun query =>
      if same : query.1 = key then value
      else vals ⟨query.1, (Finset.mem_insert.mp query.2).resolve_left same⟩
  | other => other

def remove (json : Json) (key : String) : Json :=
  match json with
  | .object keys vals => .object (keys.erase key) fun query =>
      vals ⟨query.1, Finset.mem_of_mem_erase query.2⟩
  | other => other

/-- The override inserts a present value and removes an absent one. -/
def put (json : Json) (key : String) : Option Json → Json
  | some value => json.insert key value
  | none => json.remove key

/-- Objects merge key by key; every other collision goes to the winning side. -/
def deepMerge (localJson remoteJson : Json) (remoteWins : Bool) : Json :=
  match localJson, remoteJson with
  | .object localKeys localVals, .object remoteKeys remoteVals =>
      .object (localKeys ∪ remoteKeys) fun key =>
        if inLocal : key.1 ∈ localKeys then
          if inRemote : key.1 ∈ remoteKeys then
            (localVals ⟨key.1, inLocal⟩).deepMerge (remoteVals ⟨key.1, inRemote⟩) remoteWins
          else localVals ⟨key.1, inLocal⟩
        else remoteVals ⟨key.1, (Finset.mem_union.mp key.2).resolve_left inLocal⟩
  | localValue, remoteValue => if remoteWins then remoteValue else localValue

/-- The verdict comes first when a merge is one of a family. -/
def mergeUnder (remoteWins : Bool) (localJson remoteJson : Json) : Json :=
  localJson.deepMerge remoteJson remoteWins

@[simp] theorem get_object (keys : Finset String) (vals : {key // key ∈ keys} → Json)
    (key : String) :
    (object keys vals).get key =
      if present : key ∈ keys then some (vals ⟨key, present⟩) else none := rfl

theorem exists_of_isObject {json : Json} (isObject : json.isObject) :
    ∃ keys vals, json = object keys vals := by
  cases json <;> first | exact ⟨_, _, rfl⟩ | exact absurd isObject Bool.false_ne_true

theorem get_of_not_isObject {json : Json} (scalar : json.isObject = false) (key : String) :
    json.get key = none := by
  cases json <;> first | rfl | exact absurd scalar (Ne.symm Bool.false_ne_true)

/-- Two objects with the same lookups are equal. -/
theorem ext_get {first second : Json} (firstObject : first.isObject)
    (secondObject : second.isObject) (same : ∀ key, first.get key = second.get key) :
    first = second := by
  obtain ⟨keys, vals, rfl⟩ := exists_of_isObject firstObject
  obtain ⟨others, otherVals, rfl⟩ := exists_of_isObject secondObject
  have sameKeys : keys = others := by
    ext key
    have lookup := same key
    simp only [get_object] at lookup
    by_cases inFirst : key ∈ keys <;> by_cases inSecond : key ∈ others <;> simp_all
  subst sameKeys
  congr 1
  funext key
  have lookup := same key.1
  simpa [key.2] using lookup

@[simp] theorem isObject_insert (json : Json) (key : String) (value : Json) :
    (json.insert key value).isObject = json.isObject := by cases json <;> rfl

@[simp] theorem isObject_remove (json : Json) (key : String) :
    (json.remove key).isObject = json.isObject := by cases json <;> rfl

@[simp] theorem isObject_put (json : Json) (key : String) (value : Option Json) :
    (json.put key value).isObject = json.isObject := by cases value <;> simp [put]

/-- An override of an object answers its own key and keeps every other key. -/
theorem get_put {json : Json} (object : json.isObject) (key : String) (value : Option Json)
    (query : String) :
    (json.put key value).get query = if query = key then value else json.get query := by
  obtain ⟨keys, vals, rfl⟩ := exists_of_isObject object
  cases value with
  | none =>
      by_cases same : query = key <;> by_cases present : query ∈ keys <;>
        simp [put, remove, same, present]
  | some value =>
      by_cases same : query = key <;> by_cases present : query ∈ keys <;>
        simp [put, insert, same, present]

/-- A collision without two objects takes the winner. -/
theorem deepMerge_scalar {localJson remoteJson : Json}
    (scalar : (localJson.isObject && remoteJson.isObject) = false) (remoteWins : Bool) :
    localJson.deepMerge remoteJson remoteWins = pick remoteWins localJson remoteJson := by
  cases localJson <;> cases remoteJson <;>
    first | (simp [isObject] at scalar; done) | simp [deepMerge, pick]

/-- A deep merge of two objects is an object. -/
theorem isObject_deepMerge {localJson remoteJson : Json} (localObject : localJson.isObject)
    (remoteObject : remoteJson.isObject) (remoteWins : Bool) :
    (localJson.deepMerge remoteJson remoteWins).isObject := by
  obtain ⟨_, _, rfl⟩ := exists_of_isObject localObject
  obtain ⟨_, _, rfl⟩ := exists_of_isObject remoteObject
  rfl

/-- The deep merge of two objects merges each lookup. -/
theorem get_deepMerge {localJson remoteJson : Json} (localObject : localJson.isObject)
    (remoteObject : remoteJson.isObject) (remoteWins : Bool) (key : String) :
    (localJson.deepMerge remoteJson remoteWins).get key =
      joinOption (mergeUnder remoteWins) (localJson.get key) (remoteJson.get key) := by
  obtain ⟨localKeys, localVals, rfl⟩ := exists_of_isObject localObject
  obtain ⟨remoteKeys, remoteVals, rfl⟩ := exists_of_isObject remoteObject
  rw [deepMerge, get_object, get_object, get_object]
  by_cases inLocal : key ∈ localKeys
  · rw [dif_pos (Finset.mem_union_left _ inLocal), dif_pos inLocal, dif_pos inLocal]
    by_cases inRemote : key ∈ remoteKeys
    · rw [dif_pos inRemote, dif_pos inRemote, joinOption_some, mergeUnder]
    · rw [dif_neg inRemote, dif_neg inRemote, joinOption_none_right]
  · rw [dif_neg inLocal, joinOption_none_left]
    by_cases inRemote : key ∈ remoteKeys
    · rw [dif_pos (Finset.mem_union_right _ inRemote), dif_neg inLocal, dif_pos inRemote]
    · rw [dif_neg inRemote, dif_neg fun either => (Finset.mem_union.mp either).elim inLocal inRemote]

/-- An induction over a value treats objects through their lookups. -/
theorem induct_get {motive : Json → Prop}
    (scalar : ∀ json, json.isObject = false → motive json)
    (object : ∀ json, json.isObject → (∀ key value, json.get key = some value → motive value) →
      motive json) (json : Json) : motive json := by
  induction json with
  | null => exact scalar _ rfl
  | bool value => exact scalar _ rfl
  | number value => exact scalar _ rfl
  | string value => exact scalar _ rfl
  | array length items ih => exact scalar _ rfl
  | object keys vals ih =>
      apply object _ rfl
      intro key value found
      by_cases present : key ∈ keys
      · simp only [get_object, present, dif_pos, Option.some.injEq] at found
        exact found ▸ ih ⟨key, present⟩
      · simp [present] at found

/-- A value merges with itself to itself. -/
theorem deepMerge_self (json : Json) (remoteWins : Bool) : json.deepMerge json remoteWins = json := by
  induction json using induct_get with
  | scalar json scalar => rw [deepMerge_scalar (by simp [scalar]), pick_self]
  | object json object ih =>
      apply ext_get (isObject_deepMerge object object _) object
      intro key
      rw [get_deepMerge object object]
      cases found : json.get key with
      | none => rfl
      | some value => rw [joinOption_some, mergeUnder, ih key value found]

end Json
end AiMemory.Crdt
