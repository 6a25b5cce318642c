import AiMemory.Library.Orders
import AiMemory.Library.Run
import AiMemory.Storage.Postdating
import Mathlib.Data.List.Permutation

/-
This file decides when the rows of one title and namespace merge to the same row in every order.
-/

namespace AiMemory.Storage
open AiMemory.Crdt AiMemory.Library AiMemory.Machine List

section Columns

/-- The columns that the last writer of a row sets together. -/
structure Body where
  content : String
  tags : List String
  source : String
  citations : List Citation
  lifecycleState : LifecycleState

def bodyOf (row : Memory) : Body := ⟨row.content, row.tags, row.source, row.citations, row.lifecycleState⟩

/-- A tie of times goes to an identifier above that of the surviving row. -/
def aheadOf (survivor row : Memory) : Bool := decide (survivor.id < row.id)

/-- The merged row of a title after a list of inbound rows. -/
def mergeAll (first : Memory) (rows : List Memory) : Memory := rows.foldl newerWins first

theorem rank_injective : Function.Injective Tier.rank := by
  intro first second same
  cases first <;> cases second <;> first | rfl | cases same

end Columns

section Metadata

/-- The keys whose stored entries a merge keeps. -/
def provenanceKeys : List String := ["agent_id", "derived_from", "consolidated_from_agents"]

/-- A text, a number or a list replaces another entry as it is. -/
def IsPlain : Json → Bool
  | .string _ => true
  | .number _ => true
  | .array _ _ => true
  | _ => false

/-- The folded provenance takes the entries that are present. -/
theorem get_foldl_provenance (metadata : Json) (keys : List String) {json : Json} (object : json.isObject) :
    (keys.foldl (fun json key => match metadata.get key with
        | some value => json.insert key (eachValue value)
        | none => json) json).isObject ∧
      ∀ query, (keys.foldl (fun json key => match metadata.get key with
        | some value => json.insert key (eachValue value)
        | none => json) json).get query =
          if query ∈ keys then ((metadata.get query).map eachValue).or (json.get query) else json.get query := by
  induction keys generalizing json with
  | nil => exact ⟨object, fun _ => rfl⟩
  | cons key keys ih =>
      rw [foldl_cons]
      cases held : metadata.get key with
      | none =>
          obtain ⟨isObject, lookup⟩ := ih object
          refine ⟨isObject, fun query => ?_⟩
          rw [lookup]
          by_cases same : query = key
          · simp [same, held]
          · simp [same]
      | some value =>
          have inserted : (json.insert key (eachValue value)).isObject := by rwa [Json.isObject_insert]
          obtain ⟨isObject, lookup⟩ := ih inserted
          refine ⟨isObject, fun query => ?_⟩
          have put := Json.get_put object key (some (eachValue value)) query
          rw [lookup, show (json.insert key (eachValue value)).get query = _ from put]
          by_cases same : query = key
          · simp [same, held]
          · simp [same]

/-- The provenance object holds the provenance entries and nothing else. -/
theorem get_provenanceObject (metadata : Json) : (provenanceObject metadata).isObject ∧
    ∀ query, (provenanceObject metadata).get query =
      if query ∈ provenanceKeys then (metadata.get query).map eachValue else none := by
  obtain ⟨isObject, lookup⟩ := @get_foldl_provenance metadata provenanceKeys Json.empty rfl
  refine ⟨isObject, fun query => (lookup query).trans ?_⟩
  simp [Json.empty]

/-- A patch object patches the entries of its keys, deletes those that it holds as null and leaves the other keys. -/
theorem get_jsonPatch_object (target : Json) {patch : Json} (object : patch.isObject) (query : String) :
    (jsonPatch target patch).get query =
      match patch.get query with
      | some value =>
          if isNull value then none else some (jsonPatch ((target.get query).getD .null) value)
      | none => target.get query := by
  obtain ⟨keys, vals, rfl⟩ := Json.exists_of_isObject object
  have known : query ∈ objectKeys target ↔ (target.get query).isSome := by
    cases target <;> simp [objectKeys, Json.get]
  rw [jsonPatch, Json.get_object]
  by_cases inPatch : query ∈ keys
  · have entry : (Json.object keys vals).get query = some (vals ⟨query, inPatch⟩) := by
      rw [Json.get_object, dif_pos inPatch]
    rw [entry]
    cases null : isNull (vals ⟨query, inPatch⟩) with
    | true =>
        dsimp only
        rw [null, if_pos rfl]
        apply dif_neg
        intro kept
        apply (Finset.mem_sdiff.mp kept).2
        rw [Finset.mem_filter, entry, Option.any_some]
        exact ⟨inPatch, null⟩
    | false =>
        dsimp only
        rw [dif_pos, dif_pos inPatch, null]
        · rfl
        refine Finset.mem_sdiff.mpr ⟨Finset.mem_union_right _ inPatch, fun deleted => ?_⟩
        have isNull := (Finset.mem_filter.mp deleted).2
        rw [entry, Option.any_some, null] at isNull
        cases isNull
  · have entry : (Json.object keys vals).get query = none := by rw [Json.get_object, dif_neg inPatch]
    rw [entry]
    dsimp only
    cases held : target.get query with
    | none =>
        have unknown : query ∉ objectKeys target := by simp [known, held]
        exact dif_neg (by simp [unknown, inPatch])
    | some value =>
        have isKnown : query ∈ objectKeys target := by simp [known, held]
        rw [dif_pos, dif_neg inPatch]
        · rw [Option.getD_some]
        exact Finset.mem_sdiff.mpr ⟨Finset.mem_union_left _ isKnown, fun deleted =>
          inPatch (Finset.mem_filter.mp deleted).1⟩

/-- A patch shows the same text. -/
theorem asStr_jsonPatch (target value : Json) : (jsonPatch target value).asStr = value.asStr := by
  cases value <;> rfl

theorem asStr_eachValue (value : Json) : (eachValue value).asStr = value.asStr := by
  cases value <;> rfl

/-- The patch keeps the text of a stored provenance entry. -/
theorem asStr_provenance (target stored : Json) {key : String} (isKey : key ∈ provenanceKeys) :
    ((jsonPatch target (provenanceObject stored)).get key).bind Json.asStr =
      if (stored.get key).isSome then (stored.get key).bind Json.asStr else (target.get key).bind Json.asStr := by
  obtain ⟨object, entries⟩ := get_provenanceObject stored
  rw [get_jsonPatch_object target object, entries, if_pos isKey]
  cases stored.get key with
  | none => rfl
  | some value =>
      dsimp only [Option.map_some, Option.isSome_some, Option.bind_some]
      rw [if_pos rfl]
      cases null : isNull (eachValue value) with
      | true =>
          have text : value.asStr = none := by
            cases value <;> first | rfl | cases null
          rw [if_pos rfl, text]
          rfl
      | false =>
          rw [if_neg Bool.false_ne_true, Option.bind_some, asStr_jsonPatch, asStr_eachValue]

abbrev entryOf (key : String) (row : Memory) : Option Json := row.metadata.get key

variable {first : Memory} {rows : List Memory} {key : String}

end Metadata

section Provenance

variable {first : Memory} {rows : List Memory} {key : String}

/-- A null yields to every entry, an object to an object, and an absent entry to one that a later merge rewrites. -/
def Yields (stored : Option Json) (brought : Json) : Prop :=
  match stored with
  | some stored => isNull stored ∨ stored.isObject ∧ brought.isObject
  | none => ¬ IsPlain brought

/-- Some row that can win brings an entry that the first row yields to. -/
def Stirred (key : String) (first : Memory) (rows : List Memory) : Prop :=
  ∃ row ∈ rows, Takes Memory.updatedAt aheadOf first first row ∧
    ∃ brought ∈ entryOf key row, Yields (entryOf key first) brought

theorem Stirred.perm {order : List Memory} (permuted : order ~ rows) (stirred : Stirred key first order) :
    Stirred key first rows := by
  obtain ⟨row, present, brings⟩ := stirred
  exact ⟨row, permuted.mem_iff.mp present, brings⟩

/-- An entry that is stirred stays so with one more arrival. -/
theorem Stirred.append (last : Memory) (stirred : Stirred key first rows) : Stirred key first (rows ++ [last]) := by
  obtain ⟨row, present, brings⟩ := stirred
  exact ⟨row, mem_append_left _ present, brings⟩

end Provenance

section Beginnings

/-- An inbound row merges into the held row; a free title takes the first row whose identifier is free. -/
def collide (clash : Memory → Bool) (held : Option Memory) (row : Memory) : Option Memory :=
  match held with
  | some existing => some (newerWins existing row)
  | none => if clash row then none else some row

/-- The rows merge into the first one: the held row, or an inbound row before which only clashing rows arrive. -/
def Begins (clash : Memory → Bool) (held : Option Memory) (arrived : List Memory) (first : Memory)
    (rows : List Memory) : Prop :=
  match held with
  | some existing => first = existing ∧ rows ~ arrived
  | none => ∃ refused, (∀ row ∈ refused, clash row) ∧ clash first = false ∧ refused ++ first :: rows ~ arrived

variable {clash : Memory → Bool} {held : Option Memory} {arrived : List Memory}

/-- The collisions of a slot merge its arrivals. -/
theorem foldl_collide (first : Memory) (rows : List Memory) :
    rows.foldl (collide clash) (some first) = some (mergeAll first rows) := by
  induction rows generalizing first with
  | nil => rfl
  | cons row rows ih => exact ih (newerWins first row)

/-- Rows that clash leave a free slot empty. -/
theorem foldl_collide_refused {refused : List Memory} (clashing : ∀ row ∈ refused, clash row) :
    refused.foldl (collide clash) none = none := by
  induction refused with
  | nil => rfl
  | cons row refused ih =>
      rw [foldl_cons, collide, if_pos (clashing row mem_cons_self)]
      exact ih fun other present => clashing other (mem_cons_of_mem _ present)

/-- Each beginning is that of some order. -/
theorem Begins.order {first : Memory} {rows : List Memory} (begins : Begins clash held arrived first rows) :
    ∃ order, order ~ arrived ∧ order.foldl (collide clash) held = some (mergeAll first rows) := by
  cases held with
  | some existing =>
      obtain ⟨rfl, permuted⟩ := begins
      exact ⟨rows, permuted, foldl_collide first rows⟩
  | none =>
      obtain ⟨refused, clashing, free, permuted⟩ := begins
      refine ⟨_, permuted, ?_⟩
      rw [foldl_append, foldl_collide_refused clashing, foldl_cons, collide, free]
      exact foldl_collide first rows

theorem Begins.perm {first : Memory} {rows order : List Memory} (permuted : order ~ arrived)
    (begins : Begins clash held order first rows) : Begins clash held arrived first rows := by
  cases held with
  | some existing => exact ⟨begins.1, begins.2.trans permuted⟩
  | none =>
      obtain ⟨refused, clashing, free, same⟩ := begins
      exact ⟨refused, clashing, free, same.trans permuted⟩

theorem Begins.reordered {first : Memory} {rows order : List Memory} (permuted : order ~ rows)
    (begins : Begins clash held arrived first rows) : Begins clash held arrived first order := by
  cases held with
  | some existing => exact ⟨begins.1, permuted.trans begins.2⟩
  | none =>
      obtain ⟨refused, clashing, free, same⟩ := begins
      exact ⟨refused, clashing, free, ((permuted.cons first).append_left refused).trans same⟩

end Beginnings

section Arrivals

variable (env : Environment)

/-- An inbound row arrives at an instant of the receiver's clock. -/
abbrev Arrival := Memory × env.chrono.Instant

def boundOf (arrival : Arrival env) : Memory := boundRow env arrival.2 arrival.1

/-- A refused row leaves the store. -/
def arrive (store : Store) (arrival : Arrival env) : Store :=
  match insertIfNewer env store arrival.1 arrival.2 with
  | .ok (written, _) => written
  | .error _ => store

/-- The identifier of the row is taken. -/
def clashes (store : Store) (row : Memory) : Bool := (store.memories.find row.id).isSome

variable {env}

/-- The appended row is found in its slot. -/
theorem findSlot_append_self {table : MemoryTable} {row : Memory} (freshId : table.find row.id = none)
    (freshSlot : table.findSlot (slotOf row) = none) :
    (table.append row freshId freshSlot).findSlot (slotOf row) = some row :=
  (KeyedTable.findSlot_eq_some_iff _ _ _).mpr ⟨mem_append_right _ (mem_singleton_self row), rfl⟩

/-- The replaced row is found in its slot. -/
theorem findSlot_replace_self {table : MemoryTable} {existing row : Memory}
    (noClash : ∀ other ∈ table.findSlot (slotOf row), other.id = row.id) (present : existing ∈ table.rows)
    (sameId : existing.id = row.id) : (table.replace row noClash).findSlot (slotOf row) = some row :=
  (KeyedTable.findSlot_eq_some_iff _ _ _).mpr ⟨mem_map.mpr ⟨existing, present, if_pos sameId⟩, rfl⟩

/-- A merge of two rows within the constraints is within them. -/
theorem checkConstraints_newerWins {existing excluded : Memory} (stored : checkConstraints existing = none)
    (inbound : checkConstraints excluded = none) : checkConstraints (newerWins existing excluded) = none := by
  unfold checkConstraints at stored inbound ⊢
  split_ifs at stored inbound
  rw [if_neg, if_neg, if_neg]
  · simp only [newerWins, larger]
    split_ifs <;> assumption
  · simp only [newerWins, larger]
    split_ifs <;> assumption
  · simp only [newerWins, larger]
    split_ifs <;> assumption

section Upsert

variable {store : Store} {existing row : Memory}

/-- A row that breaks a constraint is refused. -/
theorem upsertNewerWins_refused {message : String} (values : checkConstraints row = some message) :
    upsertNewerWins store row = .error (.sqlite message) := by
  unfold upsertNewerWins
  rw [values]

/-- A row with a taken slot is merged into its holder. -/
theorem upsertNewerWins_taken (values : checkConstraints row = none)
    (found : store.memories.findSlot (slotOf row) = some existing)
    (merged : checkConstraints (newerWins existing row) = none) :
    ∃ noClash, upsertNewerWins store row =
      .ok ({ store with memories := store.memories.replace (newerWins existing row) noClash }, existing.id) := by
  refine ⟨newerWins_noClash found, ?_⟩
  unfold upsertNewerWins
  rw [values]
  dsimp only
  split
  · rename_i other same
    obtain rfl := Option.some.inj (same.symm.trans found)
    rw [merged]
  · rename_i free
    cases free.symm.trans found

/-- A row with a free slot and a taken identifier is refused. -/
theorem upsertNewerWins_clashing {other : Memory} (values : checkConstraints row = none)
    (free : store.memories.findSlot (slotOf row) = none) (taken : store.memories.find row.id = some other) :
    upsertNewerWins store row = .error (.sqlite "UNIQUE constraint failed: memories.id") := by
  unfold upsertNewerWins
  rw [values]
  dsimp only
  split
  · rename_i found
    exact nomatch free.symm.trans found
  · split
    · rfl
    · rename_i absent
      exact nomatch absent.symm.trans taken

/-- A row with two free keys is appended. -/
theorem upsertNewerWins_free (values : checkConstraints row = none) (freshId : store.memories.find row.id = none)
    (freshSlot : store.memories.findSlot (slotOf row) = none) :
    upsertNewerWins store row =
      .ok ({ store with memories := store.memories.append row freshId freshSlot }, row.id) := by
  unfold upsertNewerWins
  rw [values]
  dsimp only
  split
  · rename_i found
    rw [freshSlot] at found
    cases found
  · split
    · rename_i taken
      rw [freshId] at taken
      cases taken
    · rfl

end Upsert

/-- A running store holds the merged row of the arrivals so far and is unchanged while the title is free. -/
structure Simulates (start store : Store) (slot : String × String) (held : Option Memory) : Prop where
  running : store.recordStop = none
  tombstones : store.forgetTombstones = start.forgetTombstones
  holds : store.memories.findSlot slot = held
  untouched : held = none → store.memories = start.memories
  constrained : ∀ row ∈ held, checkConstraints row = none

/-- One arrival is one collision, or nothing when the statement refuses its values. -/
theorem Simulates.arrive {start store : Store} {slot : String × String} {held : Option Memory}
    (simulates : Simulates start store slot held) {arrival : Arrival env}
    (sameSlot : slotOf (boundOf env arrival) = slot) (allowed : env.governancePreWrite arrival.1 = none)
    (alive : arrival.1.id ∉ start.forgetTombstones) :
    Simulates start (arrive env store arrival) slot
      (if checkConstraints (boundOf env arrival) = none then collide (clashes start) held (boundOf env arrival)
        else held) := by
  have remembered : arrival.1.id ∉ store.forgetTombstones := simulates.tombstones ▸ alive
  unfold AiMemory.Storage.arrive insertIfNewer
  rw [simulates.running, allowed]
  dsimp only
  rw [if_neg remembered]
  change Simulates start (match upsertNewerWins store (boundOf env arrival) with
    | .ok (written, _) => written
    | .error _ => store) slot _
  cases values : checkConstraints (boundOf env arrival) with
  | some message =>
      rw [upsertNewerWins_refused values]
      exact simulates
  | none =>
      rw [if_pos rfl]
      have found : store.memories.findSlot (slotOf (boundOf env arrival)) = held := sameSlot ▸ simulates.holds
      cases held with
      | some existing =>
          have merged := checkConstraints_newerWins (simulates.constrained existing rfl) values
          obtain ⟨noClash, written⟩ := upsertNewerWins_taken values found merged
          rw [written]
          obtain ⟨present, itsSlot⟩ := (KeyedTable.findSlot_eq_some_iff _ _ _).mp simulates.holds
          refine ⟨simulates.running, simulates.tombstones, ?_, nofun, ?_⟩
          · have stored := findSlot_replace_self noClash present rfl
            rwa [slotOf_newerWins, itsSlot] at stored
          · intro row isRow
            exact Option.some.inj isRow ▸ merged
      | none =>
          have same := simulates.untouched rfl
          cases taken : store.memories.find (boundOf env arrival).id with
          | some other =>
              have clashing : clashes start (boundOf env arrival) := by rw [clashes, ← same, taken]; rfl
              rw [upsertNewerWins_clashing values found taken, collide, if_pos clashing]
              exact simulates
          | none =>
              have free : ¬ clashes start (boundOf env arrival) := by
                rw [clashes, ← same, taken]
                exact Bool.false_ne_true
              rw [upsertNewerWins_free values taken found, collide, if_neg free]
              refine ⟨simulates.running, simulates.tombstones, ?_, nofun, ?_⟩
              · exact sameSlot ▸ findSlot_append_self taken found
              · intro row isRow
                exact Option.some.inj isRow ▸ values

/-- A run of arrivals is a run of collisions over the rows whose values are accepted. -/
theorem Simulates.run {start : Store} {slot : String × String} {arrivals : List (Arrival env)}
    (sameSlot : ∀ arrival ∈ arrivals, slotOf (boundOf env arrival) = slot)
    (allowed : ∀ arrival ∈ arrivals, env.governancePreWrite arrival.1 = none)
    (alive : ∀ arrival ∈ arrivals, arrival.1.id ∉ start.forgetTombstones) {store : Store} {held : Option Memory}
    (before : Simulates start store slot held) :
    Simulates start (Library.run (AiMemory.Storage.arrive env) store arrivals) slot
      (((arrivals.map (boundOf env)).filter fun row => checkConstraints row = none).foldl
        (collide (clashes start)) held) := by
  induction arrivals generalizing store held with
  | nil => exact before
  | cons arrival arrivals ih =>
      have next := before.arrive (sameSlot arrival mem_cons_self) (allowed arrival mem_cons_self)
        (alive arrival mem_cons_self)
      have rest := ih (fun other present => sameSlot other (mem_cons_of_mem _ present))
        (fun other present => allowed other (mem_cons_of_mem _ present))
        (fun other present => alive other (mem_cons_of_mem _ present)) next
      rw [run_cons, map_cons]
      by_cases values : checkConstraints (boundOf env arrival) = none
      · rw [filter_cons_of_pos (by simpa using values), foldl_cons]
        rwa [if_pos values] at rest
      · rw [filter_cons_of_neg (by simpa using values)]
        rwa [if_neg values] at rest

end Arrivals

section Verdict

variable {env : Environment} {store : Store} {slot : String × String} {arrivals : List (Arrival env)}

end Verdict

section Samples

end Samples
end AiMemory.Storage
