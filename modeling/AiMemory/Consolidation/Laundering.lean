import AiMemory.Consolidation.Consolidate
import AiMemory.Library.Run
import AiMemory.Storage.Edits
import AiMemory.Visibility.Clause
import Mathlib.Data.Fintype.EquivFin
import Mathlib.Data.List.TakeWhile

/-
This file proves when a run of consolidations carries no trust, no level and no audience beyond its sources.
-/

namespace AiMemory.Consolidation
open AiMemory.Crdt AiMemory.Library AiMemory.Machine AiMemory.Storage AiMemory.Visibility

section Trace

variable {env : ConsolidateEnvironment}

/-- A database, and for each of its identifiers the rows that were consumed to derive it. -/
structure Trace where
  db : Database
  consumed : String → List Memory

def Trace.start (db : Database) : Trace := ⟨db, fun _ => []⟩

def directSources (db : Database) (ids : List String) : List Memory := ids.filterMap db.memories.find

/-- A source brings the sources that it was derived from, as they were when they were consumed. -/
def transitiveSources (trace : Trace) (ids : List String) : List Memory :=
  (directSources trace.db ids).flatMap fun row => row :: trace.consumed row.id

def consolidateStep (trace : Trace) (call : ConsolidateCall env) : Trace :=
  match consolidate call trace.db with
  | (written, .ok id) => ⟨written, Function.update trace.consumed id (transitiveSources trace call.ids)⟩
  | (written, .error _) => ⟨written, trace.consumed⟩

/-- The row that a call leaves behind when it succeeds. -/
def minted (call : ConsolidateCall env) (db : Database) : Option Memory :=
  match consolidate call db with
  | (written, .ok id) => written.memories.find id
  | (_, .error _) => none

def attestLevel (row : Memory) : Option String := (row.metadata.get "attest_level").bind Json.asStr

variable (signed : String → String → Prop)

/-- The result is bounded by its sources, and a refused call writes nothing. -/
structure LaundersNothing (trace : Trace) (call : ConsolidateCall env) : Prop where
  bounded : ∀ result ∈ minted call trace.db, ∀ source ∈ transitiveSources trace call.ids,
    TrustTier.ofMetadata result.metadata ≤ TrustTier.ofMetadata source.metadata
  attested : ∀ result ∈ minted call trace.db,
    attestLevel result = some "agent_attested" ∨ attestLevel result = some "peer_attested" →
      signed call.consolidatorAgentId call.summary
  confined : ∀ result ∈ minted call trace.db, ∀ caller, caller ≠ call.consolidatorAgentId →
    isVisibleToCaller result caller = true → ∀ source ∈ directSources trace.db call.ids,
      isVisibleToCaller source caller = true
  unchanged : ∀ written error, consolidate call trace.db = (written, .error error) →
    written.memories = trace.db.memories ∧ written.memoryLinks = trace.db.memoryLinks

/-- The value of the last source that has the key. -/
def lastMember (sources : List Memory) (key : String) : Option Json :=
  (sources.filterMap fun row => row.metadata.get key).getLast?

def lastText (sources : List Memory) (key : String) : Option String := (lastMember sources key).bind Json.asStr

/-- The ancestor of the caller that a subtree scope asks for. -/
def scopeAncestor (caller : String) : MemoryScope → Option String
  | .team => (namespaceAncestors caller)[1]?
  | .unit => (namespaceAncestors caller)[2]?
  | .org => (namespaceAncestors caller)[3]?
  | _ => none

def Open (row : Memory) : Prop := readScope row = none ∨ readScope row = some .collective

/-- The last scope decides who sees the result, and the last target is its inbox. -/
def Confined (call : ConsolidateCall env) (sources : List Memory) : Prop :=
  match (lastText sources "scope").elim (some .private) MemoryScope.fromStr with
  | none | some .collective => ∀ row ∈ sources, Open row
  | some .private =>
      (lastText sources "target_agent_id").getD "" = call.consolidatorAgentId ∨
        ∀ row ∈ sources, isVisibleToCaller row ((lastText sources "target_agent_id").getD "") = true
  | some scope => ∀ caller, caller ≠ call.consolidatorAgentId →
      (scopeAncestor caller scope).any (fun ancestor => inSubtree ancestor call.namespace) = true →
        ∀ row ∈ sources, isVisibleToCaller row caller = true

/-- The last level is not a verified one, or the consolidator signed the summary. -/
structure Guarded (db : Database) (call : ConsolidateCall env) : Prop where
  unverified : lastText (directSources db call.ids) "attest_level" = some "agent_attested" ∨
      lastText (directSources db call.ids) "attest_level" = some "peer_attested" →
    signed call.consolidatorAgentId call.summary
  confined : Confined call (directSources db call.ids)

/-- The call passes its checks and reaches the disposition of its sources. -/
structure Inserts (db : Database) (call : ConsolidateCall env) : Prop where
  running : gateStorageConn db.toStore = .ok ()
  present : ∀ id ∈ call.ids, db.memories.find id ≠ none
  valid : env.metadataIsValid (candidate call (directSources db call.ids)).metadata = true
  admitted : consultGovernancePreWrite env.toEnvironment (candidate call (directSources db call.ids)) = .ok ()
  constrained : checkConstraints (insertedRow call (directSources db call.ids)) = none
  freeSlot : db.memories.findSlot (call.title, call.namespace) = none
  freshId : db.memories.find call.newId = none

end Trace

section Metadata

theorem isObject_overlay (merged source : Json) : (overlay merged source).isObject = merged.isObject := by
  cases merged <;> cases source <;> rfl

/-- Among two values of a key the later source wins, and the author is never taken over. -/
theorem get_overlay {merged : Json} (object : merged.isObject) (source : Json) {key : String}
    (kept : key ≠ "agent_id") : (overlay merged source).get key = (source.get key).or (merged.get key) := by
  obtain ⟨keys, vals, rfl⟩ := Json.exists_of_isObject object
  cases source with
  | object sourceKeys sourceVals =>
      by_cases inSource : key ∈ sourceKeys <;> simp [overlay, inSource, kept]
  | _ => simp [overlay, Json.get]

theorem lastMember_cons (row : Memory) (rest : List Memory) (key : String) :
    lastMember (row :: rest) key = (lastMember rest key).or (row.metadata.get key) := by
  unfold lastMember
  cases found : row.metadata.get key with
  | none => simp [found]
  | some value =>
      rw [List.filterMap_cons, found, List.getLast?_cons]
      cases (rest.filterMap fun row => row.metadata.get key).getLast? <;> rfl

/-- Among equal keys the last source wins. -/
theorem get_foldl_overlay {merged : Json} (object : merged.isObject) (sources : List Memory) {key : String}
    (kept : key ≠ "agent_id") :
    (sources.foldl (fun merged row => overlay merged row.metadata) merged).get key =
      (lastMember sources key).or (merged.get key) := by
  induction sources generalizing merged with
  | nil => rfl
  | cons row rest ih =>
      have next : (overlay merged row.metadata).isObject := by rw [isObject_overlay, object]
      rw [List.foldl_cons, ih next, get_overlay object row.metadata kept, lastMember_cons, Option.or_assoc]

theorem isObject_mergedMetadata (sources : List Memory) : (mergedMetadata sources).isObject = true := by
  have kept (merged : Json) :
      (sources.foldl (fun merged row => overlay merged row.metadata) merged).isObject = merged.isObject := by
    induction sources generalizing merged with
    | nil => rfl
    | cons row rest ih => rw [List.foldl_cons, ih, isObject_overlay]
  exact kept Json.empty

theorem get_mergedMetadata (sources : List Memory) {key : String} (kept : key ≠ "agent_id") :
    (mergedMetadata sources).get key = lastMember sources key := by
  rw [mergedMetadata, get_foldl_overlay rfl sources kept]
  exact Option.or_none

variable (lineageDag : Bool) (ids : List String) (consolidatorAgentId : String) (sources : List Memory)

/-- The keys that the call stamps. -/
def stampedKeys : List String :=
  ["agent_id", "derived_from", "consolidated_from_agents", "derived_from_cids", "propagated_trust"]

theorem get_insert_ne {json : Json} (object : json.isObject) {key query : String} (value : Json)
    (apart : query ≠ key) : (json.insert key value).get query = json.get query := by
  rw [← Json.put, Json.get_put object, if_neg apart]

theorem get_insert_self {json : Json} (object : json.isObject) (key : String) (value : Json) :
    (json.insert key value).get key = some value := by
  rw [← Json.put, Json.get_put object, if_pos rfl]

/-- Every other key comes from the last source that has it. -/
theorem get_stampedMetadata {key : String} (free : key ∉ stampedKeys) :
    (stampedMetadata lineageDag ids consolidatorAgentId sources).get key = lastMember sources key := by
  have object := isObject_mergedMetadata sources
  simp only [stampedKeys, List.mem_cons, List.not_mem_nil, or_false, not_or] at free
  obtain ⟨agent, derived, authors, cids, trust⟩ := free
  rw [← get_mergedMetadata sources agent, stampedMetadata]
  cases lineageDag <;> split_ifs <;>
    simp [get_insert_ne, object, agent, derived, authors, cids, trust]

theorem agentId_stampedMetadata :
    (stampedMetadata lineageDag ids consolidatorAgentId sources).get "agent_id" =
      some (.string consolidatorAgentId) := by
  have object := isObject_mergedMetadata sources
  rw [stampedMetadata]
  cases lineageDag <;> split_ifs <;> simp [get_insert_ne, get_insert_self, object]

theorem trust_stampedMetadata :
    (stampedMetadata true ids consolidatorAgentId sources).get "propagated_trust" =
      some (.string (TrustTier.minOver (sources.map fun row => TrustTier.ofMetadata row.metadata)).asStr) := by
  have object := isObject_mergedMetadata sources
  rw [stampedMetadata, if_pos rfl]
  apply get_insert_self
  split_ifs <;> simp [object]

end Metadata

section Body

variable {env : ConsolidateEnvironment} {call : ConsolidateCall env} {db written : Database} {id : String}

/-- The sources that are read are the stored rows of the call. -/
theorem readSources_ok {ids : List String} {sources : List Memory} (read : readSources db ids = .ok sources) :
    directSources db ids = sources ∧ ∀ id ∈ ids, db.memories.find id ≠ none := by
  induction ids generalizing sources with
  | nil => exact ⟨Except.ok.inj read, fun _ listed => nomatch listed⟩
  | cons first rest ih =>
      rw [readSources] at read
      cases found : db.memories.find first with
      | none => simp [found] at read
      | some row =>
          simp only [found] at read
          obtain ⟨rows, readRest, rfl⟩ := map_eq_ok.mp read
          obtain ⟨same, present⟩ := ih readRest
          refine ⟨by rw [← same, directSources, directSources, List.filterMap_cons_some found], ?_⟩
          intro id listed
          rcases List.mem_cons.mp listed with rfl | later
          · simp [found]
          · exact present id later

/-- What each disposal of a listed source keeps holds after the disposition. -/
theorem disposeSources_invariant {dispose : Database → String → Except StorageError Database}
    {invariant : Database → Prop} {ids : List String}
    (preserved : ∀ before id after, id ∈ ids → invariant before → dispose before id = .ok after → invariant after)
    (done : disposeSources dispose db ids = (written, .ok ())) (initially : invariant db) : invariant written := by
  induction ids generalizing db with
  | nil =>
      obtain ⟨rfl, _⟩ := Prod.mk.inj done
      exact initially
  | cons first rest ih =>
      rw [disposeSources] at done
      cases disposed : dispose db first with
      | error error =>
          rw [disposed] at done
          cases (Prod.mk.inj done).2
      | ok next =>
          rw [disposed] at done
          exact ih (fun before id after listed => preserved before id after (List.mem_cons_of_mem _ listed)) done
            (preserved db first next List.mem_cons_self initially disposed)

/-- A disposal changes only its source, and keeps the metadata of the source. -/
structure Retires (before after : Database) (id : String) : Prop where
  others : ∀ query, query ≠ id → after.memories.find query = before.memories.find query
  metadata : ∀ row ∈ after.memories.find id, ∃ old ∈ before.memories.find id, row.metadata = old.metadata

/-- A source that is kept is retired under its old metadata. -/
theorem retireSource_retires (ok : retireSource call db id = .ok written) : Retires db written id := by
  obtain ⟨linked, created, done⟩ := bind_eq_ok.mp ok
  have store : linked.toStore = db.toStore := toStore_createLinkSigned created
  have lookups (query : String) : written.memories.find query = (db.memories.find query).map fun row =>
      if query = id then tombstone (env.chrono.toRfc3339 call.now) row else row := by
    obtain rfl := Except.ok.inj done
    rw [← store]
    exact find_rewriteRow linked.toStore id (tombstone _) (fun _ => rfl) (fun _ => rfl) query
  constructor
  · intro query other
    rw [lookups]
    simp [other]
  · intro row found
    rw [lookups] at found
    obtain ⟨old, stored, rfl⟩ := Option.map_eq_some_iff.mp found
    exact ⟨old, stored, by rw [if_pos rfl]; rfl⟩

/-- A source that is dropped leaves the table. -/
theorem dropSource_retires (ok : dropSource db id = .ok written) : Retires db written id := by
  obtain ⟨found, answered, same⟩ := map_eq_ok.mp ok
  have deleted : delete db id = (written, .ok found) := Prod.ext same answered
  obtain ⟨_, _, _, left⟩ := delete_eq_ok deleted
  have lookups (query : String) : written.memories.find query =
      (db.memories.find query).filter fun row => !decide (row.id = id) := by
    rw [left]
    exact KeyedTable.find_retain ..
  constructor
  · intro query other
    rw [lookups]
    cases found : db.memories.find query with
    | none => rfl
    | some row =>
        have same := ((db.memories.find_eq_some_iff _ _).mp found).2
        simp [same, other]
  · intro row found
    rw [lookups, Option.mem_def, Option.filter_eq_some_iff] at found
    exact ⟨row, found.1, rfl⟩

/-- A successful body reads its sources, passes both checks, appends its row and disposes of the sources. -/
theorem consolidateBody_ok (ok : consolidateBody call db = (written, .ok id)) :
    id = call.newId ∧ readSources db call.ids = .ok (directSources db call.ids) ∧
      env.metadataIsValid (candidate call (directSources db call.ids)).metadata = true ∧
      consultGovernancePreWrite env.toEnvironment (candidate call (directSources db call.ids)) = .ok () ∧
      ∃ inserted, plainInsert db.toStore (insertedRow call (directSources db call.ids)) (rawInsertClash call db) =
          .ok (inserted, call.newId) ∧
        disposeSources (if consolidateTombstoneSourcesEnabled call then retireSource call else dropSource)
          { db with toStore := inserted } call.ids = (written, .ok ()) := by
  unfold consolidateBody at ok
  split at ok
  · cases (Prod.mk.inj ok).2
  · rename_i sources read
    obtain ⟨rfl, _⟩ := readSources_ok read
    split at ok
    · cases (Prod.mk.inj ok).2
    · rename_i valid
      split at ok
      · cases (Prod.mk.inj ok).2
      · rename_i admitted
        split at ok
        · cases (Prod.mk.inj ok).2
        · rename_i inserted appendedId appended
          obtain ⟨_, _, _, rfl, _⟩ := plainInsert_written appended
          dsimp only at ok
          split at ok
          · cases (Prod.mk.inj ok).2
          · obtain ⟨same, done⟩ := Prod.mk.inj ok
            obtain ⟨_, disposed, rfl⟩ := map_eq_ok.mp done
            exact ⟨rfl, read, eq_true_of_ne_false valid, admitted, inserted, appended, Prod.ext same disposed⟩

/-- A successful call mints its row and keeps the metadata of every other row that stays. -/
structure Mints (call : ConsolidateCall env) (db written : Database) : Prop where
  result : written.memories.find call.newId = some (insertedRow call (directSources db call.ids))
  others : ∀ id, id ≠ call.newId → ∀ row ∈ written.memories.find id,
    ∃ old ∈ db.memories.find id, row.metadata = old.metadata

/-- A successful call runs its body behind the gate. -/
theorem body_of_consolidate (ok : consolidate call db = (written, .ok id)) :
    gateStorageConn db.toStore = .ok () ∧ consolidateBody call db = (written, .ok id) := by
  unfold consolidate at ok
  split at ok
  · cases (Prod.mk.inj ok).2
  · rename_i running
    split at ok
    · rename_i body
      exact ⟨running, body.trans ok⟩
    · cases (Prod.mk.inj ok).2

/-- A successful call has passed its checks. -/
theorem inserts_of_ok (ok : consolidate call db = (written, .ok id)) : Inserts db call := by
  obtain ⟨running, body⟩ := body_of_consolidate ok
  obtain ⟨_, read, valid, admitted, _, appended, _⟩ := consolidateBody_ok body
  obtain ⟨constrained, freshId, freeSlot, _⟩ := plainInsert_written appended
  exact ⟨running, (readSources_ok read).2, valid, admitted, constrained, freeSlot, freshId⟩

/-- A successful call mints its own row and nothing else. -/
theorem consolidate_ok (ok : consolidate call db = (written, .ok id)) : id = call.newId ∧ Mints call db written := by
  obtain ⟨same, read, _, _, inserted, appended, disposed⟩ := consolidateBody_ok (body_of_consolidate ok).2
  obtain ⟨_, fresh, freeSlot, _, rfl⟩ := plainInsert_written appended
  refine ⟨same, ?_⟩
  have retires (before : Database) (id : String) (after : Database)
      (done : (if consolidateTombstoneSourcesEnabled call then retireSource call else dropSource) before id =
        .ok after) : Retires before after id := by
    split at done
    · exact retireSource_retires done
    · exact dropSource_retires done
  have lookups (query : String) : (db.memories.append _ fresh freeSlot).find query =
      if query = call.newId then some (insertedRow call (directSources db call.ids)) else db.memories.find query :=
    KeyedTable.find_append db.memories _ fresh freeSlot query
  -- The identifier of the new row was free, so it is none of the sources.
  refine @disposeSources_invariant _ _ _ (Mints call db) _ ?_ disposed ⟨?_, ?_⟩
  · intro before id after listed kept done
    have apart : call.newId ≠ id := by
      rintro rfl
      exact (readSources_ok read).2 _ listed fresh
    have retired := retires before id after done
    refine ⟨(retired.others _ apart).trans kept.result, ?_⟩
    intro query other row found
    by_cases isSource : query = id
    · subst isSource
      obtain ⟨middle, stored, sameMetadata⟩ := retired.metadata row found
      obtain ⟨old, first, sameOld⟩ := kept.others query other middle stored
      exact ⟨old, first, sameMetadata.trans sameOld⟩
    · rw [retired.others query isSource] at found
      exact kept.others query other row found
  · exact (lookups _).trans (if_pos rfl)
  · intro query other row found
    have kept := (lookups query).symm.trans found
    rw [if_neg other] at kept
    exact ⟨row, kept, rfl⟩

/-- A result is the inserted row over the sources of its call. -/
theorem eq_of_minted {result : Memory} (left : result ∈ minted call db) :
    result = insertedRow call (directSources db call.ids) := by
  unfold minted at left
  split at left
  · rename_i written id ok
    obtain ⟨rfl, mints⟩ := consolidate_ok ok
    exact Option.some.inj (left.symm.trans mints.result)
  · cases left

/-- A refused call leaves the database as it was. -/
theorem consolidate_error {error : StorageError} (refused : consolidate call db = (written, .error error)) :
    written = db := by
  unfold consolidate at refused
  split at refused
  · exact (Prod.mk.inj refused).1.symm
  · split at refused
    · cases (Prod.mk.inj refused).2
    · exact (Prod.mk.inj refused).1.symm

end Body

section Audience

/-- What a caller sees of a row is decided by the scope that the row is read with. -/
theorem isVisibleToCaller_readScope (mem : Memory) (caller : String) :
    isVisibleToCaller mem caller = match readScope mem with
      | none | some .collective => true
      | some .private => privateVisible mem caller
      | some scope => (scopeAncestor caller scope).any fun ancestor => inSubtree ancestor mem.namespace := by
  have subtree (index : Nat) : scopeSubtreeVisible mem caller index =
      (namespaceAncestors caller)[index]?.any fun ancestor => inSubtree ancestor mem.namespace := by
    unfold scopeSubtreeVisible
    cases (namespaceAncestors caller)[index]? <;> rfl
  unfold isVisibleToCaller readScope
  cases scopeStr mem with
  | none => rfl
  | some text =>
      rw [Option.map_some, Option.elim_some]
      cases MemoryScope.fromStr text with
      | none => rfl
      | some scope =>
          cases scope with
          | «private» => rfl
          | collective => rfl
          | team => exact subtree 1
          | unit => exact subtree 2
          | org => exact subtree 3

/-- A name without a slash has no ancestors. -/
theorem scopeAncestor_flat {caller : String} (flat : '/' ∉ caller.toList) (scope : MemoryScope) :
    scopeAncestor caller scope = none := by
  have noParent : namespaceParent caller = none := by
    have dropped : caller.toList.reverse.dropWhile (fun char => char ≠ '/') = [] := by
      rw [List.dropWhile_eq_nil_iff]
      intro char listed
      simpa using fun same : char = '/' => flat (same ▸ List.mem_reverse.mp listed)
    rw [namespaceParent, beforeLast, dropped]
  have short : (namespaceAncestors caller).length ≤ 1 := by
    unfold namespaceAncestors
    split
    · simp
    · cases caller.length with
      | zero => simp [namespaceAncestorsLoop]
      | succ rounds => simp [namespaceAncestorsLoop, noParent]
  cases scope with
  | «private» => rfl
  | collective => rfl
  | team => exact List.getElem?_eq_none short
  | unit => exact List.getElem?_eq_none (short.trans (by decide))
  | org => exact List.getElem?_eq_none (short.trans (by decide))

/-- There is a caller without a team that has none of the names. -/
theorem exists_stranger (names : List String) : ∃ caller : String, caller ∉ names ∧ '/' ∉ caller.toList := by
  obtain ⟨length, fresh⟩ := Infinite.exists_notMem_finset (names.map String.length).toFinset
  refine ⟨String.ofList (List.replicate length 'a'), ?_, by simp⟩
  intro listed
  apply fresh
  rw [List.mem_toFinset, List.mem_map]
  exact ⟨_, listed, by simp⟩

/-- A row that everyone else sees is open. -/
theorem open_iff (mem : Memory) (owner : String) :
    Open mem ↔ ∀ caller, caller ≠ owner → isVisibleToCaller mem caller = true := by
  constructor
  · intro shared caller _
    rw [isVisibleToCaller_readScope]
    rcases shared with read | read <;> rw [read]
  · intro all
    obtain ⟨caller, unnamed, flat⟩ := exists_stranger [owner, (ownerStr mem).getD "", (targetStr mem).getD ""]
    simp only [List.mem_cons, List.not_mem_nil, or_false, not_or] at unnamed
    have seen := all caller unnamed.1
    rw [isVisibleToCaller_readScope] at seen
    cases read : readScope mem with
    | none => exact .inl read
    | some scope =>
        cases scope with
        | collective => exact .inr read
        | «private» =>
            simp [read, privateVisible, Ne.symm unnamed.2.1, Ne.symm unnamed.2.2] at seen
        | team => simp [read, scopeAncestor_flat flat] at seen
        | unit => simp [read, scopeAncestor_flat flat] at seen
        | org => simp [read, scopeAncestor_flat flat] at seen

end Audience

section Exact

variable {env : ConsolidateEnvironment} {call : ConsolidateCall env} {db : Database} {sources : List Memory}

theorem text_insertedRow {key : String} (free : key ∉ stampedKeys) :
    ((insertedRow call sources).metadata.get key).bind Json.asStr = lastText sources key := by
  have same : (insertedRow call sources).metadata.get key = lastMember sources key :=
    get_stampedMetadata env.lineageDagEnabled call.ids call.consolidatorAgentId sources free
  rw [same, lastText]

/-- The sources of a call stay confined exactly when every other caller of the result sees them. -/
theorem confined_iff : Confined call sources ↔ ∀ caller, caller ≠ call.consolidatorAgentId →
    isVisibleToCaller (insertedRow call sources) caller = true → ∀ row ∈ sources,
      isVisibleToCaller row caller = true := by
  have read : readScope (insertedRow call sources) =
      (lastText sources "scope").elim (some .private) MemoryScope.fromStr := by
    rw [readScope, scopeStr, text_insertedRow (by decide)]
  have owner : ownerStr (insertedRow call sources) = some call.consolidatorAgentId := by
    have stamped : (insertedRow call sources).metadata.get "agent_id" = some (.string call.consolidatorAgentId) :=
      agentId_stampedMetadata env.lineageDagEnabled call.ids call.consolidatorAgentId sources
    rw [ownerStr, stamped]
    rfl
  have target : targetStr (insertedRow call sources) = lastText sources "target_agent_id" := by
    rw [targetStr, text_insertedRow (by decide)]
  have everyone : (∀ row ∈ sources, Open row) ↔ ∀ caller, caller ≠ call.consolidatorAgentId → ∀ row ∈ sources,
      isVisibleToCaller row caller = true := by
    simp only [open_iff _ call.consolidatorAgentId]
    exact ⟨fun all caller other row listed => all row listed caller other,
      fun all row listed caller other => all caller other row listed⟩
  simp only [Confined, isVisibleToCaller_readScope (insertedRow call sources), read]
  cases (lastText sources "scope").elim (some MemoryScope.private) MemoryScope.fromStr with
  | none => simpa using everyone
  | some scope =>
      cases scope with
      | collective => simpa using everyone
      | «private» =>
          simp only [privateVisible, owner, target, Option.getD_some, Bool.or_eq_true, decide_eq_true_eq]
          constructor
          · rintro (self | shared) caller other (same | rfl)
            · exact absurd same.symm other
            · exact absurd self other
            · exact absurd same.symm other
            · exact shared
          · intro all
            by_cases self : (lastText sources "target_agent_id").getD "" = call.consolidatorAgentId
            · exact .inl self
            · exact .inr (all _ self (.inr rfl))
      | team => exact Iff.rfl
      | unit => exact Iff.rfl
      | org => exact Iff.rfl

/-- A result in the inbox of its own consolidator is shown to nobody else. -/
theorem confined_of_inbox (unscoped : lastText sources "scope" = none)
    (inbox : lastText sources "target_agent_id" = some call.consolidatorAgentId) : Confined call sources := by
  simp only [Confined, unscoped, Option.elim_none, inbox]
  exact .inl rfl

/-- Every row is bounded by what was consumed to derive it. -/
def Bounded (trace : Trace) : Prop :=
  ∀ id, ∀ row ∈ trace.db.memories.find id, ∀ source ∈ trace.consumed id,
    TrustTier.ofMetadata row.metadata ≤ TrustTier.ofMetadata source.metadata

/-- The stamped tier bounds the result by every transitive source. -/
theorem bounded_insertedRow (lineage : env.lineageDagEnabled = true) {trace : Trace} (bounded : Bounded trace) :
    ∀ source ∈ transitiveSources trace call.ids,
      TrustTier.ofMetadata (insertedRow call (directSources trace.db call.ids)).metadata ≤
        TrustTier.ofMetadata source.metadata := by
  intro source listed
  obtain ⟨row, direct, below⟩ := List.mem_flatMap.mp listed
  have stamped : (insertedRow call (directSources trace.db call.ids)).metadata.get "propagated_trust" =
      some (.string (TrustTier.minOver ((directSources trace.db call.ids).map fun row =>
        TrustTier.ofMetadata row.metadata)).asStr) := by
    have stamp := trust_stampedMetadata call.ids call.consolidatorAgentId (directSources trace.db call.ids)
    rwa [← lineage] at stamp
  have own : TrustTier.ofMetadata (insertedRow call (directSources trace.db call.ids)).metadata ≤
      TrustTier.ofMetadata row.metadata :=
    (TrustTier.ofMetadata_le_stamp stamped).trans (TrustTier.minOver_le (List.mem_map_of_mem direct))
  rcases List.mem_cons.mp below with rfl | earlier
  · exact own
  · obtain ⟨id, _, stored⟩ := List.mem_filterMap.mp direct
    have same := ((trace.db.memories.find_eq_some_iff _ _).mp stored).2
    exact own.trans (bounded id row stored source (same ▸ earlier))

/-- A call keeps the bounds, whatever it does with its sources. -/
theorem bounded_consolidateStep (lineage : env.lineageDagEnabled = true) {trace : Trace} (bounded : Bounded trace)
    (call : ConsolidateCall env) : Bounded (consolidateStep trace call) := by
  unfold consolidateStep
  split
  · rename_i written newId ok
    obtain ⟨rfl, mints⟩ := consolidate_ok ok
    intro id row found source listed
    by_cases isNew : id = call.newId
    · subst isNew
      simp only [Function.update_self] at listed
      obtain rfl := Option.some.inj (found.symm.trans mints.result)
      exact bounded_insertedRow lineage bounded source listed
    · simp only [Function.update_of_ne isNew] at listed
      obtain ⟨old, stored, same⟩ := mints.others id isNew row found
      rw [same]
      exact bounded id old stored source listed
  · rename_i written error refused
    rw [consolidate_error refused]
    exact bounded

variable (signed : String → String → Prop)

variable {signed}

theorem level_insertedRow (sources : List Memory) :
    attestLevel (insertedRow call sources) = lastText sources "attest_level" := text_insertedRow (by decide)

theorem inserts_of_minted {result : Memory} (left : result ∈ minted call db) : Inserts db call := by
  unfold minted at left
  split at left
  · rename_i written id ok
    exact inserts_of_ok ok
  · cases left

/-- A call that is guarded where it inserts launders nothing. -/
theorem launders_of_guarded (lineage : env.lineageDagEnabled = true) {trace : Trace} (bounded : Bounded trace)
    (guarded : Inserts trace.db call → Guarded signed trace.db call) : LaundersNothing signed trace call := by
  refine ⟨?_, ?_, ?_, ?_⟩
  · intro result left
    rw [eq_of_minted left]
    exact bounded_insertedRow lineage bounded
  · intro result left
    rw [eq_of_minted left, level_insertedRow]
    exact (guarded (inserts_of_minted left)).unverified
  · intro result left
    rw [eq_of_minted left]
    exact confined_iff.mp (guarded (inserts_of_minted left)).confined
  · intro written error refused
    rw [consolidate_error refused]
    exact ⟨rfl, rfl⟩

/-- A call that mints a row and launders nothing is guarded. -/
theorem LaundersNothing.guarded {trace : Trace} (launders : LaundersNothing signed trace call)
    (accepted : (minted call trace.db).isSome) : Guarded signed trace.db call := by
  obtain ⟨result, left⟩ := Option.isSome_iff_exists.mp accepted
  obtain rfl := eq_of_minted left
  constructor
  · rw [← @level_insertedRow env call]
    exact launders.attested _ left
  · exact confined_iff.mpr (launders.confined _ left)

/-- A run launders nothing when every call that inserts is guarded, and only when every call that mints a row is. -/
theorem laundersNothing_run (lineage : env.lineageDagEnabled = true) (db : Database)
    (calls : List (ConsolidateCall env)) :
    (EveryStep consolidateStep (fun trace call => Inserts trace.db call → Guarded signed trace.db call)
        (Trace.start db) calls →
        EveryStep consolidateStep (LaundersNothing signed) (Trace.start db) calls) ∧
      (EveryStep consolidateStep (LaundersNothing signed) (Trace.start db) calls →
        EveryStep consolidateStep
          (fun trace call => (minted call trace.db).isSome = true → Guarded signed trace.db call)
          (Trace.start db) calls) := by
  have kept (trace : Trace) (call : ConsolidateCall env) (bounded : Bounded trace) :
      Bounded (consolidateStep trace call) := bounded_consolidateStep lineage bounded call
  have initially : Bounded (Trace.start db) := fun _ _ _ _ listed => nomatch listed
  constructor
  · intro every
    refine (every.and_invariant (fun trace call _ => kept trace call) initially).mono ?_
    rintro trace call ⟨guarded, bounded⟩
    exact launders_of_guarded lineage bounded guarded
  · intro every
    exact every.mono fun trace call launders accepted => launders.guarded accepted

end Exact

section Samples

/-- A process with the lineage graph on, without a revision log and without a hook. -/
def lineageEnvironment : ConsolidateEnvironment where
  toWriterEnvironment := openWriterEnvironment
  lineageDagEnabled := true
  appendOnlyEnabled := false
  emitConsolidateLeaf _ := none

def sourceRow (id title : String) (metadata : Json) : Memory :=
  { Memory.base id "2026-06-16T10:00:00+00:00" with title := title, metadata := metadata }

/-- A private row of alice with her verified level, a shared row of carol and a private row of bob. -/
def sourceTable : MemoryTable where
  rows := [sourceRow "a" "plan" ((Json.empty.insert "agent_id" (.string "alice")).insert "attest_level"
      (.string "agent_attested")),
    sourceRow "b" "note" ((Json.empty.insert "agent_id" (.string "carol")).insert "scope" (.string "collective")),
    sourceRow "c" "draft" (Json.empty.insert "agent_id" (.string "bob"))]
  uniqueId := by decide
  uniqueSlot := by decide

def sourceDatabase : Database where
  toStore := { emptyStore with memories := sourceTable }
  memoryLinks := []
  archivedMemoryLinks := []
  namespaceMeta := []
  atomOf _ := none
  archivedAtomOf _ := none

def bobCall (ids : List String) : ConsolidateCall lineageEnvironment where
  ids := ids
  title := "summary"
  summary := "all of it"
  «namespace» := "ns"
  tier := .mid
  source := "consolidation"
  consolidatorAgentId := "bob"
  newId := "m"
  now := (0 : Int)
  tombstoneSources := false

/-- Bob's own verified row, a row of his own without a level, and a private row that alice sent to him. -/
def bobTable : MemoryTable where
  rows := [sourceRow "c" "draft" ((Json.empty.insert "agent_id" (.string "bob")).insert "attest_level"
      (.string "agent_attested")),
    sourceRow "d" "memo" (Json.empty.insert "agent_id" (.string "bob")),
    sourceRow "e" "letter" (((Json.empty.insert "agent_id" (.string "alice")).insert "target_agent_id"
      (.string "bob")).insert "attest_level" (.string "unsigned"))]
  uniqueId := by decide
  uniqueSlot := by decide

def bobDatabase : Database := { sourceDatabase with toStore := { emptyStore with memories := bobTable } }

/-- The result of the first call is a source of the last one; in between a source is missing. -/
def bobCalls : List (ConsolidateCall lineageEnvironment) :=
  [bobCall ["c", "d"], { bobCall ["c", "e"] with newId := "n", title := "more" },
    { bobCall ["m", "e"] with newId := "n", title := "digest" }]

/-- Bob signs his summary over two sources, and then consolidates the result with a row that was sent to him. -/
theorem ownRow_launders_nothing :
    EveryStep consolidateStep (LaundersNothing fun agent summary => agent = "bob" ∧ summary = "all of it")
      (Trace.start bobDatabase) bobCalls ∧
      (run consolidateStep (Trace.start bobDatabase) bobCalls).db.memories.rows.map (·.id) = ["n"] := by
  refine ⟨(laundersNothing_run rfl bobDatabase bobCalls).1 ⟨?_, ?_, ?_, trivial⟩, by decide +kernel⟩
  · exact fun _ => ⟨fun _ => ⟨rfl, rfl⟩, .inr (by decide)⟩
  · refine fun inserts => absurd ?_ (inserts.present "c" List.mem_cons_self)
    decide +kernel
  · exact fun _ => ⟨fun _ => ⟨rfl, rfl⟩, confined_of_inbox (by decide +kernel) (by decide +kernel)⟩

/-- The row of bob carries the level that alice earned and is shown to everyone, although nobody but alice could
see her row. -/
theorem aliceRow_laundered :
    ¬ EveryStep consolidateStep (LaundersNothing fun _ _ => False) (Trace.start sourceDatabase)
        [bobCall ["a", "b"]] ∧
      ∃ source ∈ directSources sourceDatabase ["a", "b"], ∃ result ∈ minted (bobCall ["a", "b"]) sourceDatabase,
        attestLevel result = some "agent_attested" ∧ isVisibleToCaller result "dave" = true ∧
          isVisibleToCaller source "dave" = false := by
  have accepted : (minted (bobCall ["a", "b"]) sourceDatabase).isSome = true := by decide +kernel
  constructor
  · rintro ⟨launders, _⟩
    exact (launders.guarded accepted).unverified (.inl (by decide))
  · obtain ⟨result, left⟩ := Option.isSome_iff_exists.mp accepted
    refine ⟨_, List.mem_cons_self, result, left, ?_⟩
    rw [eq_of_minted left]
    exact ⟨by decide +kernel, by decide +kernel, by decide⟩

end Samples
end AiMemory.Consolidation
