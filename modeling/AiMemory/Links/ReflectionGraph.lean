import AiMemory.Links.Gate
import AiMemory.Storage.Columns

/-
This file relates the calls on the links to the graph of the reflections.
-/

namespace AiMemory.Links
open AiMemory.Crdt AiMemory.Federation AiMemory.Library AiMemory.Machine AiMemory.Storage
open Relation

section Edges

/-- The edges of the links whose relation is in a class. -/
def edges (links : List MemoryLink) (among : String → Bool) (source target : String) : Prop :=
  ∃ link ∈ links, among link.relation = true ∧ link.sourceId = source ∧ link.targetId = target

variable {links added : List MemoryLink} {among : String → Bool}

/-- More links add their own edges. -/
theorem edges_append (source target : String) :
    edges (links ++ added) among source target ↔ edges links among source target ∨ edges added among source target := by
  simp only [edges, List.mem_append, or_and_right, exists_or]

/-- More links keep the graph acyclic exactly when none of them leads back to its source. -/
theorem acyclic_append_iff : Acyclic (edges (links ++ added) among) ↔ Acyclic (edges links among) ∧
    ∀ link ∈ added, among link.relation = true →
      ¬ ReflTransGen (edges (links ++ added) among) link.targetId link.sourceId := by
  have both : edges (links ++ added) among =
      fun source target => edges links among source target ∨ edges added among source target := by
    funext source target
    exact propext (edges_append source target)
  rw [both, acyclic_adjoin_iff]
  refine and_congr_right fun _ => ?_
  constructor
  · intro noBack link present named
    exact noBack _ _ ⟨link, present, named, rfl, rfl⟩
  · rintro noBack _ _ ⟨link, present, named, rfl, rfl⟩
    exact noBack link present named

/-- Links of other relations add no edge, and one link adds one. -/
theorem acyclic_append_one {link : MemoryLink} (acyclic : Acyclic (edges links among))
    (unreached : among link.relation = true → ¬ ReflTransGen (edges links among) link.targetId link.sourceId) :
    Acyclic (edges (links ++ [link]) among) := by
  by_cases named : among link.relation = true
  · refine (acyclic_adjoin_one acyclic (unreached named)).mono fun source target step => ?_
    rcases (edges_append source target).mp step with old | ⟨other, present, _, starts, ends⟩
    · exact .inl old
    · rw [List.mem_singleton.mp present] at starts ends
      exact .inr ⟨starts.symm, ends.symm⟩
  · refine acyclic.mono fun source target step => ?_
    rcases (edges_append source target).mp step with old | ⟨other, present, here, _⟩
    · exact old
    · exact absurd (List.mem_singleton.mp present ▸ here) named

/-- Fewer links keep the graph acyclic. -/
theorem acyclic_fewer {kept : List MemoryLink} (acyclic : Acyclic (edges links among))
    (subset : ∀ link ∈ kept, link ∈ links) : Acyclic (edges kept among) := by
  refine acyclic.mono fun source target => ?_
  rintro ⟨link, present, rest⟩
  exact ⟨link, subset link present, rest⟩

end Edges

section Gate

variable {env : LinkEnvironment} {db : Database}

/-- A reflection that the walk lets through cannot be walked back. -/
theorem unreached_of_closesReflectionCycle {sourceId targetId : String}
    (passes : closesReflectionCycle env db sourceId targetId = false) :
    ¬ ReflTransGen (edges db.memoryLinks isReflection) targetId sourceId := by
  unfold closesReflectionCycle at passes
  dsimp only at passes
  split at passes
  rename_i result walked
  refine unreached_wouldCreateReflectionCycleWith (fun node found read next step => ?_) walked passes
  obtain ⟨link, present, named, starts, ends⟩ := step
  rw [← Except.ok.inj read, List.mem_map]
  exact ⟨link, List.mem_filter.mpr ⟨present, by simp [starts, named]⟩, ends⟩

/-- What a link that passed every check is known to meet. -/
theorem validateLinkPreCreate_passes {sourceId targetId relation agentId : String} {skipGovernance fromPeer : Bool}
    (passed : validateLinkPreCreate env db sourceId targetId relation agentId skipGovernance fromPeer = none) :
    (isReflection relation = true → ¬ ReflTransGen (edges db.memoryLinks isReflection) targetId sourceId) ∧
      (fromPeer = false → env.lineageDagEnabled = true → isLineage relation = true →
        lineageEdgeIsForward env.chrono (readCreatedAt db) sourceId targetId = false) := by
  unfold validateLinkPreCreate at passed
  split_ifs at passed with older cyclic
  all_goals
    refine ⟨fun reflection => ?_, fun here flag lineage => ?_⟩
    · have passes : closesReflectionCycle env db sourceId targetId = false := by simpa [reflection] using cyclic
      exact unreached_of_closesReflectionCycle passes
    · simpa [here, flag, lineage] using older

theorem MemoryLink.key_eq_iff (first second : MemoryLink) : first.key = second.key ↔
    first.sourceId = second.sourceId ∧ first.targetId = second.targetId ∧ first.relation = second.relation := by
  simp [MemoryLink.key]

/-- A created link leaves everything but the links, and a new link has passed the checks. -/
structure Joined (env : LinkEnvironment) (db joined : Database) (fromPeer : Bool) : Prop where
  store : joined.toStore = db.toStore
  snapshots : joined.archivedMemoryLinks = db.archivedMemoryLinks
  links : joined.memoryLinks = db.memoryLinks ∨ ∃ link : MemoryLink, joined.memoryLinks = db.memoryLinks ++ [link] ∧
    (db.memories.find link.sourceId).isSome ∧ (db.memories.find link.targetId).isSome ∧
    ∃ agentId skipGovernance, validateLinkPreCreate env db link.sourceId link.targetId link.relation agentId
      skipGovernance fromPeer = none

/-- A local link that is created joins the database. -/
theorem joined_createLinkSigned {joined : Database} {sourceId targetId relation agentId : String}
    {now : env.chrono.Instant}
    (ok : createLinkSigned (localGate env db agentId) db sourceId targetId relation now = .ok joined) :
    Joined env db joined false := by
  obtain ⟨⟨link, key, passed⟩, source, target, rfl | ⟨_, other, otherKey, rfl⟩⟩ := linked_createLinkSigned ok
  · exact ⟨rfl, rfl, .inl rfl⟩
  · obtain ⟨sameSource, sameTarget, sameRelation⟩ := (MemoryLink.key_eq_iff other link).mp (otherKey.trans key.symm)
    obtain ⟨isSource, isTarget, _⟩ : other.sourceId = sourceId ∧ other.targetId = targetId ∧
      other.relation = relation := by simpa [MemoryLink.key] using otherKey
    refine ⟨rfl, rfl, .inr ⟨other, rfl, isSource ▸ source, isTarget ▸ target, agentId, false, ?_⟩⟩
    rw [sameSource, sameTarget, sameRelation]
    exact passed

/-- An inbound link that is created joins the database. -/
theorem joined_createLinkInbound {joined : Database} {link : MemoryLink} {level stamp : String}
    (ok : createLinkInbound (inboundGate env) db link level stamp = .ok joined) : Joined env db joined true := by
  unfold createLinkInbound at ok
  split at ok
  · contradiction
  · rename_i passed
    split_ifs at ok with noSource noTarget
    all_goals
      obtain rfl := Except.ok.inj ok
      have source := Option.isSome_iff_ne_none.mpr noSource
      have target := Option.isSome_iff_ne_none.mpr noTarget
    · exact ⟨rfl, rfl, .inl rfl⟩
    · exact ⟨rfl, rfl, .inr ⟨_, rfl, source, target, _, _, passed⟩⟩
    · exact ⟨rfl, rfl, .inl rfl⟩
    · exact ⟨rfl, rfl, .inr ⟨_, rfl, source, target, _, _, passed⟩⟩

/-- A reflection that joins an acyclic graph leaves it acyclic. -/
theorem Joined.acyclic {joined : Database} {fromPeer : Bool} (done : Joined env db joined fromPeer)
    (acyclic : Acyclic (edges db.memoryLinks isReflection)) : Acyclic (edges joined.memoryLinks isReflection) := by
  rcases done.links with same | ⟨link, appended, _, _, _, _, passed⟩
  · rw [same]
    exact acyclic
  · rw [appended]
    exact acyclic_append_one acyclic (validateLinkPreCreate_passes passed).1

end Gate

section Restore

variable (env : WriterEnvironment) (db : Database) (id : String) (now : env.chrono.Instant)

/-- A restore brings the row back: the archive holds it, both of its keys are free, the hook and the constraints admit
it, and an atom finds its parent. -/
structure Returns (row : Memory) : Prop where
  archived : (db.archivedMemories.find? fun entry => entry.row.id = id).map (·.row) = some row
  absent : db.memories.find id = none
  admitted : env.governancePreWrite (restoreCandidate env row) = none
  checked : checkConstraints (restoredRow env row now) = none
  free : db.memories.findSlot (slotOf row) = none
  parent : atomReturns db id = true

/-- The other end of a snapshot must be live, and its key free. -/
def returnedLinks : List MemoryLink :=
  (db.archivedMemoryLinks.map (·.link)).filter fun link =>
    link.touches id ∧ (link.sourceId = id ∨ (db.memories.find link.sourceId).isSome) ∧
      (link.targetId = id ∨ (db.memories.find link.targetId).isSome) ∧
      ∀ other ∈ db.memoryLinks, other.key ≠ link.key

variable {env db id now}

/-- A row that can return is restored. -/
theorem restoreArchived_of_returns {row : Memory} (returns : Returns env db id now row) :
    ∃ restored, restoreArchived env db id now = .ok (restored, true) := by
  obtain ⟨entry, found, rfl⟩ := Option.map_eq_some_iff.mp returns.archived
  have entryId : entry.row.id = id := by simpa using List.find?_some found
  have inserts (clash : StorageError) : ∃ inserted, plainInsert db.toStore (restoredRow env entry.row now) clash =
      .ok inserted := by
    unfold plainInsert
    rw [returns.checked]
    dsimp only
    split
    · rename_i other taken
      exact absurd (returns.free.symm.trans taken) (by simp)
    · split
      · rename_i other live
        rw [show (restoredRow env entry.row now).id = id from entryId, returns.absent] at live
        contradiction
      · exact ⟨_, rfl⟩
  unfold restoreArchived
  rw [found]
  dsimp only
  rw [if_neg (not_not.mpr returns.absent), consultGovernancePreWrite, returns.admitted]
  obtain ⟨inserted, ok⟩ := inserts (.write (.sqlite "UNIQUE constraint failed: memories.title, memories.namespace"))
  simp only [ok, bind, Except.bind, returns.parent, if_true]
  exact ⟨_, rfl⟩

/-- A restored row could return. -/
theorem returns_of_restoreArchived {restored : Database}
    (ok : restoreArchived env db id now = .ok (restored, true)) :
    ∃ row, Returns env db id now row ∧ Restored env db restored id row now ∧
      ∀ entry ∈ restored.archivedMemories, entry ∈ db.archivedMemories := by
  rcases restoreArchived_eq_ok ok with
    ⟨absent, _⟩ | ⟨entry, inserted, _, _, found, _, _, admitted, insertedOk, parent, restoredAs⟩
  · contradiction
  · obtain ⟨_, _, free, _, rfl⟩ := plainInsert_written insertedOk
    rcases restoreArchived_ok ok with ⟨absent, _⟩ | ⟨other, _, otherFound, moved⟩
    · contradiction
    · obtain rfl := Option.some.inj (found.symm.trans otherFound)
      refine ⟨entry.row, ⟨by rw [found]; rfl, moved.absent, ?_, moved.checked, free, parent⟩, moved, ?_⟩
      · unfold consultGovernancePreWrite at admitted
        split at admitted
        · contradiction
        · assumption
      · rw [restoredAs]
        exact fun entry kept => (List.mem_filter.mp kept).1

/-- A restoration adds the links that return. -/
theorem mem_memoryLinks_restored {row : Memory} {restored : Database} (moved : Restored env db restored id row now)
    (link : MemoryLink) : link ∈ restored.memoryLinks ↔ link ∈ db.memoryLinks ++ returnedLinks db id := by
  have live (query : String) : (restored.memories.find query).isSome ↔
      query = id ∨ (db.memories.find query).isSome := by
    rw [moved.find]
    by_cases same : query = id <;> simp [same]
  rw [moved.links, List.mem_append, live, live, returnedLinks, List.mem_filter, List.mem_map]
  refine or_congr_right (and_congr_right fun _ => ?_)
  simp only [Bool.decide_and, Bool.and_eq_true, decide_eq_true_eq]

/-- The edges after a restoration are those of the links that stay and return. -/
theorem edges_restored {row : Memory} {restored : Database} (moved : Restored env db restored id row now)
    (among : String → Bool) :
    edges restored.memoryLinks among = edges (db.memoryLinks ++ returnedLinks db id) among := by
  funext source target
  simp only [edges, mem_memoryLinks_restored moved]

end Restore

section Reflections

variable {env : LinkEnvironment} {db : Database}

/-- No reflection that a restore brings back can be walked back over the live and the returned reflections. -/
def RestoresNoCycle (env : LinkEnvironment) (db : Database) : LinkCall env → Prop
  | .restore id now => ∀ row, Returns env.toWriterEnvironment db id now row →
      ∀ link ∈ returnedLinks db id, isReflection link.relation = true →
        ¬ ReflTransGen (edges (db.memoryLinks ++ returnedLinks db id) isReflection) link.targetId link.sourceId
  | _ => True

/-- Every call but the restore keeps the reflections acyclic, and the restore does so exactly under its condition. -/
theorem restoresNoCycle_iff (acyclic : Acyclic (edges db.memoryLinks isReflection)) (call : LinkCall env) :
    RestoresNoCycle env db call ↔ Acyclic (edges (linkStep env db call).memoryLinks isReflection) := by
  cases call with
  | insert row now =>
      refine iff_of_true trivial ?_
      simp only [linkStep]
      cases insert env.toWriterEnvironment db.toStore row now <;> exact acyclic
  | delete id =>
      refine iff_of_true trivial ?_
      simp only [linkStep]
      cases outcome : delete db id with
      | mk left answer =>
          cases answer with
          | error _ =>
              obtain ⟨_, rfl⟩ := delete_eq_error outcome
              exact acyclic
          | ok found =>
              obtain ⟨_, _, _, rfl⟩ := delete_eq_ok outcome
              exact acyclic_fewer acyclic fun link kept => (List.mem_filter.mp kept).1
  | createLinkSigned sourceId targetId relation agentId now =>
      refine iff_of_true trivial ?_
      simp only [linkStep]
      cases ok : createLinkSigned (localGate env db agentId) db sourceId targetId relation now with
      | error _ => exact acyclic
      | ok joined => exact (joined_createLinkSigned ok).acyclic acyclic
  | createLinkInbound link attestLevel now =>
      refine iff_of_true trivial ?_
      simp only [linkStep]
      cases ok : createLinkInbound (inboundGate env) db link attestLevel (env.chrono.toRfc3339 now) with
      | error _ => exact acyclic
      | ok joined => exact (joined_createLinkInbound ok).acyclic acyclic
  | archive id reason now =>
      refine iff_of_true trivial ?_
      simp only [linkStep]
      cases ok : archiveMemory env.chrono db id reason now with
      | error _ => exact acyclic
      | ok result =>
          rcases archiveMemoryNoTx_eq_ok ok with ⟨_, same, _⟩ | ⟨row, _, found, _, _⟩
          · change Acyclic (edges result.1.memoryLinks isReflection)
            rw [same]
            exact acyclic
          · exact acyclic_fewer acyclic fun link kept => ((archived_archiveMemoryNoTx found ok).links link |>.mp kept).1
  | restore id now =>
      simp only [linkStep]
      cases ok : restoreArchived env.toWriterEnvironment db id now with
      | error _ =>
          refine iff_of_true (fun row returns => ?_) acyclic
          obtain ⟨restored, done⟩ := restoreArchived_of_returns returns
          cases ok.symm.trans done
      | ok result =>
          obtain ⟨restored, moved⟩ := result
          rcases restoreArchived_ok ok with ⟨rfl, rfl, absent⟩ | ⟨_, rfl, _⟩
          · refine iff_of_true (fun row returns => ?_) acyclic
            have archived := returns.archived
            rw [absent] at archived
            contradiction
          · obtain ⟨row, returns, moved, _⟩ := returns_of_restoreArchived ok
            change _ ↔ Acyclic (edges restored.memoryLinks isReflection)
            rw [edges_restored moved, acyclic_append_iff]
            exact ⟨fun holds => ⟨acyclic, holds row returns⟩, fun both _ _ => both.2⟩

end Reflections

end AiMemory.Links
