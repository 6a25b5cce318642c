import AiMemory.Links.ReflectionGraph

/-
This file follows the graphs of the reflections and of the lineage over every history of a database.
-/

namespace AiMemory.Links
open AiMemory.Crdt AiMemory.Federation AiMemory.Library AiMemory.Machine AiMemory.Storage
open Relation

section Conditions

variable (env : LinkEnvironment) (db : Database)

/-- A row of the live table or of the archive was created at the time. -/
def Known (id createdAt : String) : Prop :=
  readCreatedAt db id = some createdAt ∨
    ∃ entry ∈ db.archivedMemories, entry.row.id = id ∧ entry.row.createdAt = createdAt

/-- Every write is local, and every new memory is created after the known ones. -/
def LocalWrites : LinkCall env → Prop
  | .insert row now => db.memories.findSlot (slotOf (localRow env.toWriterEnvironment row now)) = none →
      ∃ created, env.chrono.parseFromRfc3339 row.createdAt = some created ∧
        ∀ id createdAt earlier, Known db id createdAt → env.chrono.parseFromRfc3339 createdAt = some earlier →
          env.chrono.later created earlier = true
  | .createLinkInbound _ _ _ => False
  | _ => True

/-- No memory is linked to itself as its own derivation. -/
def NoSelfDerivation : LinkCall env → Prop
  | .createLinkSigned sourceId targetId relation _ _ =>
      isLineage relation = true → isReflection relation = false → sourceId ≠ targetId
  | _ => True

/-- No lineage link that a restore brings back points from the older memory to the newer one. -/
def RestoresNoForward : LinkCall env → Prop
  | .restore id now => ∀ row, Returns env.toWriterEnvironment db id now row →
      ∀ link ∈ returnedLinks db id, isLineage link.relation = true →
        lineageEdgeIsForward env.chrono (fun query => if query = id then some row.createdAt else readCreatedAt db query)
          link.sourceId link.targetId = false
  | _ => True

end Conditions

section Lineage

variable {env : LinkEnvironment} {db next : Database}

/-- The source was created after the target. -/
def Descends (chrono : Chrono) (readCreatedAt : String → Option String) (sourceId targetId : String) : Prop :=
  ∃ source target, (readCreatedAt sourceId).bind chrono.parseFromRfc3339 = some source ∧
    (readCreatedAt targetId).bind chrono.parseFromRfc3339 = some target ∧ chrono.later source target = true

/-- The known times can be told apart, the live lineage descends, and no archived lineage link is a loop. -/
structure Dated (env : LinkEnvironment) (db : Database) : Prop where
  parses : ∀ id createdAt, Known db id createdAt → (env.chrono.parseFromRfc3339 createdAt).isSome
  ordered : ∀ first firstAt second secondAt, Known db first firstAt → Known db second secondAt → first ≠ second →
    ∀ one other, env.chrono.parseFromRfc3339 firstAt = some one → env.chrono.parseFromRfc3339 secondAt = some other →
      env.chrono.later one other = true ∨ env.chrono.later other one = true
  links : ∀ link ∈ db.memoryLinks, isLineage link.relation = true →
    Descends env.chrono (readCreatedAt db) link.sourceId link.targetId
  snapshots : ∀ entry ∈ db.archivedMemoryLinks, isLineage entry.link.relation = true →
    entry.link.sourceId ≠ entry.link.targetId

/-- Two known ends descend where the link is no loop and does not point forward. -/
theorem Dated.descends (dated : Dated env db) {readCreatedAt : String → Option String}
    {source target sourceAt targetAt : String}
    (sourceRead : readCreatedAt source = some sourceAt) (targetRead : readCreatedAt target = some targetAt)
    (sourceKnown : Known db source sourceAt) (targetKnown : Known db target targetAt) (apart : source ≠ target)
    (backward : lineageEdgeIsForward env.chrono readCreatedAt source target = false) :
    Descends env.chrono readCreatedAt source target := by
  obtain ⟨one, sourceParsed⟩ := Option.isSome_iff_exists.mp (dated.parses source sourceAt sourceKnown)
  obtain ⟨other, targetParsed⟩ := Option.isSome_iff_exists.mp (dated.parses target targetAt targetKnown)
  refine ⟨one, other, by rw [sourceRead]; exact sourceParsed, by rw [targetRead]; exact targetParsed, ?_⟩
  rcases dated.ordered source sourceAt target targetAt sourceKnown targetKnown apart one other sourceParsed
    targetParsed with after | before
  · exact after
  · simp [lineageEdgeIsForward, sourceRead, targetRead, sourceParsed, targetParsed, before] at backward

/-- A link that descends in time joins two memories. -/
theorem Descends.apart (irreflexive : ∀ instant, env.chrono.later instant instant = false)
    {readCreatedAt : String → Option String} {source target : String}
    (descends : Descends env.chrono readCreatedAt source target) : source ≠ target := by
  rintro rfl
  obtain ⟨one, other, first, second, after⟩ := descends
  rw [Option.some.inj (first.symm.trans second), irreflexive] at after
  contradiction

/-- Links that all descend in time close no cycle. -/
theorem Dated.acyclic (dated : Dated env db) (irreflexive : ∀ instant, env.chrono.later instant instant = false)
    (transitive : ∀ first second third, env.chrono.later first second = true →
      env.chrono.later second third = true → env.chrono.later first third = true) :
    Acyclic (edges db.memoryLinks isLineage) := by
  refine @acyclic_of_descends String _ (Descends env.chrono (readCreatedAt db)) (fun node descends => ?_)
    (fun first second third upper lower => ?_) fun source target step => ?_
  · exact descends.apart irreflexive rfl
  · obtain ⟨one, middle, firstRead, secondRead, upper⟩ := upper
    obtain ⟨same, other, sameRead, thirdRead, lower⟩ := lower
    rw [Option.some.inj (sameRead.symm.trans secondRead)] at lower
    exact ⟨one, other, firstRead, thirdRead, transitive one middle other upper lower⟩
  · obtain ⟨link, present, lineage, rfl, rfl⟩ := step
    exact dated.links link present lineage

/-- A step that invents no time and no link, and leaves the ends of the links that stay, keeps the dates. -/
theorem Dated.kept (dated : Dated env db) (known : ∀ id createdAt, Known next id createdAt → Known db id createdAt)
    (links : ∀ link ∈ next.memoryLinks, link ∈ db.memoryLinks ∧
      readCreatedAt next link.sourceId = readCreatedAt db link.sourceId ∧
      readCreatedAt next link.targetId = readCreatedAt db link.targetId)
    (snapshots : ∀ entry ∈ next.archivedMemoryLinks, entry ∈ db.archivedMemoryLinks ∨ entry.link ∈ db.memoryLinks)
    (irreflexive : ∀ instant, env.chrono.later instant instant = false) : Dated env next where
  parses id createdAt here := dated.parses id createdAt (known id createdAt here)
  ordered first firstAt second secondAt one other :=
    dated.ordered first firstAt second secondAt (known _ _ one) (known _ _ other)
  links link present lineage := by
    obtain ⟨old, source, target⟩ := links link present
    unfold Descends
    rw [source, target]
    exact dated.links link old lineage
  snapshots entry present lineage := by
    rcases snapshots entry present with old | live
    · exact dated.snapshots entry old lineage
    · exact (dated.links entry.link live lineage).apart irreflexive

end Lineage
section Steps

variable {env : LinkEnvironment} {db : Database}

/-- The ends of a dated link are stored. -/
theorem Dated.live (dated : Dated env db) {link : MemoryLink} (present : link ∈ db.memoryLinks)
    (lineage : isLineage link.relation = true) :
    (db.memories.find link.sourceId).isSome ∧ (db.memories.find link.targetId).isSome := by
  obtain ⟨_, _, source, target, _⟩ := dated.links link present lineage
  have reads (query : String) (instant : env.chrono.Instant)
      (read : (readCreatedAt db query).bind env.chrono.parseFromRfc3339 = some instant) :
      (db.memories.find query).isSome := by
    obtain ⟨_, here, _⟩ := Option.bind_eq_some_iff.mp read
    obtain ⟨row, found, _⟩ := Option.map_eq_some_iff.mp here
    rw [found]
    rfl
  exact ⟨reads _ _ source, reads _ _ target⟩

/-- A stored memory has a known time. -/
theorem known_of_find {id : String} {row : Memory} (found : db.memories.find id = some row) :
    Known db id row.createdAt := by
  left
  rw [readCreatedAt, found]
  rfl

/-- A merge keeps the time of the stored row. -/
theorem dated_replace {row existing : Memory} (dated : Dated env db)
    (stored : db.memories.find row.id = some existing)
    (noClash : ∀ other ∈ db.memories.findSlot (slotOf row), other.id = row.id)
    (same : row.createdAt = existing.createdAt)
    (irreflexive : ∀ instant, env.chrono.later instant instant = false) :
    Dated env { db with memories := db.memories.replace row noClash } := by
  have reads (query : String) :
      readCreatedAt { db with memories := db.memories.replace row noClash } query = readCreatedAt db query := by
    unfold readCreatedAt
    dsimp only
    rw [KeyedTable.find_replace_stored stored noClash]
    split_ifs with here
    · rw [here, stored, Option.map_some, Option.map_some, same]
    · rfl
  refine dated.kept (fun query createdAt => ?_) (fun link present => ⟨present, reads _, reads _⟩)
    (fun _ present => .inl present) irreflexive
  unfold Known
  rw [reads]
  exact fun known => known

/-- A new row that is later than every known time has a time of its own. -/
theorem dated_append {row : Memory} (dated : Dated env db) (fresh : db.memories.find row.id = none)
    (free : db.memories.findSlot (slotOf row) = none) {created : env.chrono.Instant}
    (parsed : env.chrono.parseFromRfc3339 row.createdAt = some created)
    (after : ∀ id createdAt instant, Known db id createdAt → env.chrono.parseFromRfc3339 createdAt = some instant →
      env.chrono.later created instant = true) :
    Dated env { db with memories := db.memories.append row fresh free } := by
  have reads (query : String) : readCreatedAt { db with memories := db.memories.append row fresh free } query =
      if query = row.id then some row.createdAt else readCreatedAt db query := by
    unfold readCreatedAt
    dsimp only
    rw [KeyedTable.find_append]
    split_ifs <;> rfl
  have known {query createdAt : String}
      (here : Known { db with memories := db.memories.append row fresh free } query createdAt) :
      (query = row.id ∧ row.createdAt = createdAt) ∨ Known db query createdAt := by
    rcases here with live | archived
    · rw [reads] at live
      split_ifs at live with new
      · exact .inl ⟨new, Option.some.inj live⟩
      · exact .inr (.inl live)
    · exact .inr (.inr archived)
  refine ⟨fun query createdAt here => ?_, fun first firstAt second secondAt one other apart => ?_,
    fun link present lineage => ?_, dated.snapshots⟩
  · rcases known here with ⟨_, rfl⟩ | old
    · rw [parsed]
      rfl
    · exact dated.parses query createdAt old
  · intro firstInstant secondInstant firstParsed secondParsed
    rcases known one with ⟨rfl, rfl⟩ | firstOld
    · rcases known other with ⟨rfl, _⟩ | secondOld
      · exact absurd rfl apart
      · rw [← Option.some.inj (parsed.symm.trans firstParsed)]
        exact .inl (after second secondAt secondInstant secondOld secondParsed)
    · rcases known other with ⟨rfl, rfl⟩ | secondOld
      · rw [← Option.some.inj (parsed.symm.trans secondParsed)]
        exact .inr (after first firstAt firstInstant firstOld firstParsed)
      · exact dated.ordered first firstAt second secondAt firstOld secondOld apart firstInstant secondInstant
          firstParsed secondParsed
  · have live := dated.live present lineage
    have stays (query : String) (there : (db.memories.find query).isSome) : query ≠ row.id := by
      rintro rfl
      rw [fresh] at there
      contradiction
    unfold Descends
    rw [reads, reads, if_neg (stays _ live.1), if_neg (stays _ live.2)]
    exact dated.links link present lineage

/-- An insertion keeps the links dated. -/
theorem dated_insert {row : Memory} {now : env.chrono.Instant} {written : Store} {id : String}
    (dated : Dated env db) (allowed : LocalWrites env db (.insert row now))
    (irreflexive : ∀ instant, env.chrono.later instant instant = false)
    (ok : insert env.toWriterEnvironment db.toStore row now = .ok (written, id)) :
    Dated env { db with toStore := written } := by
  obtain ⟨_, _, ungated⟩ := bind_eq_ok.mp ok
  obtain ⟨_, _, upserted⟩ := bind_eq_ok.mp ungated
  obtain ⟨_, ⟨existing, noClash, taken, _, _, rfl⟩ | ⟨fresh, free, _, rfl⟩⟩ := upsertStoreMerge_written upserted
  · have stored : db.memories.find (storeMerge existing (localRow env.toWriterEnvironment row now)).id =
        some existing := find_of_findSlot taken
    exact dated_replace dated stored noClash rfl irreflexive
  · obtain ⟨created, parsed, after⟩ := allowed free
    exact dated_append dated fresh free parsed after

/-- A deletion leaves the rows that it does not name. -/
theorem find_deleteMemories_of_notMem {doomed : Memory → Bool} {query : String}
    (kept : query ∉ (db.memories.rows.filter doomed).map (·.id)) :
    (deleteMemories db doomed).memories.find query = db.memories.find query := by
  change (db.memories.retain _).find query = _
  rw [KeyedTable.find_retain]
  cases found : db.memories.find query with
  | none => rfl
  | some row =>
      obtain ⟨present, rowId⟩ := (db.memories.find_eq_some_iff _ _).mp found
      rw [Option.filter_some]
      have spared : doomed row = false := by
        by_contra gone
        exact kept (List.mem_map.mpr ⟨row, List.mem_filter.mpr ⟨present, by simpa using gone⟩, rowId⟩)
      simp [spared]

/-- A row that is known after a deletion was known before. -/
theorem known_deleteMemories {doomed : Memory → Bool} {id createdAt : String}
    (here : readCreatedAt (deleteMemories db doomed) id = some createdAt) : readCreatedAt db id = some createdAt := by
  obtain ⟨row, found, rfl⟩ := Option.map_eq_some_iff.mp here
  change (db.memories.retain _).find id = _ at found
  rw [KeyedTable.find_retain] at found
  rw [readCreatedAt, (Option.filter_eq_some_iff.mp found).1]
  rfl

/-- A deletion takes times and links away. -/
theorem dated_deleteMemories (doomed : Memory → Bool) (dated : Dated env db)
    (irreflexive : ∀ instant, env.chrono.later instant instant = false) :
    Dated env (deleteMemories db doomed) := by
  refine dated.kept (fun id createdAt here => here.imp_left known_deleteMemories) (fun link present => ?_)
    (fun _ present => .inl present) irreflexive
  obtain ⟨old, kept⟩ := List.mem_filter.mp present
  rw [decide_eq_true_eq] at kept
  unfold readCreatedAt
  rw [find_deleteMemories_of_notMem kept.1, find_deleteMemories_of_notMem kept.2]
  exact ⟨old, rfl, rfl⟩

/-- An archival keeps the links dated. -/
theorem dated_archive {archived : Database} {id stamp : String} {reason : Option String} {moved : Bool}
    (dated : Dated env db) (irreflexive : ∀ instant, env.chrono.later instant instant = false)
    (ok : archiveMemoryNoTx db id reason stamp = .ok (archived, moved)) : Dated env archived := by
  rcases archiveMemoryNoTx_eq_ok ok with ⟨_, rfl, _⟩ | ⟨row, _, found, _, rfl⟩
  · exact dated
  · refine dated_deleteMemories _ ?_ irreflexive
    refine dated.kept (fun query createdAt here => ?_) (fun link present => ⟨present, rfl, rfl⟩)
      (fun entry present => ?_) irreflexive
    · rcases here with live | ⟨entry, present, isRow, rfl⟩
      · exact .inl live
      · rcases List.mem_append.mp present with old | new
        · exact .inr ⟨entry, (List.mem_filter.mp old).1, isRow, rfl⟩
        · rw [List.mem_singleton.mp new] at isRow ⊢
          obtain rfl : id = query := ((db.memories.find_eq_some_iff _ _).mp found).2.symm.trans isRow
          exact known_of_find found
    · exact (mem_archiveLinks present).imp_right fun live => (List.mem_filter.mp live).1

/-- A local link passes the comparison of its ends, and it is no loop. -/
theorem dated_joined {joined : Database} (dated : Dated env db) (flag : env.lineageDagEnabled = true)
    (done : Joined env db joined false)
    (apart : ∀ link ∈ joined.memoryLinks, link ∉ db.memoryLinks → isLineage link.relation = true →
      isReflection link.relation = false → link.sourceId ≠ link.targetId) : Dated env joined := by
  have known (id createdAt : String) : Known joined id createdAt ↔ Known db id createdAt := by
    unfold Known readCreatedAt
    rw [done.store]
  have reads : readCreatedAt joined = readCreatedAt db := by
    funext query
    unfold readCreatedAt
    rw [done.store]
  refine ⟨fun id createdAt here => dated.parses id createdAt ((known _ _).mp here),
    fun first firstAt second secondAt one other => dated.ordered first firstAt second secondAt ((known _ _).mp one)
      ((known _ _).mp other), fun link present lineage => ?_, fun entry present => ?_⟩
  · rw [reads]
    by_cases old : link ∈ db.memoryLinks
    · exact dated.links link old lineage
    · rcases done.links with same | ⟨new, appended, source, target, _, _, passed⟩
      · exact absurd (same ▸ present) old
      · have isNew : link = new := by
          rw [appended, List.mem_append, List.mem_singleton] at present
          exact present.resolve_left old
        subst isNew
        obtain ⟨reflects, backward⟩ := validateLinkPreCreate_passes passed
        obtain ⟨first, firstFound⟩ := Option.isSome_iff_exists.mp source
        obtain ⟨second, secondFound⟩ := Option.isSome_iff_exists.mp target
        have differ : link.sourceId ≠ link.targetId := by
          intro loop
          cases reflection : isReflection link.relation with
          | true => exact reflects reflection (loop ▸ .refl)
          | false => exact apart link present old lineage reflection loop
        exact dated.descends (by rw [readCreatedAt, firstFound]; rfl) (by rw [readCreatedAt, secondFound]; rfl)
          (known_of_find firstFound) (known_of_find secondFound) differ (backward rfl flag lineage)
  · rw [done.snapshots] at present
    exact dated.snapshots entry present

/-- A restored row has the time that the archive held, and the links that come back do not point forward. -/
theorem dated_restored {restored : Database} {id : String} {row : Memory} {now : env.chrono.Instant}
    (dated : Dated env db) (returns : Returns env.toWriterEnvironment db id now row)
    (moved : Restored env.toWriterEnvironment db restored id row now)
    (archive : ∀ entry ∈ restored.archivedMemories, entry ∈ db.archivedMemories)
    (backward : RestoresNoForward env db (.restore id now)) : Dated env restored := by
  have reads : readCreatedAt restored =
      fun query => if query = id then some row.createdAt else readCreatedAt db query := by
    funext query
    unfold readCreatedAt
    rw [moved.find]
    split_ifs <;> rfl
  have archived : Known db id row.createdAt := by
    obtain ⟨entry, found, rfl⟩ := Option.map_eq_some_iff.mp returns.archived
    exact .inr ⟨entry, List.mem_of_find?_eq_some found, by simpa using List.find?_some found, rfl⟩
  have known {query createdAt : String} (here : Known restored query createdAt) : Known db query createdAt := by
    rcases here with live | ⟨entry, present, same⟩
    · rw [reads] at live
      dsimp only at live
      split_ifs at live with isRow
      · rw [isRow, ← Option.some.inj live]
        exact archived
      · exact .inl live
    · exact .inr ⟨entry, archive entry present, same⟩
  refine ⟨fun query createdAt here => dated.parses query createdAt (known here),
    fun first firstAt second secondAt one other =>
      dated.ordered first firstAt second secondAt (known one) (known other),
    fun link present lineage => ?_, fun entry present => ?_⟩
  · rcases List.mem_append.mp ((mem_memoryLinks_restored moved link).mp present) with old | back
    · have live := dated.live old lineage
      have stays (query : String) (there : (db.memories.find query).isSome) : query ≠ id := by
        rintro rfl
        rw [moved.absent] at there
        contradiction
      unfold Descends
      rw [reads]
      dsimp only
      rw [if_neg (stays _ live.1), if_neg (stays _ live.2)]
      exact dated.links link old lineage
    · obtain ⟨snapshot, condition⟩ := List.mem_filter.mp back
      obtain ⟨entry, held, rfl⟩ := List.mem_map.mp snapshot
      simp only [Bool.decide_and, Bool.and_eq_true, decide_eq_true_eq] at condition
      have ends (query : String) (there : query = id ∨ (db.memories.find query).isSome) :
          ∃ createdAt, readCreatedAt restored query = some createdAt := by
        rw [reads]
        dsimp only
        split_ifs with isRow
        · exact ⟨_, rfl⟩
        · obtain ⟨other, found⟩ := Option.isSome_iff_exists.mp (there.resolve_left isRow)
          exact ⟨other.createdAt, by rw [readCreatedAt, found]; rfl⟩
      obtain ⟨sourceAt, sourceRead⟩ := ends _ condition.2.1
      obtain ⟨targetAt, targetRead⟩ := ends _ condition.2.2.1
      refine dated.descends sourceRead targetRead (known (.inl sourceRead)) (known (.inl targetRead))
        (dated.snapshots entry held lineage) ?_
      rw [reads]
      exact backward row returns entry.link back lineage
  · rw [moved.snapshots] at present
    exact dated.snapshots entry present

end Steps
section Runs

variable {env : LinkEnvironment} {db : Database}

/-- A local call keeps the dates where it makes no loop and brings no forward link back. -/
theorem dated_linkStep (flag : env.lineageDagEnabled = true)
    (irreflexive : ∀ instant, env.chrono.later instant instant = false) (call : LinkCall env)
    (allowed : LocalWrites env db call ∧ NoSelfDerivation env call ∧ RestoresNoForward env db call)
    (dated : Dated env db) : Dated env (linkStep env db call) := by
  obtain ⟨localWrites, noSelf, backward⟩ := allowed
  cases call with
  | insert row now =>
      simp only [linkStep]
      cases ok : insert env.toWriterEnvironment db.toStore row now with
      | error _ => exact dated
      | ok result => exact dated_insert dated localWrites irreflexive ok
  | delete id =>
      simp only [linkStep]
      have standards (entries : List NamespaceMeta) : Dated env { db with namespaceMeta := entries } :=
        ⟨dated.parses, dated.ordered, dated.links, dated.snapshots⟩
      cases outcome : delete db id with
      | mk left answer =>
          cases answer with
          | error _ =>
              obtain ⟨entries, rfl⟩ := delete_eq_error outcome
              exact standards entries
          | ok found =>
              obtain ⟨_, _, _, rfl⟩ := delete_eq_ok outcome
              exact dated_deleteMemories _ (standards _) irreflexive
  | createLinkSigned sourceId targetId relation agentId now =>
      simp only [linkStep]
      cases ok : createLinkSigned (localGate env db agentId) db sourceId targetId relation now with
      | error _ => exact dated
      | ok joined =>
          refine dated_joined dated flag (joined_createLinkSigned ok) fun link present new lineage reflection => ?_
          rcases (linked_createLinkSigned ok).links with rfl | ⟨_, other, key, rfl⟩
          · exact absurd present new
          · obtain rfl := List.mem_singleton.mp ((List.mem_append.mp present).resolve_left new)
            obtain ⟨rfl, rfl, rfl⟩ : link.sourceId = sourceId ∧ link.targetId = targetId ∧
              link.relation = relation := by simpa [MemoryLink.key] using key
            exact noSelf lineage reflection
  | createLinkInbound link attestLevel now => exact localWrites.elim
  | archive id reason now =>
      simp only [linkStep]
      cases ok : archiveMemory env.chrono db id reason now with
      | error _ => exact dated
      | ok result => exact dated_archive dated irreflexive ok
  | restore id now =>
      simp only [linkStep]
      cases ok : restoreArchived env.toWriterEnvironment db id now with
      | error _ => exact dated
      | ok result =>
          obtain ⟨restored, moved⟩ := result
          rcases restoreArchived_ok ok with ⟨_, rfl, _⟩ | ⟨_, rfl, _⟩
          · exact dated
          · obtain ⟨row, returns, moved, archive⟩ := returns_of_restoreArchived ok
            exact dated_restored dated returns moved archive backward

theorem dated_emptyDatabase : Dated env emptyDatabase where
  parses id createdAt known := by
    rcases known with live | ⟨_, none, _⟩
    · cases live
    · cases none
  ordered first firstAt second secondAt known := by
    rcases known with live | ⟨_, none, _⟩
    · cases live
    · cases none
  links link none := by cases none
  snapshots entry none := by cases none

/-- The reflections stay acyclic over a history exactly when no restore brings a link back that closes a cycle. Under
the switch of the lineage, and with local writes in order, the lineage stays acyclic when no memory derives from
itself and no restore brings a forward link back. -/
theorem linkGraph_acyclic_run (env : LinkEnvironment) (calls : List (LinkCall env)) :
    (EveryStep (linkStep env) (RestoresNoCycle env) emptyDatabase calls ↔
      ∀ taken rest, calls = taken ++ rest →
        Acyclic (edges (run (linkStep env) emptyDatabase taken).memoryLinks isReflection)) ∧
    (env.lineageDagEnabled = true → (∀ instant, env.chrono.later instant instant = false) →
      (∀ first second third, env.chrono.later first second = true → env.chrono.later second third = true →
        env.chrono.later first third = true) →
      EveryStep (linkStep env) (fun db call => LocalWrites env db call ∧ NoSelfDerivation env call ∧
        RestoresNoForward env db call) emptyDatabase calls →
      ∀ taken rest, calls = taken ++ rest →
        Acyclic (edges (run (linkStep env) emptyDatabase taken).memoryLinks isLineage)) := by
  constructor
  · refine @EveryStep.iff_reached _ _ (linkStep env) (RestoresNoCycle env) (fun _ _ => True) (fun _ => True)
      (fun db => Acyclic (edges db.memoryLinks isReflection)) (fun _ _ _ _ => trivial)
      (fun db call _ _ acyclic => restoresNoCycle_iff acyclic call) _ _ (.of_forall (fun _ _ => trivial) _ _) trivial ?_
    refine acyclic_empty fun source target => ?_
    rintro ⟨link, none, _⟩
    cases none
  · intro flag irreflexive transitive every taken rest split
    rw [split] at every
    have dated := run_invariant (fun db call allowed dated => dated_linkStep flag irreflexive call allowed dated)
      (EveryStep.append_iff.mp every).1 dated_emptyDatabase
    exact dated.acyclic irreflexive transitive

end Runs

section Samples

instance (links : List MemoryLink) (among : String → Bool) (source target : String) :
    Decidable (edges links among source target) :=
  inferInstanceAs (Decidable (∃ link ∈ links, _ ∧ _ ∧ _))

def linkEnvironment (lineageDagEnabled : Bool) : LinkEnvironment :=
  { openReceiver ⟨[]⟩ with
    lineageDagEnabled := lineageDagEnabled
    plainChar := fun _ => true
    permissionRules := []
    permissionsMode := .off }

def createdRow (id createdAt : String) : Memory := { Memory.base id createdAt with title := id, createdAt := createdAt }

/-- A new row of the sample clock is checked against the rows of the table and of the archive. -/
theorem localWrites_insert {env : LinkEnvironment} {db : Database} {row : Memory} {now created : env.chrono.Instant}
    (parsed : env.chrono.parseFromRfc3339 row.createdAt = some created)
    (after : ∀ known ∈ db.memories.rows ++ db.archivedMemories.map (·.row),
      (env.chrono.parseFromRfc3339 known.createdAt).all (env.chrono.later created) = true) :
    LocalWrites env db (.insert row now) := by
  intro _
  refine ⟨created, parsed, fun id createdAt earlier known earlierParsed => ?_⟩
  obtain ⟨other, present, rfl⟩ : ∃ other ∈ db.memories.rows ++ db.archivedMemories.map (·.row),
      other.createdAt = createdAt := by
    rcases known with live | ⟨entry, present, _, rfl⟩
    · obtain ⟨other, found, rfl⟩ := Option.map_eq_some_iff.mp live
      exact ⟨other, List.mem_append_left _ ((db.memories.find_eq_some_iff _ _).mp found).1, rfl⟩
    · exact ⟨entry.row, List.mem_append_right _ (List.mem_map_of_mem present), rfl⟩
  simpa [earlierParsed] using after other present

/-- A reflection goes into the archive with its target and comes back with it. -/
def returnedReflection : List (LinkCall (linkEnvironment true)) :=
  [.insert (createdRow "a" "2026-06-16T10:00:00+00:00") (0 : Int),
    .insert (createdRow "b" "2026-06-16T10:05:00+00:00") (0 : Int),
    .createLinkSigned "b" "a" "reflects_on" "system" (0 : Int), .archive "a" none (0 : Int), .restore "a" (0 : Int)]

def beforeReturn : Database := run (linkStep (linkEnvironment true)) emptyDatabase (returnedReflection.take 4)

theorem returnedReflection_acyclic :
    (∀ taken rest, returnedReflection = taken ++ rest → Acyclic (edges
      (run (linkStep (linkEnvironment true)) emptyDatabase taken).memoryLinks isReflection)) ∧
    ∀ taken rest, returnedReflection = taken ++ rest → Acyclic (edges
      (run (linkStep (linkEnvironment true)) emptyDatabase taken).memoryLinks isLineage) := by
  have noCycle : RestoresNoCycle (linkEnvironment true) beforeReturn (.restore "a" (0 : Int)) := by
    intro row _ link present _ walk
    have ends : ∀ link ∈ returnedLinks beforeReturn "a", link.sourceId = "b" ∧ link.targetId = "a" := by decide
    have leaves : ∀ link ∈ beforeReturn.memoryLinks ++ returnedLinks beforeReturn "a", link.sourceId ≠ "a" := by decide
    rw [(ends link present).1, (ends link present).2] at walk
    rcases walk.cases_head with same | ⟨_, ⟨other, held, _, starts, _⟩, _⟩
    · exact absurd same (by decide)
    · exact leaves other held starts
  have noForward : RestoresNoForward (linkEnvironment true) beforeReturn (.restore "a" (0 : Int)) := by
    intro row returns link present _
    obtain rfl := Option.some.inj (returns.archived.symm.trans rfl)
    exact (by decide : ∀ link ∈ returnedLinks beforeReturn "a", lineageEdgeIsForward _ _ link.sourceId link.targetId =
      false) link present
  have one : LocalWrites (linkEnvironment true) emptyDatabase
      (.insert (createdRow "a" "2026-06-16T10:00:00+00:00") (0 : Int)) :=
    @localWrites_insert _ _ _ (0 : Int) (0 : Int) rfl (by decide)
  have two : LocalWrites (linkEnvironment true)
      (run (linkStep (linkEnvironment true)) emptyDatabase (returnedReflection.take 1))
      (.insert (createdRow "b" "2026-06-16T10:05:00+00:00") (0 : Int)) :=
    @localWrites_insert _ _ _ (0 : Int) (300 : Int) rfl (by decide)
  have kept := linkGraph_acyclic_run (linkEnvironment true) returnedReflection
  refine ⟨kept.1.mp ⟨trivial, trivial, trivial, trivial, noCycle, trivial⟩, kept.2 rfl
    (fun instant : Int => ?_) (fun first second third : Int => fun upper lower => ?_)
    ⟨⟨one, trivial, trivial⟩, ⟨two, trivial, trivial⟩,
      ⟨trivial, fun _ _ => by decide, trivial⟩, ⟨trivial, trivial, trivial⟩, ⟨trivial, trivial, noForward⟩, trivial⟩⟩
  · exact decide_eq_false (Int.lt_irrefl instant)
  · exact decide_eq_true (Int.lt_trans (of_decide_eq_true lower) (of_decide_eq_true upper))

/-- Two links leave with their ends, and a third one joins before they are all back. -/
def ringRun : List (LinkCall (linkEnvironment false)) :=
  [.insert (createdRow "a" "2026-06-16T10:00:00+00:00") (0 : Int),
    .insert (createdRow "b" "2026-06-16T10:00:00+00:00") (0 : Int),
    .insert (createdRow "c" "2026-06-16T10:00:00+00:00") (0 : Int),
    .createLinkSigned "a" "b" "reflects_on" "system" (0 : Int),
    .createLinkSigned "b" "c" "reflects_on" "system" (0 : Int), .archive "a" none (0 : Int),
    .archive "b" none (0 : Int), .restore "a" (0 : Int),
    .createLinkSigned "c" "a" "reflects_on" "system" (0 : Int), .restore "b" (0 : Int)]

/-- A new memory takes the identifier of an archived one, and the links of both come back together. -/
def reusedRun : List (LinkCall (linkEnvironment true)) :=
  [.insert (createdRow "a" "2026-06-16T10:00:00+00:00") (0 : Int),
    .insert (createdRow "b" "2026-06-16T10:05:00+00:00") (0 : Int),
    .createLinkSigned "b" "a" "derived_from" "system" (0 : Int), .archive "a" none (0 : Int),
    .insert (createdRow "a" "2026-06-17T10:00:00+00:00") (0 : Int),
    .createLinkSigned "a" "b" "derived_from" "system" (0 : Int), .archive "b" none (0 : Int),
    .restore "b" (0 : Int)]

theorem restored_links_close_cycles :
    ¬ Acyclic (edges (run (linkStep (linkEnvironment false)) emptyDatabase ringRun).memoryLinks isReflection) ∧
    EveryStep (linkStep (linkEnvironment true)) (LocalWrites (linkEnvironment true)) emptyDatabase reusedRun ∧
    ¬ Acyclic (edges (run (linkStep (linkEnvironment true)) emptyDatabase reusedRun).memoryLinks isLineage) := by
  refine ⟨fun acyclic => ?_, ⟨?_, ?_, trivial, trivial, ?_, trivial, trivial, trivial, trivial⟩, fun acyclic => ?_⟩
  · have upper : edges (run (linkStep _) emptyDatabase ringRun).memoryLinks isReflection "a" "b" := by
      decide
    have middle : edges (run (linkStep _) emptyDatabase ringRun).memoryLinks isReflection "b" "c" := by
      decide
    have lower : edges (run (linkStep _) emptyDatabase ringRun).memoryLinks isReflection "c" "a" := by
      decide
    exact acyclic "a" ((TransGen.single upper).tail middle |>.tail lower)
  · exact @localWrites_insert _ _ _ (0 : Int) (0 : Int) rfl (by decide)
  · exact @localWrites_insert _ _ _ (0 : Int) (300 : Int) rfl (by decide)
  · exact @localWrites_insert _ _ _ (0 : Int) (86400 : Int) rfl (by decide)
  · have upper : edges (run (linkStep _) emptyDatabase reusedRun).memoryLinks isLineage "a" "b" := by
      decide
    have lower : edges (run (linkStep _) emptyDatabase reusedRun).memoryLinks isLineage "b" "a" := by
      decide
    exact acyclic "a" ((TransGen.single upper).tail lower)

end Samples
end AiMemory.Links
