import AiMemory.Storage.ActionEffect

/-
This file says when a vertical promotion only adds a row and its edge.
-/

namespace AiMemory.Storage
open AiMemory.Crdt AiMemory.Library AiMemory.Machine

section Outcome

/-- A promotion that succeeds adds a row and its edge to the source, and one that fails changes neither table. -/
def OnlyAdds (db : Database) (sourceId : String) : Database × Except StorageError String → Prop
  | (after, .ok id) =>
      db.memories.find id = none ∧
        (∀ row ∈ db.memories.rows, after.memories.find row.id = some row) ∧
        ∃ edge : MemoryLink, edge.key = (id, sourceId, "derived_from") ∧
          after.memoryLinks = db.memoryLinks ++ [edge]
  | (after, .error _) => after.memories.rows = db.memories.rows ∧ after.memoryLinks = db.memoryLinks

/-- The store with one more row, where both of its keys are free. -/
def addRow (store : Store) (row : Memory) : Store :=
  if free : store.memories.find row.id = none ∧ store.memories.findSlot (slotOf row) = none then
    { store with memories := store.memories.append row free.1 free.2 }
  else store

theorem recordStop_addRow (store : Store) (row : Memory) : (addRow store row).recordStop = store.recordStop := by
  unfold addRow
  split <;> rfl

section Fresh

variable {store : Store} {row : Memory}

theorem addRow_fresh (fresh : store.memories.find row.id = none) (slot : store.memories.findSlot (slotOf row) = none) :
    (addRow store row).memories = store.memories.append row fresh slot :=
  congrArg Store.memories (dif_pos ⟨fresh, slot⟩)

theorem rows_addRow (fresh : store.memories.find row.id = none) (slot : store.memories.findSlot (slotOf row) = none) :
    (addRow store row).memories.rows = store.memories.rows ++ [row] := by
  rw [addRow_fresh fresh slot]
  rfl

theorem find_addRow (fresh : store.memories.find row.id = none) (slot : store.memories.findSlot (slotOf row) = none)
    (query : String) :
    (addRow store row).memories.find query = if query = row.id then some row else store.memories.find query := by
  rw [addRow_fresh fresh slot]
  exact store.memories.find_append row fresh slot query

end Fresh

/-- The edge from a clone to its source. -/
def promotionEdge (newId sourceId stamp : String) : MemoryLink :=
  ⟨newId, sourceId, "derived_from", stamp, some stamp, none, none, none, "unsigned"⟩

variable (env : WriterEnvironment) (db : Database) (sourceId toNamespace newId : String) (now : env.chrono.Instant)

/-- The row that the promotion of a source writes. -/
def cloneRow (source : Memory) : Memory :=
  localRow env (promotedClone source toNamespace newId (env.chrono.toRfc3339 now)) now

/-- The title of the clone is free in the target, and the link gates let the edge pass. -/
structure ClonesFreely (source : Memory) : Prop where
  slot : db.memories.findSlot (slotOf (cloneRow env toNamespace newId now source)) = none
  edge : env.validateLinkPreCreate (addRow db.toStore (cloneRow env toNamespace newId now source)) db.memoryLinks
    (promotionEdge newId sourceId (env.chrono.toRfc3339 now)) = none

end Outcome

section Steps

variable {env : WriterEnvironment} {db : Database} {sourceId toNamespace newId : String} {now : env.chrono.Instant}
  {source : Memory}

/-- A successful insertion is a successful upsert of its local row. -/
theorem insert_written {store written : Store} {row : Memory} {id : String}
    (ok : insert env store row now = .ok (written, id)) :
    store.recordStop = none ∧ upsertStoreMerge store (localRow env row now) = .ok (written, id) := by
  obtain ⟨_, running, rest⟩ := bind_eq_ok.mp ok
  obtain ⟨_, _, upserted⟩ := bind_eq_ok.mp rest
  exact ⟨gateStorageConn_ok_iff.mp running, upserted⟩

/-- The clone and its source are stored, so only the link gates can refuse the edge. -/
theorem createLink_edge {cloned : Database} (running : cloned.recordStop = none)
    (clone : (cloned.memories.find newId).isSome) (stored : (cloned.memories.find sourceId).isSome)
    (fresh : ∀ link ∈ cloned.memoryLinks, link.sourceId ≠ newId) :
    createLink env cloned newId sourceId "derived_from" now =
      match env.validateLinkPreCreate cloned.toStore cloned.memoryLinks
        (promotionEdge newId sourceId (env.chrono.toRfc3339 now)) with
      | some reason => .error (.linkRefused reason)
      | none => .ok { cloned with memoryLinks := cloned.memoryLinks ++
          [promotionEdge newId sourceId (env.chrono.toRfc3339 now)] } := by
  have absent : ¬ cloned.memoryLinks.any (fun link =>
      link.key = (promotionEdge newId sourceId (env.chrono.toRfc3339 now)).key) = true := by
    intro taken
    obtain ⟨link, present, same⟩ := List.any_eq_true.mp taken
    exact fresh link present (congrArg Prod.fst (of_decide_eq_true same))
  unfold createLink createLinkSigned
  rw [gateStorageConn_ok_iff.mpr running]
  show (match env.validateLinkPreCreate cloned.toStore cloned.memoryLinks
    (promotionEdge newId sourceId (env.chrono.toRfc3339 now)) with
    | some reason => _
    | none => _) = _
  cases env.validateLinkPreCreate cloned.toStore cloned.memoryLinks
    (promotionEdge newId sourceId (env.chrono.toRfc3339 now)) with
  | some reason => rfl
  | none =>
      dsimp only
      rw [if_neg (Option.isSome_iff_ne_none.mp clone), if_neg (Option.isSome_iff_ne_none.mp stored)]
      rw [show (cloned.memoryLinks.any fun other => other.key = _) = false from Bool.not_eq_true _ ▸ absent]
      rfl

/-- A promotion of a free title appends its clone. -/
theorem insert_clone_free (promotes : Promotes env db sourceId toNamespace newId now)
    (found : db.memories.find sourceId = some source)
    (slot : db.memories.findSlot (slotOf (cloneRow env toNamespace newId now source)) = none) :
    db.memories.find newId = none ∧
      insert env db.toStore (promotedClone source toNamespace newId (env.chrono.toRfc3339 now)) now =
        .ok (addRow db.toStore (cloneRow env toNamespace newId now source), newId) := by
  obtain ⟨_, other, otherFound, _, _, insertable⟩ := promotes
  obtain rfl := Option.some.inj (found.symm.trans otherFound)
  obtain ⟨written, actualId, inserted, _⟩ := insert_ok insertable
  rcases (upsertStoreMerge_written (insert_written inserted).2).2 with
    ⟨existing, _, taken, _⟩ | ⟨freshId, freshSlot, rfl, rfl⟩
  · exact absurd (slot.symm.trans taken) (by simp)
  · refine ⟨freshId, inserted.trans ?_⟩
    rw [addRow, dif_pos ⟨freshId, slot⟩]
    rfl

/-- A promotion of a taken title rewrites the row that holds it. -/
theorem insert_clone_taken {existing : Memory} (promotes : Promotes env db sourceId toNamespace newId now)
    (found : db.memories.find sourceId = some source)
    (slot : db.memories.findSlot (slotOf (cloneRow env toNamespace newId now source)) = some existing) :
    ∃ written, insert env db.toStore (promotedClone source toNamespace newId (env.chrono.toRfc3339 now)) now =
        .ok (written, existing.id) ∧ written.memories.rows ≠ db.memories.rows := by
  obtain ⟨_, other, otherFound, _, _, insertable⟩ := promotes
  obtain rfl := Option.some.inj (found.symm.trans otherFound)
  obtain ⟨written, actualId, inserted, changed⟩ := insert_ok insertable
  have differs : written.memories.rows ≠ db.memories.rows := fun same => changed.changes (same ▸ .refl _ _)
  rcases (upsertStoreMerge_written (insert_written inserted).2).2 with
    ⟨held, _, taken, rfl, _⟩ | ⟨_, freshSlot, _⟩
  · obtain rfl := Option.some.inj (slot.symm.trans taken)
    exact ⟨written, inserted, differs⟩
  · exact absurd (slot.symm.trans freshSlot) (by simp)

/-- What the promotion of a free title comes to. -/
theorem promoteToNamespace_free (anchored : ∀ link ∈ db.memoryLinks, (db.memories.find link.sourceId).isSome)
    (promotes : Promotes env db sourceId toNamespace newId now) (found : db.memories.find sourceId = some source)
    (slot : db.memories.findSlot (slotOf (cloneRow env toNamespace newId now source)) = none) :
    OnlyAdds db sourceId (promoteToNamespace env db sourceId toNamespace newId now) ↔
      env.validateLinkPreCreate (addRow db.toStore (cloneRow env toNamespace newId now source)) db.memoryLinks
        (promotionEdge newId sourceId (env.chrono.toRfc3339 now)) = none := by
  obtain ⟨fresh, inserted⟩ := insert_clone_free promotes found slot
  obtain ⟨named, other, otherFound, differs, ancestor, insertable⟩ := promotes
  obtain rfl := Option.some.inj (found.symm.trans otherFound)
  let cloned : Database := { db with toStore := addRow db.toStore (cloneRow env toNamespace newId now source) }
  have finds := @find_addRow db.toStore (cloneRow env toNamespace newId now source) fresh slot
  have running : cloned.recordStop = none := (recordStop_addRow _ _).trans insertable.1
  have kept : ∀ row ∈ db.memories.rows, cloned.memories.find row.id = some row := by
    intro row present
    have apart := (db.memories.find_eq_none_iff newId).mp fresh row present
    rw [finds, (db.memories.find_eq_some_iff row.id row).mpr ⟨present, rfl⟩]
    exact if_neg apart
  have stored : (cloned.memories.find newId).isSome := by
    rw [show cloned.memories.find newId = some _ from (finds newId).trans (if_pos rfl)]
    rfl
  have sourceStays : (cloned.memories.find sourceId).isSome := by
    obtain ⟨present, sourceIs⟩ := (db.memories.find_eq_some_iff _ _).mp found
    rw [← sourceIs, kept source present]
    rfl
  have unlinked : ∀ link ∈ cloned.memoryLinks, link.sourceId ≠ newId := by
    intro link present named
    have held := anchored link present
    rw [named, fresh] at held
    contradiction
  have linked := @createLink_edge env sourceId newId now cloned running stored sourceStays unlinked
  rw [promoteToNamespace_eq found named differs ancestor inserted]
  cases verdict : env.validateLinkPreCreate (addRow db.toStore (cloneRow env toNamespace newId now source))
      db.memoryLinks (promotionEdge newId sourceId (env.chrono.toRfc3339 now)) with
  | some reason =>
      rw [show env.validateLinkPreCreate cloned.toStore cloned.memoryLinks _ = _ from verdict] at linked
      rw [linked]
      refine iff_of_false (fun unchanged => ?_) (by simp)
      have grown := congrArg List.length unchanged.1
      rw [show (addRow db.toStore (cloneRow env toNamespace newId now source)).memories.rows = _ from
        rows_addRow fresh slot, List.length_append] at grown
      exact absurd grown (Nat.succ_ne_self _)
  | none =>
      rw [show env.validateLinkPreCreate cloned.toStore cloned.memoryLinks _ = _ from verdict] at linked
      rw [linked]
      exact iff_of_true ⟨fresh, kept, _, rfl, rfl⟩ rfl

/-- The promotion of a taken title rewrites its row. -/
theorem promoteToNamespace_taken {existing : Memory} (promotes : Promotes env db sourceId toNamespace newId now)
    (found : db.memories.find sourceId = some source)
    (slot : db.memories.findSlot (slotOf (cloneRow env toNamespace newId now source)) = some existing) :
    ¬ OnlyAdds db sourceId (promoteToNamespace env db sourceId toNamespace newId now) := by
  obtain ⟨written, inserted, rewrites⟩ := insert_clone_taken promotes found slot
  obtain ⟨named, other, otherFound, differs, ancestor, _⟩ := promotes
  obtain rfl := Option.some.inj (found.symm.trans otherFound)
  rw [promoteToNamespace_eq found named differs ancestor inserted]
  split
  · exact fun unchanged => rewrites unchanged.1
  · intro adds
    have stored := ((db.memories.findSlot_eq_some_iff _ _).mp slot).1
    exact (db.memories.find_eq_none_iff _).mp adds.1 existing stored rfl

/-- A promotion only adds exactly when, wherever its checks accept it, the title of the clone is free in the target
and the link gates let the edge pass. -/
theorem promoteToNamespace_onlyAdds_iff (anchored : ∀ link ∈ db.memoryLinks, (db.memories.find link.sourceId).isSome) :
    OnlyAdds db sourceId (promoteToNamespace env db sourceId toNamespace newId now) ↔
      ∀ source ∈ db.memories.find sourceId, Promotes env db sourceId toNamespace newId now →
        ClonesFreely env db sourceId toNamespace newId now source := by
  by_cases promotes : Promotes env db sourceId toNamespace newId now
  · obtain ⟨_, source, found, _⟩ := id promotes
    have accepted : (∀ other ∈ db.memories.find sourceId, Promotes env db sourceId toNamespace newId now →
        ClonesFreely env db sourceId toNamespace newId now other) ↔
          ClonesFreely env db sourceId toNamespace newId now source := by
      rw [Option.mem_def.mp found]
      simp [promotes]
    rw [accepted]
    cases slot : db.memories.findSlot (slotOf (cloneRow env toNamespace newId now source)) with
    | none =>
        rw [promoteToNamespace_free anchored promotes found slot]
        exact ⟨fun edge => ⟨slot, edge⟩, fun free => free.edge⟩
    | some existing =>
        refine iff_of_false (promoteToNamespace_taken promotes found slot) fun free => ?_
        exact absurd (slot.symm.trans free.slot) (by simp)
  · obtain ⟨error, refused⟩ := promoteToNamespace_idle promotes
    rw [refused]
    exact iff_of_true ⟨rfl, rfl⟩ fun source _ accepted => absurd accepted promotes

/-- The source lives below the namespace that it is promoted to. -/
def childRow : Memory := { Memory.base "child" "2026-06-16T00:00:00+00:00" with «namespace» := "team/alpha" }

/-- A row of the parent namespace already has the title of the source. -/
def parentRow : Memory :=
  { Memory.base "parent" "2026-06-16T00:00:00+00:00" with «namespace» := "team", content := "plan" }

def childDatabase : Database where
  memories := ⟨[childRow], List.nodup_singleton _, List.nodup_singleton _⟩
  archivedMemories := []
  forgetTombstones := []
  recordStop := none
  memoryLinks := []
  archivedMemoryLinks := []
  namespaceMeta := []
  atomOf _ := none
  archivedAtomOf _ := none

def takenDatabase : Database :=
  { childDatabase with memories := ⟨[childRow, parentRow], by decide, by decide⟩ }

/-- The source has a link to a row beside it, and the parent namespace holds a row of another title. -/
def siblingDatabase : Database :=
  { childDatabase with
      memories := ⟨[childRow, { childRow with id := "sibling", title := "n" }, { parentRow with title := "plan" }],
        by decide, by decide⟩
      memoryLinks := [⟨"child", "sibling", "related_to", "2026-06-16T00:00:00+00:00", none, none, none, none,
        "unsigned"⟩] }

/-- The promotion into a namespace without the title only adds. -/
theorem promoteToNamespace_adds_clone :
    OnlyAdds siblingDatabase "child"
      (promoteToNamespace openWriterEnvironment siblingDatabase "child" "team" "clone" (0 : Int)) ∧
    (promoteToNamespace openWriterEnvironment siblingDatabase "child" "team" "clone" (0 : Int)).2.toOption =
      some "clone" := by
  refine ⟨(promoteToNamespace_onlyAdds_iff ?_).mpr ?_, by decide +kernel⟩
  · intro link present
    rw [List.mem_singleton.mp present]
    rfl
  · intro source found _
    obtain rfl := Option.some.inj found
    exact ⟨rfl, rfl⟩

/-- The promotion into a namespace that has the title rewrites the row that holds it. -/
theorem promoteToNamespace_rewrites_holder :
    ¬ OnlyAdds takenDatabase "child"
      (promoteToNamespace openWriterEnvironment takenDatabase "child" "team" "clone" (0 : Int)) := by
  intro adds
  have fresh : takenDatabase.memories.find "parent" = none := adds.1
  contradiction

end Steps
end AiMemory.Storage
