import AiMemory.Storage.ActionEffect
import AiMemory.Storage.Snapshots

/-
This file says when an undo gives an edited row back and a second undo gives the edit back.
-/

namespace AiMemory.Storage
open AiMemory.Crdt AiMemory.Library AiMemory.Machine

section Restored

/-- The columns that an undo restores. -/
structure SameRestorable (before after : Memory) : Prop where
  title : after.title = before.title
  content : after.content = before.content
  tier : after.tier = before.tier
  «namespace» : after.namespace = before.namespace
  tags : after.tags = before.tags
  priority : after.priority = before.priority
  confidence : after.confidence = before.confidence
  expiresAt : after.expiresAt = before.expiresAt
  metadata : after.metadata = before.metadata
  sourceUri : after.sourceUri = before.sourceUri

/-- The row that an update writes over the live one. -/
def editedRow (patch : Patch) (live : Memory) (now : String) : Memory :=
  updatedRow patch (governedRow patch live) live now

/-- The row that an undo writes over the live one. -/
def undoneRow (snapshot live : Memory) (now : String) : Memory := editedRow (undoPatch snapshot) live now

/-- The patch leaves the tier, and it neither sets an absent expiry or source nor clears a present expiry. -/
structure Reversible (patch : Patch) (before : Memory) : Prop where
  tier : effectiveTier patch.tier before.tier = before.tier
  expires : patchedExpiresAt patch.expiresAt before.expiresAt = none ↔ before.expiresAt = none
  readable : before.expiresAt ≠ some "" ∧ before.expiresAt ≠ some "null"
  source : before.sourceUri = none → patch.sourceUri = none

theorem effectiveTier_self (tier : Tier) : effectiveTier (some tier) tier = tier := by
  cases tier <;> rfl

/-- A tier that an update has reached stays when the old tier is asked for. -/
theorem effectiveTier_back (requested : Option Tier) (tier : Tier) :
    effectiveTier (some tier) (effectiveTier requested tier) = effectiveTier requested tier := by
  cases requested with
  | none => exact effectiveTier_self tier
  | some requested => cases tier <;> cases requested <;> rfl

theorem patchedExpiresAt_none (existing : Option String) : patchedExpiresAt none existing = existing := rfl

/-- A text of the patch replaces the expiry unless it asks to clear it. -/
theorem patchedExpiresAt_some (text : String) (existing : Option String) :
    patchedExpiresAt (some text) existing = if text = "" ∨ text = "null" then none else some text := by
  unfold patchedExpiresAt
  split <;> simp_all

/-- An expiry comes back and forth when it is a text that no patch reads as a request to clear, before and after, or
absent before and after. -/
theorem expiry_reversible_iff (requested existing : Option String) :
    (patchedExpiresAt existing (patchedExpiresAt requested existing) = existing ∧
      patchedExpiresAt (patchedExpiresAt requested existing)
        (patchedExpiresAt existing (patchedExpiresAt requested existing)) = patchedExpiresAt requested existing) ↔
      (patchedExpiresAt requested existing = none ↔ existing = none) ∧
        existing ≠ some "" ∧ existing ≠ some "null" := by
  cases existing with
  | none =>
      cases requested with
      | none => simp [patchedExpiresAt_none]
      | some text =>
          by_cases clears : text = "" ∨ text = "null" <;>
            simp [patchedExpiresAt_some, patchedExpiresAt_none, clears]
  | some old =>
      by_cases clearing : old = "" ∨ old = "null"
      · -- The undo reads such an expiry as a request to clear it.
        have lost : ¬ patchedExpiresAt (some old) (patchedExpiresAt requested (some old)) = some old := by
          simp [patchedExpiresAt_some, clearing]
        refine iff_of_false (fun both => lost both.1) fun readable => ?_
        rcases clearing with rfl | rfl
        · exact readable.2.1 rfl
        · exact readable.2.2 rfl
      · cases requested with
        | none => simp_all [patchedExpiresAt_some, patchedExpiresAt_none]
        | some text =>
            by_cases clears : text = "" ∨ text = "null" <;>
              simp_all [patchedExpiresAt_some, patchedExpiresAt_none]

/-- A source comes back when the patch does not set an absent one; the edit's own always comes back. -/
theorem source_reversible_iff (requested existing : Option String) :
    (existing.or (requested.or existing) = existing ∧
      (requested.or existing).or (existing.or (requested.or existing)) = requested.or existing) ↔
      (existing = none → requested = none) := by
  cases existing <;> cases requested <;> simp

/-- The two undos restore the columns exactly when the patch is reversible. -/
theorem reversible_iff (patch : Patch) (before : Memory) (now undoAt redoAt : String) :
    (SameRestorable before (undoneRow before (editedRow patch before now) undoAt) ∧
      SameRestorable (editedRow patch before now)
        (undoneRow (editedRow patch before now) (undoneRow before (editedRow patch before now) undoAt) redoAt)) ↔
      Reversible patch before := by
  have tierBack := effectiveTier_back patch.tier before.tier
  have tierAgain := effectiveTier_self (effectiveTier patch.tier before.tier)
  have expiry := expiry_reversible_iff patch.expiresAt before.expiresAt
  have source := source_reversible_iff patch.sourceUri before.sourceUri
  constructor
  · rintro ⟨back, again⟩
    have expiries := expiry.mp ⟨back.expiresAt, again.expiresAt⟩
    exact ⟨tierBack.symm.trans back.tier, expiries.1, expiries.2, source.mp ⟨back.sourceUri, again.sourceUri⟩⟩
  · rintro ⟨tier, expires, readable, kept⟩
    obtain ⟨expiresBack, expiresAgain⟩ := expiry.mpr ⟨expires, readable⟩
    obtain ⟨sourceBack, sourceAgain⟩ := source.mpr kept
    have tiers : effectiveTier (some (effectiveTier patch.tier before.tier))
        (effectiveTier (some before.tier) (effectiveTier patch.tier before.tier)) =
          effectiveTier patch.tier before.tier := by rw [tierBack, tierAgain]
    exact ⟨⟨rfl, rfl, tierBack.trans tier, rfl, rfl, rfl, rfl, expiresBack, rfl, sourceBack⟩,
      ⟨rfl, rfl, tiers, rfl, rfl, rfl, rfl, expiresAgain, rfl, sourceAgain⟩⟩

end Restored

section Step

variable {env : WriterEnvironment} {store : Store} {id : String} {patch : Patch} {live snapshot : Memory}

/-- The live row and its snapshot differ in their text, and no other row holds the slot of the snapshot. -/
structure Edited (store : Store) (id : String) (live snapshot : Memory) : Prop where
  running : store.recordStop = none
  found : store.memories.find id = some live
  archived : undoSnapshot store id = some snapshot
  liveSound : checkConstraints live = none
  snapshotSound : checkConstraints snapshot = none
  free : ∀ other ∈ store.memories.rows, slotOf other = slotOf snapshot → other.id = id
  differs : contentChanged (governedRow (undoPatch snapshot) live) live = true

/-- The archive shows its last record. -/
theorem undoSnapshot_archiveRow {archived : List ArchivedMemory} {row : Memory} {stamp : String}
    (written : store.archivedMemories = archiveRow archived row "in_place_edit" stamp) :
    undoSnapshot store row.id = some row := by
  have older : (archived.filter fun entry => entry.row.id ≠ row.id).find?
      (fun entry => decide (entry.row.id = row.id ∧ entry.archiveReason = "in_place_edit")) = none := by
    apply List.find?_eq_none.mpr
    intro entry present
    have apart := of_decide_eq_true (List.mem_filter.mp present).2
    exact fun same => apart (of_decide_eq_true same).1
  rw [undoSnapshot, written, archiveRow, List.find?_append, older]
  simp

/-- A replaced row leaves its slot to its identifier. -/
theorem free_replace {table : MemoryTable} {old row : Memory} (found : table.find row.id = some old)
    (noClash : ∀ other ∈ table.findSlot (slotOf row), other.id = row.id) :
    ∀ other ∈ (table.replace row noClash).rows, slotOf other = slotOf old → other.id = row.id := by
  obtain ⟨present, sameId⟩ := (table.find_eq_some_iff _ _).mp found
  intro other written slot
  obtain ⟨stored, storedPresent, rfl⟩ := List.mem_map.mp written
  by_cases isRow : stored.id = row.id
  · simp [isRow]
  · rw [if_neg isRow] at slot ⊢
    exact (table.id_of_slot storedPresent present slot).trans sameId

/-- The text of the undo differs from the edit as the edit differs from the row. -/
theorem contentChanged_undo (now : String) (changed : contentChanged (governedRow patch live) live = true) :
    contentChanged (governedRow (undoPatch live) (editedRow patch live now)) (editedRow patch live now) = true := by
  simp only [contentChanged, Bool.or_eq_true, decide_eq_true_eq] at changed ⊢
  exact changed.imp Ne.symm Ne.symm

/-- An update that changes the text leaves an edited row. -/
theorem edited_of_update {written : Store} {expectedVersion : Option Int} {now : env.chrono.Instant}
    (found : store.memories.find id = some live) (sound : checkConstraints live = none)
    (ok : updateWithExpectedVersion env store id patch expectedVersion now = .ok (written, true, true)) :
    Edited written id (editedRow patch live (env.chrono.toRfc3339 now)) live := by
  obtain ⟨read, readOk, committed⟩ := bind_eq_ok.mp ok
  obtain ⟨_, running, _⟩ := bind_eq_ok.mp readOk
  cases read with
  | none => simp at committed
  | some existing =>
      obtain rfl : live = existing := Option.some.inj (found.symm.trans (readForUpdate_some readOk))
      obtain ⟨_, changed, editedSound, lookups⟩ := commitUpdate_fresh found committed
      have sameId := ((store.memories.find_eq_some_iff _ _).mp found).2
      rcases commitUpdate_written committed with ⟨absent, _⟩ | ⟨current, noClash, stored, _, _, rfl⟩
      · exact absurd (found.symm.trans absent) (by simp)
      · obtain rfl : live = current := Option.some.inj (found.symm.trans stored)
        refine ⟨gateStorageConn_ok_iff.mp running, (lookups id).trans (if_pos rfl), ?_, editedSound, sound, ?_,
          contentChanged_undo _ changed.symm⟩
        · rw [← sameId]
          exact undoSnapshot_archiveRow (if_pos changed.symm)
        · have storedRow : store.memories.find
              (updatedRow patch (governedRow patch live) live (env.chrono.toRfc3339 now)).id = some live :=
            (congrArg store.memories.find sameId).trans found
          intro other written slot
          exact (free_replace storedRow noClash other written slot).trans sameId

/-- An update that nothing refuses writes its row. -/
theorem updateWithExpectedVersion_accepted {now : env.chrono.Instant} (running : store.recordStop = none)
    (found : store.memories.find id = some live)
    (ungoverned : env.governancePreWrite (governedRow patch live) = none)
    (sound : checkConstraints (editedRow patch live (env.chrono.toRfc3339 now)) = none)
    (free : ∀ other ∈ store.memories.rows,
      slotOf other = slotOf (editedRow patch live (env.chrono.toRfc3339 now)) → other.id = id) :
    ∃ written, updateWithExpectedVersion env store id patch (some live.version) now =
      .ok (written, true, contentChanged (governedRow patch live) live) := by
  have sameId : (editedRow patch live (env.chrono.toRfc3339 now)).id = id :=
    ((store.memories.find_eq_some_iff _ _).mp found).2
  have noClash : ∀ other ∈ store.memories.findSlot (slotOf (editedRow patch live (env.chrono.toRfc3339 now))),
      other.id = (editedRow patch live (env.chrono.toRfc3339 now)).id := by
    intro other taken
    obtain ⟨present, slot⟩ := (store.memories.findSlot_eq_some_iff _ _).mp taken
    exact (free other present slot).trans sameId.symm
  have pinned : (some live.version).filter (fun expected => live.version ≠ expected) = none := by simp
  have read : readForUpdate env store id patch (some live.version) = .ok (some live) := by
    rw [readForUpdate, gateStorageConn_ok_iff.mpr running, found]
    simp only [pinned]
    rw [consultGovernancePreWrite_ok_iff.mpr ungoverned]
    rfl
  let written : Store := { store with
    memories := store.memories.replace (editedRow patch live (env.chrono.toRfc3339 now)) noClash
    archivedMemories :=
      if contentChanged (governedRow patch live) live then
        archiveRow store.archivedMemories live "in_place_edit" (env.chrono.toRfc3339 now)
      else store.archivedMemories }
  refine ⟨written, ?_⟩
  rw [updateWithExpectedVersion, read]
  show commitUpdate env store id patch live (some live.version) now = _
  unfold commitUpdate
  simp only [found, pinned]
  rw [show checkConstraints (updatedRow patch (governedRow patch live) live (env.chrono.toRfc3339 now)) = none from
    sound]
  exact dif_pos noClash

/-- The undo of an edited row leaves an edited row again, with the two rows in each other's place. -/
theorem Edited.undo {caller : Option String} {now : env.chrono.Instant} (edited : Edited store id live snapshot)
    (owned : undoDenied id caller live (some snapshot) = none)
    (ungoverned : env.governancePreWrite (governedRow (undoPatch snapshot) live) = none) :
    ∃ undone, undoInPlaceEdit env store id caller false now = .ok (undone, undoOutcome live snapshot true) ∧
      Edited undone id (undoneRow snapshot live (env.chrono.toRfc3339 now)) live := by
  obtain ⟨undone, ok⟩ := @updateWithExpectedVersion_accepted env store id (undoPatch snapshot) live now edited.running
    edited.found ungoverned edited.snapshotSound edited.free
  rw [edited.differs] at ok
  refine ⟨undone, ?_, edited_of_update edited.found edited.liveSound ok⟩
  unfold undoInPlaceEdit
  rw [edited.found, edited.archived]
  simp only [owned, ok]
  rfl

end Step

section Exact

variable (env : WriterEnvironment)

/-- The undo gives the row back, and the undo after it gives the edit back. -/
def UndoneAndRedone (written : Store) (id : String) (caller : Option String) (undoAt redoAt : env.chrono.Instant)
    (before edited : Memory) : Prop :=
  ∃ undone undoneOutcome, undoInPlaceEdit env written id caller false undoAt = .ok (undone, undoneOutcome) ∧
    (∃ row, undone.memories.find id = some row ∧ SameRestorable before row) ∧
    ∃ redone redoneOutcome, undoInPlaceEdit env undone id caller false redoAt = .ok (redone, redoneOutcome) ∧
      ∃ row, redone.memories.find id = some row ∧ SameRestorable edited row

/-- The caller owns the row before and after the edit, and the hook lets both undos write. -/
structure UndoAllowed (id : String) (caller : Option String) (before edited : Memory)
    (undoAt : env.chrono.Instant) : Prop where
  owned : undoDenied id caller edited (some before) = none
  undo : env.governancePreWrite (governedRow (undoPatch before) edited) = none
  redo : env.governancePreWrite
    (governedRow (undoPatch edited) (undoneRow before edited (env.chrono.toRfc3339 undoAt))) = none

variable {env}

/-- The owner of a row and its snapshot also owns them in each other's place. -/
theorem undoDenied_swap {id : String} {caller : Option String} {live snapshot other : Memory}
    (owned : undoDenied id caller live (some snapshot) = none) (same : other.metadata = snapshot.metadata) :
    undoDenied id caller other (some live) = none := by
  cases caller with
  | none => rfl
  | some caller =>
      have otherOwner : ownerOf other = ownerOf snapshot := congrArg (fun metadata : Json =>
        ((metadata.get "agent_id").bind Json.asStr).getD "") same
      simp only [undoDenied, Option.bind_some, Option.any_some, decide_eq_true_eq] at owned ⊢
      split_ifs at owned with liveOwner snapshotOwner
      rw [otherOwner, if_neg snapshotOwner, if_neg liveOwner]

/-- The undo after an edit of the text is exact and reversible exactly when the patch is reversible. -/
theorem undo_exact_iff {store written : Store} {id : String} {caller : Option String} {patch : Patch}
    {expectedVersion : Option Int} {before : Memory} {now undoAt redoAt : env.chrono.Instant}
    (found : store.memories.find id = some before) (sound : checkConstraints before = none)
    (ok : updateWithExpectedVersion env store id patch expectedVersion now = .ok (written, true, true))
    (allowed : UndoAllowed env id caller before (editedRow patch before (env.chrono.toRfc3339 now)) undoAt) :
    UndoneAndRedone env written id caller undoAt redoAt before
        (editedRow patch before (env.chrono.toRfc3339 now)) ↔ Reversible patch before := by
  have edited := edited_of_update found sound ok
  obtain ⟨undone, undoOk, undoneEdit⟩ := @Edited.undo env written id _ _ caller undoAt edited allowed.owned allowed.undo
  have owned := @undoDenied_swap id caller _ _ (undoneRow before (editedRow patch before (env.chrono.toRfc3339 now))
    (env.chrono.toRfc3339 undoAt)) allowed.owned rfl
  obtain ⟨redone, redoOk, redoneEdit⟩ := @Edited.undo env undone id _ _ caller redoAt undoneEdit owned allowed.redo
  rw [← reversible_iff patch before (env.chrono.toRfc3339 now) (env.chrono.toRfc3339 undoAt)
    (env.chrono.toRfc3339 redoAt)]
  constructor
  · rintro ⟨other, _, otherOk, ⟨row, rowFound, back⟩, another, _, anotherOk, ⟨again, againFound, forth⟩⟩
    obtain ⟨rfl, _⟩ := Prod.mk.inj (Except.ok.inj (undoOk.symm.trans otherOk))
    obtain ⟨rfl, _⟩ := Prod.mk.inj (Except.ok.inj (redoOk.symm.trans anotherOk))
    obtain rfl := Option.some.inj (undoneEdit.found.symm.trans rowFound)
    obtain rfl := Option.some.inj (redoneEdit.found.symm.trans againFound)
    exact ⟨back, forth⟩
  · rintro ⟨back, forth⟩
    exact ⟨undone, _, undoOk, ⟨_, undoneEdit.found, back⟩, redone, _, redoOk, _, redoneEdit.found, forth⟩

end Exact

section Samples

def editedStore : Store :=
  { emptyStore with memories := ⟨[earlierRow], List.nodup_singleton _, List.nodup_singleton _⟩ }

/-- The patch names a new text and nothing else. -/
def textPatch : Patch where
  title := none
  content := some "new"
  tier := none
  «namespace» := none
  tags := none
  priority := none
  confidence := none
  expiresAt := none
  metadata := none
  sourceUri := none

def afterEdit (patch : Patch) : Store :=
  match updateWithExpectedVersion openWriterEnvironment editedStore "peer-id" patch none (0 : Int) with
  | .ok (written, _) => written
  | .error _ => editedStore

/-- An edit of the text alone goes back and forth. -/
theorem textEdit_undone :
    UndoneAndRedone openWriterEnvironment (afterEdit textPatch) "peer-id" none (1 : Int) (2 : Int) earlierRow
      (editedRow textPatch earlierRow (openWriterEnvironment.chrono.toRfc3339 (0 : Int))) := by
  apply (@undo_exact_iff openWriterEnvironment editedStore (afterEdit textPatch) "peer-id" none textPatch none
    earlierRow (0 : Int) (1 : Int) (2 : Int) rfl (by decide) rfl ⟨rfl, rfl, rfl⟩).mpr
  exact ⟨rfl, Iff.rfl, by decide, fun _ => rfl⟩

/-- An edit that also raises the tier keeps the raised tier after its undo. -/
theorem tierEdit_not_undone :
    updateWithExpectedVersion openWriterEnvironment editedStore "peer-id" { textPatch with tier := some .long } none
        (0 : Int) = .ok (afterEdit { textPatch with tier := some .long }, true, true) ∧
      ¬ UndoneAndRedone openWriterEnvironment (afterEdit { textPatch with tier := some .long }) "peer-id" none (1 : Int)
        (2 : Int) earlierRow (editedRow { textPatch with tier := some .long } earlierRow
          (openWriterEnvironment.chrono.toRfc3339 (0 : Int))) := by
  refine ⟨rfl, ?_⟩
  rintro ⟨undone, outcome, ok, ⟨row, found, same⟩, _⟩
  have tier : (undoInPlaceEdit openWriterEnvironment (afterEdit { textPatch with tier := some .long }) "peer-id" none
      false (1 : Int)).toOption.bind (fun result => (result.1.memories.find "peer-id").map (·.tier)) =
        some .long := rfl
  rw [ok] at tier
  simp only [Except.toOption, Option.bind_some, found, Option.map_some, same.tier] at tier
  contradiction

end Samples
end AiMemory.Storage
