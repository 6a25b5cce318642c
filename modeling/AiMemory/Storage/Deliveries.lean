import AiMemory.Storage.Replicas
import AiMemory.Storage.TitleCollision

/-
This file shows what one delivery does to the two nodes, and which local calls keep their copies apart in time.
-/

namespace AiMemory.Storage
open AiMemory.Crdt AiMemory.Library AiMemory.Machine

section Landing

variable (env : Environment) (now : env.chrono.Instant)

/-- The row that a delivery leaves at its receiver. -/
def landed (held : Option Memory) (row : Memory) : Memory :=
  match held with
  | none => boundRow env now row
  | some held =>
      { absorbCopy held row with expiresAt := effectiveExpiresAt env.chrono now (absorbCopy held row) }

/-- A row is filled when it needs no default life. -/
def Filled (row : Memory) : Prop := row.tier = .long ∨ row.expiresAt.isSome

variable {env now} {row held : Memory} {skewSecs : Int}

/-- A filled row keeps its expiry. -/
theorem effectiveExpiresAt_of_filled {chrono : Chrono} {now : chrono.Instant} (filled : Filled row) :
    effectiveExpiresAt chrono now row = row.expiresAt := by
  unfold effectiveExpiresAt
  cases expiry : row.expiresAt with
  | some _ => rfl
  | none =>
      have long : row.tier = .long := filled.resolve_right (by simp [expiry])
      rw [long]
      rfl

theorem filled_effectiveExpiresAt (chrono : Chrono) (now : chrono.Instant) (row : Memory) :
    row.tier = .long ∨ (effectiveExpiresAt chrono now row).isSome := by
  unfold effectiveExpiresAt
  cases row.expiresAt with
  | some _ => exact .inr rfl
  | none =>
      cases row.tier with
      | long => exact .inl rfl
      | mid => exact .inr rfl
      | short => exact .inr rfl

/-- Every landed row is filled. -/
theorem filled_landed (held : Option Memory) (row : Memory) : Filled (landed env now held row) := by
  cases held with
  | none => exact filled_effectiveExpiresAt env.chrono now (redactMemoryForStorage env.redactForStorage row)
  | some held => exact filled_effectiveExpiresAt env.chrono now (absorbCopy held row)

/-- Two filled copies of one tier merge to a filled copy. -/
theorem landed_of_filled (heldFilled : Filled held) (rowFilled : Filled row) (sameTier : row.tier = held.tier) :
    landed env now (some held) row = absorbCopy held row := by
  have filled : Filled (absorbCopy held row) := by
    have tier : (absorbCopy held row).tier = held.tier := by
      rw [absorbCopy, mergeMemory_tier, claimedCopy, sameTier, mergeTier, if_neg (Nat.lt_irrefl _)]
    have expiry : (absorbCopy held row).expiresAt = mergeExpiresAt held.expiresAt row.expiresAt := rfl
    rw [Filled, tier, expiry]
    rcases heldFilled with long | heldExpires
    · exact .inl long
    · rcases rowFilled with long | rowExpires
      · exact .inl (sameTier.symm.trans long)
      · obtain ⟨_, heldExpiry⟩ := Option.isSome_iff_exists.mp heldExpires
        obtain ⟨_, rowExpiry⟩ := Option.isSome_iff_exists.mp rowExpires
        exact .inr (by rw [heldExpiry, rowExpiry]; rfl)
  rw [landed, effectiveExpiresAt_of_filled filled]

/-- A landed row has the later stamp. -/
theorem updatedAt_landed_some : (landed env now (some held) row).updatedAt = max held.updatedAt row.updatedAt :=
  larger_eq_max _ _

/-- A landed row has the merged tier. -/
theorem tier_landed_some : (landed env now (some held) row).tier = mergeTier held.tier row.tier := rfl

/-- A landed row has the tags of both copies. -/
theorem mem_tags_landed_some (tag : String) :
    tag ∈ (landed env now (some held) row).tags ↔ tag ∈ held.tags ∨ tag ∈ row.tags := mem_mergeTags _ _ tag

/-- The later of the two copies decides the visible columns, and a tie keeps the receiver's. -/
theorem visible_landed_some (sameId : row.id = held.id) : visible (landed env now (some held) row) =
    if held.updatedAt < row.updatedAt then visible row else visible held := by
  have wins := remoteWinsLww_claimed sameId
  have columns : visible (landed env now (some held) row) =
      (lww held (claimedCopy row) held.title row.title, lww held (claimedCopy row) held.namespace row.namespace,
        lww held (claimedCopy row) held.content row.content,
        lww held (claimedCopy row) held.lifecycleState row.lifecycleState) := rfl
  rw [columns]
  simp only [lww, wins]
  split_ifs with later
  · simp only [later, decide_true, pick_true, visible]
  · simp only [later, decide_false, pick_false, visible]

/-- An unmasked row lands as it is shown. -/
theorem visible_landed_none (unmasked : Unmasked env.redactForStorage row) :
    visible (landed env now none row) = visible row := by
  obtain ⟨title, content, _⟩ := unmasked
  have columns : visible (landed env now none row) =
      ((redactMemoryForStorage env.redactForStorage row).title, row.namespace,
        (redactMemoryForStorage env.redactForStorage row).content, row.lifecycleState) := rfl
  rw [columns, title, content]
  rfl

end Landing

section Delivery

variable {env : Environment} {now : env.chrono.Instant} {row held : Memory} {skewSecs : Int} {receiver : Store}

/-- The receiver merges a timely row with its time as it stands. -/
theorem prepareInbound_timely (timely : Timely env.chrono skewSecs now row.updatedAt) :
    prepareInbound env.chrono row (env.chrono.toRfc3339 now) skewSecs = claimedCopy row := by
  rw [prepareInbound, sanitizeInboundAttestation_eq]
  unfold clampInboundUpdatedAt
  split
  · rename_i clock updated clockParses parses
    dsimp only
    rw [if_neg (by rw [timely clock clockParses updated parses]; exact Bool.false_ne_true)]
  · rfl

/-- A merge of two copies within the constraints is within them. -/
theorem checkConstraints_absorbCopy (stored : checkConstraints held = none) (inbound : checkConstraints row = none) :
    checkConstraints (absorbCopy held row) = none := by
  have same : checkConstraints (absorbCopy held row) = checkConstraints (newerWins held row) := rfl
  rw [same]
  exact checkConstraints_newerWins stored inbound

/-- A landed row keeps the constraints. -/
theorem checkConstraints_landed {held : Option Memory} (stored : ∀ copy ∈ held, checkConstraints copy = none)
    (inbound : checkConstraints row = none) : checkConstraints (landed env now held row) = none := by
  cases held with
  | none => exact inbound
  | some copy => exact checkConstraints_absorbCopy (stored copy rfl) inbound

/-- The receiver's own slot is its own, and the slot of a newer row must be. -/
theorem noClash_landed (stored : receiver.memories.find row.id = some held) (placeable : Placeable receiver row) :
    ∀ other ∈ receiver.memories.findSlot (slotOf (landed env now (some held) row)), other.id = held.id := by
  have sameId : held.id = row.id := ((receiver.memories.find_eq_some_iff _ _).mp stored).2
  have columns := @visible_landed_some env now row held sameId.symm
  split_ifs at columns with later
  · rw [Placeable, stored] at placeable
    rw [slotOf_of_visible columns, sameId]
    exact placeable later
  · rw [slotOf_of_visible columns]
    exact noClash_of_sameSlot (sameId.symm ▸ stored) rfl

/-- The overwrite of a stored row succeeds within the constraints. -/
theorem overwriteFullRowById_lands (stored : receiver.memories.find row.id = some held)
    (values : checkConstraints { row with
      expiresAt := effectiveExpiresAt env.chrono now row, cid := held.cid } = none)
    (noClash : ∀ other ∈ receiver.memories.findSlot (slotOf row), other.id = row.id) :
    ∃ archived, overwriteFullRowById env receiver row now =
      .ok { receiver with
        memories := receiver.memories.replace { row with
          expiresAt := effectiveExpiresAt env.chrono now row, cid := held.cid } noClash
        archivedMemories := archived } := by
  unfold overwriteFullRowById
  rw [stored]
  dsimp only
  rw [values]
  exact ⟨_, dif_pos noClash⟩

/-- A delivery lands, changes the copy of its row alone and leaves the gates. -/
theorem mergeInbound_lands (running : receiver.recordStop = none) (remembered : receiver.forgetTombstones = [])
    (governed : env.governancePreWrite row = none)
    (checked : ∀ held ∈ receiver.memories.find row.id, checkConstraints held = none)
    (sound : checkConstraints row = none) (timely : Timely env.chrono skewSecs now row.updatedAt)
    (placeable : Placeable receiver row)
    (unmasked : receiver.memories.find row.id = none → Unmasked env.redactForStorage row) :
    ∃ written, mergeInbound env receiver row now skewSecs = .ok (written, row.id) ∧
      written.recordStop = none ∧ written.forgetTombstones = [] ∧
      (receiver.memories.find row.id = some (landed env now (receiver.memories.find row.id) row) →
        written.memories = receiver.memories) ∧
      ∀ query, written.memories.find query =
        if query = row.id then some (landed env now (receiver.memories.find row.id) row)
        else receiver.memories.find query := by
  cases stored : receiver.memories.find row.id with
  | none =>
      have sameSlot : slotOf (boundRow env now row) = slotOf row :=
        slotOf_of_visible (@visible_landed_none env now row (unmasked stored))
      rw [Placeable, stored] at placeable
      have values : checkConstraints (boundRow env now row) = none := sound
      have freshSlot : receiver.memories.findSlot (slotOf (boundRow env now row)) = none := sameSlot ▸ placeable
      have funnel : mergeInbound env receiver row now skewSecs = upsertNewerWins receiver (boundRow env now row) := by
        unfold mergeInbound insertIfNewer
        rw [stored, running, governed, remembered]
        exact if_neg List.not_mem_nil
      refine ⟨_, funnel.trans (upsertNewerWins_free values stored freshSlot), running, remembered, ?_, ?_⟩
      · intro same
        cases same
      · exact KeyedTable.find_append receiver.memories (boundRow env now row) stored freshSlot
  | some held =>
      have sameId : held.id = row.id := ((receiver.memories.find_eq_some_iff _ _).mp stored).2
      have here : receiver.memories.find held.id = some held := sameId ▸ stored
      have values : checkConstraints (landed env now (some held) row) = none :=
        checkConstraints_landed (stored ▸ checked) sound
      have noClash := @noClash_landed env now row held receiver stored placeable
      obtain ⟨archived, overwritten⟩ :=
        @overwriteFullRowById_lands env now (absorbCopy held row) held receiver here values noClash
      have lands : mergeInbound env receiver row now skewSecs =
          .ok ({ receiver with
            memories := receiver.memories.replace (landed env now (some held) row) noClash
            archivedMemories := archived }, row.id) := by
        unfold mergeInbound
        rw [stored, prepareInbound_timely timely, ← sameId]
        show (overwriteFullRowById env receiver (absorbCopy held row) now).map _ = _
        rw [overwritten]
        rfl
      refine ⟨_, lands, running, remembered, fun same => ?_, fun query => ?_⟩
      · exact KeyedTable.replace_self (by rw [← Option.some.inj same]; exact here) noClash
      · rw [← sameId]
        exact @KeyedTable.find_replace_stored _ _ _ _ _ _ _ receiver.memories (landed env now (some held) row) held here
          noClash query

end Delivery

section Invariant

/-- The copies that the nodes hold of one row. -/
def copies (replicas : Replicas) (id : String) : Node → Option Memory := fun node => (replicas node).memories.find id

/-- Every node runs without tombstones, and two copies of a row with one time show the same columns. -/
structure Sound (replicas : Replicas) : Prop where
  running : ∀ node, (replicas node).recordStop = none
  remembered : ∀ node, (replicas node).forgetTombstones = []
  checked : ∀ id node, ∀ row ∈ copies replicas id node, checkConstraints row = none
  agree : ∀ id node, ∀ row ∈ copies replicas id node, ∀ copy ∈ copies replicas id node.other,
    row.updatedAt = copy.updatedAt → visible row = visible copy

theorem id_of_copies {replicas : Replicas} {id : String} {node : Node} {row : Memory}
    (held : copies replicas id node = some row) : row.id = id :=
  (((replicas node).memories.find_eq_some_iff _ _).mp held).2

variable {replicas : Replicas} {node : Node} {written : Store} {row : Memory} {id : String}

/-- A delivery changes the copy of its own node and row. -/
theorem copies_update (lookups : ∀ query, written.memories.find query =
      if query = id then some row else (replicas node).memories.find query) (query : String) :
    copies (Function.update replicas node written) query =
      if query = id then Function.update (copies replicas query) node (some row) else copies replicas query := by
  funext other
  unfold copies
  by_cases isNode : other = node
  · rw [isNode, Function.update_self, lookups]
    split_ifs <;> simp
  · rw [Function.update_of_ne isNode]
    split_ifs
    · rw [Function.update_of_ne isNode]
    · rfl

/-- A write of one row keeps the invariant when the row agrees with the other node's copy of it. -/
theorem Sound.write (sound : Sound replicas)
    (lookups : ∀ query, written.memories.find query =
      if query = id then some row else (replicas node).memories.find query)
    (running : written.recordStop = none) (remembered : written.forgetTombstones = [])
    (checked : checkConstraints row = none)
    (agree : ∀ copy ∈ copies replicas id node.other, row.updatedAt = copy.updatedAt → visible row = visible copy) :
    Sound (Function.update replicas node written) where
  running other := by
    by_cases isNode : other = node
    · rw [isNode, Function.update_self, running]
    · rw [Function.update_of_ne isNode, sound.running]
  remembered other := by
    by_cases isNode : other = node
    · rw [isNode, Function.update_self, remembered]
    · rw [Function.update_of_ne isNode, sound.remembered]
  checked query other stored present := by
    rw [copies_update lookups] at present
    split_ifs at present with isRow
    · by_cases isNode : other = node
      · rw [isNode, Function.update_self] at present
        rw [← Option.some.inj present]
        exact checked
      · rw [Function.update_of_ne isNode] at present
        exact sound.checked query other stored present
    · exact sound.checked query other stored present
  agree query other first firstHeld second secondHeld sameTime := by
    rw [copies_update lookups] at firstHeld secondHeld
    split_ifs at firstHeld secondHeld with isRow
    · rcases node.eq_or_eq_other other with isNode | isOther
      · rw [isNode, Function.update_self] at firstHeld
        rw [isNode, Function.update_of_ne node.other_ne, isRow] at secondHeld
        rw [← Option.some.inj firstHeld] at sameTime ⊢
        exact agree second secondHeld sameTime
      · rw [isOther, Function.update_of_ne node.other_ne, isRow] at firstHeld
        rw [isOther, Node.other_other, Function.update_self] at secondHeld
        rw [← Option.some.inj secondHeld] at sameTime ⊢
        exact (agree first firstHeld sameTime.symm).symm
    · exact sound.agree query other first firstHeld second secondHeld sameTime

end Invariant

section Steps

variable {env : Node → WriterEnvironment} {skewSecs : Int} {replicas : Replicas}

/-- An insertion writes the table of memories alone. -/
theorem fences_upsertStoreMerge {store written : Store} {row : Memory} {id : String}
    (ok : upsertStoreMerge store row = .ok (written, id)) :
    written.recordStop = store.recordStop ∧ written.forgetTombstones = store.forgetTombstones ∧
      checkConstraints row = none := by
  obtain ⟨checked, ⟨_, _, _, _, _, rfl⟩ | ⟨_, _, _, rfl⟩⟩ := upsertStoreMerge_written ok
  · exact ⟨rfl, rfl, checked⟩
  · exact ⟨rfl, rfl, checked⟩

/-- An update writes the table of memories and the archive alone. -/
theorem fences_update {env : WriterEnvironment} {store written : Store} {id : String} {patch : Patch}
    {expectedVersion : Option Int} {now : env.chrono.Instant} {answer : Bool × Bool}
    (ok : updateWithExpectedVersion env store id patch expectedVersion now = .ok (written, answer)) :
    written.recordStop = store.recordStop ∧ written.forgetTombstones = store.forgetTombstones := by
  obtain ⟨read, _, committed⟩ := bind_eq_ok.mp ok
  cases read with
  | none =>
      obtain ⟨rfl, _⟩ := Prod.mk.inj (Except.ok.inj committed)
      exact ⟨rfl, rfl⟩
  | some existing =>
      rcases commitUpdate_written committed with ⟨_, rfl, _⟩ | ⟨_, _, _, _, _, rfl⟩
      · exact ⟨rfl, rfl⟩
      · exact ⟨rfl, rfl⟩

/-- An insertion of a new identifier keeps the invariant. -/
theorem sound_insert (sound : Sound replicas) {node : Node} {row : Memory} {now : (env node).chrono.Instant}
    (admitted : Admitted env skewSecs replicas (.insert node row now))
    (apart : Apart env replicas (.insert node row now)) :
    Sound (replicaStep env skewSecs replicas (.insert node row now)) := by
  show Sound (commitAt replicas node (insert (env node) (replicas node) row now))
  cases ok : insert (env node) (replicas node) row now with
  | error _ => exact sound
  | ok answer =>
      obtain ⟨written, id⟩ := answer
      show Sound (Function.update replicas node written)
      obtain ⟨_, _, ungated⟩ := bind_eq_ok.mp ok
      obtain ⟨_, _, upserted⟩ := bind_eq_ok.mp ungated
      obtain ⟨running, remembered, checked⟩ := fences_upsertStoreMerge upserted
      have stays := running.trans (sound.running node)
      have none_forgotten := remembered.trans (sound.remembered node)
      rcases find_upsertStoreMerge upserted with ⟨existing, found, rfl, _, merged, lookups⟩ | ⟨_, rfl, lookups⟩
      · refine sound.write lookups stays none_forgotten merged fun copy held sameTime => ?_
        exact apart existing found copy held sameTime.symm
      · refine sound.write lookups stays none_forgotten checked fun copy held _ => ?_
        have absent : copies replicas row.id node.other = none := admitted node.other
        cases absent.symm.trans held

/-- An update keeps the invariant. -/
theorem sound_update (sound : Sound replicas) {node : Node} {id : String} {patch : Patch}
    {expectedVersion : Option Int} {now : (env node).chrono.Instant}
    (apart : Apart env replicas (.update node id patch expectedVersion now)) :
    Sound (replicaStep env skewSecs replicas (.update node id patch expectedVersion now)) := by
  show Sound (commitAt replicas node
    (updateWithExpectedVersion (env node) (replicas node) id patch expectedVersion now))
  cases ok : updateWithExpectedVersion (env node) (replicas node) id patch expectedVersion now with
  | error _ => exact sound
  | ok answer =>
      obtain ⟨written, found, changed⟩ := answer
      show Sound (Function.update replicas node written)
      obtain ⟨running, remembered⟩ := fences_update ok
      rcases updateWithExpectedVersion_ok ok with ⟨_, rfl⟩ | ⟨live, _, stored, _, checked, lookups, _⟩
      · rw [Function.update_eq_self]
        exact sound
      · refine sound.write lookups (running.trans (sound.running node)) (remembered.trans (sound.remembered node))
          checked fun copy held sameTime => ?_
        exact apart live stored copy held sameTime.symm

/-- The copy of the receiver after a delivery. -/
def land (env : Environment) (now : env.chrono.Instant) (sent held : Option Memory) : Option Memory :=
  match sent with
  | none => held
  | some row => some (landed env now held row)

/-- A landed row with the time of the delivered one shows its columns. -/
theorem agree_landed {env : Environment} {now : env.chrono.Instant} {held : Option Memory} {row : Memory}
    (sameId : ∀ copy ∈ held, row.id = copy.id) (unmasked : held = none → Unmasked env.redactForStorage row)
    (agree : ∀ copy ∈ held, copy.updatedAt = row.updatedAt → visible copy = visible row)
    (sameTime : (landed env now held row).updatedAt = row.updatedAt) :
    visible (landed env now held row) = visible row := by
  cases held with
  | none => exact visible_landed_none (unmasked rfl)
  | some copy =>
      rw [updatedAt_landed_some] at sameTime
      rw [visible_landed_some (sameId copy rfl)]
      split_ifs with later
      · rfl
      · exact agree copy rfl (le_antisymm (max_eq_right_iff.mp sameTime) (not_lt.mp later))

/-- A delivery lands, keeps the invariant, changes one copy and leaves a table that holds its outcome. -/
theorem deliver_spec (hooks : ∀ node row, (env node).governancePreWrite row = none) (sound : Sound replicas)
    {sender : Node} {id : String} {now : (env sender.other).chrono.Instant}
    (admitted : Admitted env skewSecs replicas (.deliver sender id now))
    (apart : Apart env replicas (.deliver sender id now)) :
    let after := replicaStep env skewSecs replicas (.deliver sender id now)
    let outcome := land (env sender.other).toEnvironment now (copies replicas id sender)
      (copies replicas id sender.other)
    Lands env skewSecs replicas (.deliver sender id now) ∧ Sound after ∧
      (outcome = copies replicas id sender.other → ∀ node, (after node).memories = (replicas node).memories) ∧
      ∀ query, copies after query =
        if query = id then Function.update (copies replicas query) sender.other outcome
        else copies replicas query := by
  intro after outcome
  cases stored : (replicas sender).memories.find id with
  | none =>
      have idle : after = replicas := by simp only [after, replicaStep, stored]
      have same : outcome = copies replicas id sender.other := by
        have sent : copies replicas id sender = none := stored
        simp only [outcome, sent, land]
      rw [idle, same]
      refine ⟨fun row held => ?_, sound, fun _ _ => rfl, fun query => ?_⟩
      · cases stored.symm.trans held
      · split_ifs with isRow
        · rw [isRow, Function.update_eq_self]
        · rfl
  | some row =>
      have rowId : row.id = id := (((replicas sender).memories.find_eq_some_iff _ _).mp stored).2
      subst rowId
      have sent : copies replicas row.id sender = some row := stored
      obtain ⟨placeable, unmasked⟩ := apart row stored
      obtain ⟨written, lands, running, remembered, still, lookups⟩ := mergeInbound_lands (sound.running sender.other)
        (sound.remembered sender.other) (hooks sender.other row) (sound.checked row.id sender.other)
        (sound.checked row.id sender row sent) (admitted row stored) placeable unmasked
      have moves : after = Function.update replicas sender.other written := by
        simp only [after, replicaStep, stored, receive, lands, commitAt]
      have same : outcome = some (landed (env sender.other).toEnvironment now
          (copies replicas row.id sender.other) row) := by
        simp only [outcome, sent, land]
      rw [moves, same]
      refine ⟨fun other held => ?_, ?_, fun unchanged node => ?_, copies_update lookups⟩
      · cases stored.symm.trans held
        exact ⟨written, lands⟩
      · refine sound.write lookups running remembered ?_ fun copy held sameTime => ?_
        · exact checkConstraints_landed (sound.checked row.id sender.other) (sound.checked row.id sender row sent)
        · rw [Node.other_other] at held
          cases sent.symm.trans held
          refine agree_landed (fun copy present => (id_of_copies present).symm) unmasked (fun copy present time => ?_)
            sameTime
          exact (sound.agree row.id sender row sent copy present time.symm).symm
      · by_cases isReceiver : node = sender.other
        · rw [isReceiver, Function.update_self]
          exact still unchanged.symm
        · rw [Function.update_of_ne isReceiver]

end Steps
end AiMemory.Storage
