import AiMemory.Crdt.Merge
import AiMemory.Machine.Chrono

/-
This file embeds the receive boundary and shows what a peer can do to local provenance.
-/

namespace AiMemory.Crdt
open AiMemory.Library AiMemory.Machine

/-- The receiver replaces a level that the peer claims for itself. -/
def sanitizeInboundAttestation (inbound : Memory) : Memory :=
  if (inbound.metadata.get "attest_level").isSome then
    { inbound with metadata :=
        inbound.metadata.insert "attest_level" (.string AttestLevel.claimed.asStr) }
  else inbound

/-- The receiver caps a time beyond its own clock and the skew; an unreadable time passes. -/
def clampInboundUpdatedAt (chrono : Chrono) (inbound : Memory) (nowRfc3339 : String)
    (skewSecs : Int) : Memory :=
  match chrono.parseFromRfc3339 nowRfc3339, chrono.parseFromRfc3339 inbound.updatedAt with
  | some now, some updated =>
      let ceiling := chrono.addSeconds now skewSecs
      if chrono.later updated ceiling then { inbound with updatedAt := chrono.toRfc3339 ceiling }
      else inbound
  | _, _ => inbound

/-- The merge receives the inbound row with a bare claim and a capped time. -/
def prepareInbound (chrono : Chrono) (inbound : Memory) (nowRfc3339 : String) (skewSecs : Int) :
    Memory :=
  clampInboundUpdatedAt chrono (sanitizeInboundAttestation inbound) nowRfc3339 skewSecs

@[simp] theorem isObject_sanitizeInboundAttestation (inbound : Memory) :
    (sanitizeInboundAttestation inbound).metadata.isObject = inbound.metadata.isObject := by
  unfold sanitizeInboundAttestation
  split_ifs <;> simp

@[simp] theorem updatedAt_sanitizeInboundAttestation (inbound : Memory) :
    (sanitizeInboundAttestation inbound).updatedAt = inbound.updatedAt := by
  unfold sanitizeInboundAttestation
  split_ifs <;> rfl

section Clamp

variable (chrono : Chrono) (inbound : Memory) (nowRfc3339 : String) (skewSecs : Int)

@[simp] theorem metadata_clampInboundUpdatedAt :
    (clampInboundUpdatedAt chrono inbound nowRfc3339 skewSecs).metadata = inbound.metadata := by
  unfold clampInboundUpdatedAt
  split
  · dsimp only
    split_ifs <;> rfl
  · rfl

/-- The cap replaces the time exactly when its instant is beyond the ceiling. -/
theorem updatedAt_clampInboundUpdatedAt {now updated : chrono.Instant}
    (nowParses : chrono.parseFromRfc3339 nowRfc3339 = some now)
    (updatedParses : chrono.parseFromRfc3339 inbound.updatedAt = some updated) :
    (clampInboundUpdatedAt chrono inbound nowRfc3339 skewSecs).updatedAt =
      if chrono.later updated (chrono.addSeconds now skewSecs) then
        chrono.toRfc3339 (chrono.addSeconds now skewSecs)
      else inbound.updatedAt := by
  simp only [clampInboundUpdatedAt, nowParses, updatedParses]
  split_ifs <;> rfl

/-- The boundary rewrites the level and the time of a row, and nothing else. -/
theorem prepareInbound_body : ∃ metadata updatedAt, prepareInbound chrono inbound nowRfc3339 skewSecs =
    { inbound with metadata := metadata, updatedAt := updatedAt } := by
  unfold prepareInbound clampInboundUpdatedAt sanitizeInboundAttestation
  split
  · dsimp only
    split_ifs <;> exact ⟨_, _, rfl⟩
  · split_ifs <;> exact ⟨_, _, rfl⟩

@[simp] theorem isObject_prepareInbound :
    (prepareInbound chrono inbound nowRfc3339 skewSecs).metadata.isObject =
      inbound.metadata.isObject := by
  simp [prepareInbound]

end Clamp

/-- The merged row has the local row's own provenance entries. -/
def KeepsProvenance (localRow merged : Memory) : Prop :=
  ∀ key ∈ localKeys, merged.metadata.get key = localRow.metadata.get key

/-- A merge loses local provenance only to a winning row without a metadata object. -/
theorem mergeMemory_keepsProvenance_iff {localRow remoteRow : Memory}
    (localObject : localRow.metadata.isObject) :
    KeepsProvenance localRow (mergeMemory localRow remoteRow) ↔
      remoteRow.metadata.isObject ∨ remoteWinsLww localRow remoteRow = false ∨
        ∀ key ∈ localKeys, localRow.metadata.get key = none := by
  unfold KeepsProvenance
  rw [mergeMemory_metadata, mergeMetadata]
  cases object : (localRow.metadata.deepMerge remoteRow.metadata
      (remoteWinsLww localRow remoteRow)).isObject with
  | true =>
      have kept : remoteRow.metadata.isObject ∨ remoteWinsLww localRow remoteRow = false := by
        by_contra lost
        rw [not_or, Bool.not_eq_true, Bool.not_eq_false] at lost
        rw [Json.deepMerge_scalar (by simp [lost.1]), lost.2, pick_true, lost.1] at object
        contradiction
      refine ⟨fun _ => kept.imp_right .inl, fun _ key isLocal => get_merge_local object isLocal⟩
  | false =>
      -- the merged value is the winning scalar, which has no entry at all
      have scalar : remoteRow.metadata.isObject = false := by
        by_contra remoteObject
        rw [Json.isObject_deepMerge localObject (by simpa using remoteObject)] at object
        contradiction
      have wins : remoteWinsLww localRow remoteRow = true := by
        by_contra lost
        rw [Json.deepMerge_scalar (by simp [scalar]), Bool.eq_false_of_not_eq_true lost, pick_false,
          localObject] at object
        contradiction
      have absent := Json.get_of_not_isObject (isObject_mergeMetadataValues.trans object)
      simp only [absent]
      simp only [scalar, wins, Bool.true_eq_false, Bool.false_eq_true, false_or]
      exact ⟨fun kept key isLocal => (kept key isLocal).symm,
        fun none key isLocal => (none key isLocal).symm⟩

/-- A prepared peer row keeps local provenance exactly when it brings an object, loses, or finds
nothing to overwrite. -/
theorem prepareInbound_keepsProvenance_iff (chrono : Chrono) (localRow inbound : Memory)
    (nowRfc3339 : String) (skewSecs : Int) (localObject : localRow.metadata.isObject) :
    KeepsProvenance localRow
        (mergeMemory localRow (prepareInbound chrono inbound nowRfc3339 skewSecs)) ↔
      inbound.metadata.isObject ∨
        remoteWinsLww localRow (prepareInbound chrono inbound nowRfc3339 skewSecs) = false ∨
        ∀ key ∈ localKeys, localRow.metadata.get key = none := by
  rw [mergeMemory_keepsProvenance_iff localObject, isObject_prepareInbound]

/-- The calendar knows the texts of one exchange. -/
def exchangeClock : Chrono :=
  Chrono.ofTable [("2026-06-16T10:00:00+00:00", 0), ("2026-06-16T10:05:00+00:00", 300),
    ("2026-06-16T10:01:00+00:00", 60)]

/-- The local row was written by its agent. -/
def attributedRow : Memory :=
  { Memory.base "same-id" "2026-06-16T10:00:00+00:00" with
    metadata := Json.empty.insert "agent_id" (.string "alice") }

/-- A peer that brings an object cannot rewrite the agent. -/
theorem objectPeer_keepsProvenance :
    KeepsProvenance attributedRow (mergeMemory attributedRow
      (prepareInbound exchangeClock
        { Memory.base "same-id" "2026-06-16T10:01:00+00:00" with
          metadata := Json.empty.insert "agent_id" (.string "mallory") }
        "2026-06-16T10:00:00+00:00" 300)) :=
  (prepareInbound_keepsProvenance_iff exchangeClock attributedRow _ _ _ rfl).mpr (.inl rfl)

/-- A newer peer row with null metadata erases the agent of the local row. -/
theorem nullPeer_erases_agent :
    let inbound := { Memory.base "same-id" "2026-06-16T10:01:00+00:00" with metadata := Json.null }
    attributedRow.metadata.isObject ∧ attributedRow.id = inbound.id ∧
      ¬ KeepsProvenance attributedRow (mergeMemory attributedRow
        (prepareInbound exchangeClock inbound "2026-06-16T10:00:00+00:00" 300)) := by
  refine ⟨rfl, rfl, fun kept => ?_⟩
  rcases (mergeMemory_keepsProvenance_iff rfl).mp kept with object | lost | absent
  · exact absurd object (by decide)
  · exact absurd lost (by decide)
  · exact absurd (absent "agent_id" (by decide)) (by simp [attributedRow, Json.insert, Json.empty])

end AiMemory.Crdt
