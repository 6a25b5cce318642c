import AiMemory.Crdt.MetadataRegroup

/-
This file decides when three replicas merge alike in both groupings.
-/

namespace AiMemory.Crdt
open AiMemory.Library AiMemory.Machine

/-- Three replicas regroup when no value that a merge borrows from an older row is in dispute. -/
structure Regroups (first second third : Memory) : Prop where
  confidence : ¬ (second.confidence.isNan ∧ first.confidence < third.confidence)
  entityId : LoneSlotAgrees (· = ·) first.updatedAt second.updatedAt third.updatedAt
    first.entityId second.entityId third.entityId
  personaVersion : LoneSlotAgrees (· = ·) first.updatedAt second.updatedAt third.updatedAt
    first.personaVersion second.personaVersion third.personaVersion
  citations : LoneSlotAgrees (· = ·) first.updatedAt second.updatedAt third.updatedAt
    (presentCitations first.citations) (presentCitations second.citations)
    (presentCitations third.citations)
  sourceUri : LoneSlotAgrees (· = ·) first.updatedAt second.updatedAt third.updatedAt
    first.sourceUri second.sourceUri third.sourceUri
  sourceSpan : LoneSlotAgrees (· = ·) first.updatedAt second.updatedAt third.updatedAt
    first.sourceSpan second.sourceSpan third.sourceSpan
  confidenceSignals : LoneSlotAgrees (· = ·) first.updatedAt second.updatedAt third.updatedAt
    first.confidenceSignals second.confidenceSignals third.confidenceSignals
  confidenceDecayedAt : LoneSlotAgrees (· = ·) first.updatedAt second.updatedAt third.updatedAt
    first.confidenceDecayedAt second.confidenceDecayedAt third.confidenceDecayedAt
  metadata : MetadataRegroups first.updatedAt second.updatedAt third.updatedAt first.metadata
    second.metadata third.metadata

section Rows

variable {first second third : Memory} (firstSecond : first.updatedAt ≠ second.updatedAt)
  (secondThird : second.updatedAt ≠ third.updatedAt) (firstThird : first.updatedAt ≠ third.updatedAt)

/-- Distinct times decide the last writer alone. -/
theorem remoteWinsLww_distinct {left right : Memory} (distinct : left.updatedAt ≠ right.updatedAt) :
    remoteWinsLww left right = decide (left.updatedAt < right.updatedAt) := by
  simp [remoteWinsLww, lwwKey, Prod.Lex.toLex_lt_toLex, distinct]

include firstSecond secondThird firstThird

/-- A family of merges decides the two groupings of three rows by their times. -/
theorem groupings_eq_iff {Value : Type*} (merge : Bool → Value → Value → Value) (x y z : Value) :
    merge (remoteWinsLww (mergeMemory first second) third)
        (merge (remoteWinsLww first second) x y) z =
      merge (remoteWinsLww first (mergeMemory second third)) x
        (merge (remoteWinsLww second third) y z) ↔
    Meets merge first.updatedAt second.updatedAt third.updatedAt x y z := by
  have inner : max first.updatedAt second.updatedAt ≠ third.updatedAt := by
    rcases max_choice first.updatedAt second.updatedAt with same | same <;> rw [same] <;> assumption
  have outer : first.updatedAt ≠ max second.updatedAt third.updatedAt := by
    rcases max_choice second.updatedAt third.updatedAt with same | same <;> rw [same] <;> assumption
  rw [← mergeMemory_updatedAt_max] at inner outer
  rw [remoteWinsLww_distinct firstSecond, remoteWinsLww_distinct secondThird,
    remoteWinsLww_distinct inner, remoteWinsLww_distinct outer, mergeMemory_updatedAt_max,
    mergeMemory_updatedAt_max, Meets]

/-- Three sides that a winner is picked from can be regrouped. -/
theorem lww_regroup {Value : Type*} (x y z : Value) :
    lww (mergeMemory first second) third (lww first second x y) z =
      lww first (mergeMemory second third) x (lww second third y z) :=
  (groupings_eq_iff firstSecond secondThird firstThird pick x y z).mpr (meets_pick _ _ _ x y z)

/-- A preferred non-null value regroups exactly when the lone slots agree. -/
theorem preferNonNullElseLww_regroup_iff {Value : Type*} (x y z : Option Value) :
    preferNonNullElseLww (mergeMemory first second) third (preferNonNullElseLww first second x y) z =
        preferNonNullElseLww first (mergeMemory second third) x
          (preferNonNullElseLww second third y z) ↔
      LoneSlotAgrees (· = ·) first.updatedAt second.updatedAt third.updatedAt x y z := by
  refine (groupings_eq_iff firstSecond secondThird firstThird
    (fun verdict => joinOption (pick verdict)) x y z).trans ?_
  exact meets_slot_iff firstSecond secondThird firstThird

/-- The citations regroup exactly when the lone slots agree. -/
theorem mergeCitations_regroup_iff :
    mergeCitations (mergeMemory first second) third = mergeCitations first (mergeMemory second third) ↔
      LoneSlotAgrees (· = ·) first.updatedAt second.updatedAt third.updatedAt
        (presentCitations first.citations) (presentCitations second.citations)
        (presentCitations third.citations) := by
  rw [← presentCitations_injective.eq_iff, presentCitations_merge, presentCitations_merge,
    mergeMemory_citations, mergeMemory_citations, presentCitations_merge, presentCitations_merge]
  exact preferNonNullElseLww_regroup_iff firstSecond secondThird firstThird _ _ _

/-- The metadata of three copies regroups exactly when its entries do. -/
theorem mergeMetadata_regroup_iff
    (sameLocal : ∀ key ∈ localKeys, first.metadata.get key = second.metadata.get key ∧
      second.metadata.get key = third.metadata.get key) :
    mergeMetadata (mergeMemory first second) third = mergeMetadata first (mergeMemory second third) ↔
      MetadataRegroups first.updatedAt second.updatedAt third.updatedAt first.metadata
        second.metadata third.metadata :=
  (groupings_eq_iff firstSecond secondThird firstThird mergeMetadataUnder first.metadata
    second.metadata third.metadata).trans
      (mergeMetadata_meets_iff firstSecond secondThird firstThird sameLocal)

omit firstSecond secondThird firstThird

theorem mergeTier_assoc (x y z : Tier) : mergeTier (mergeTier x y) z = mergeTier x (mergeTier y z) := by
  cases x <;> cases y <;> cases z <;> rfl

theorem mergeCounter_assoc (x y z : Int) :
    mergeCounter (mergeCounter x y) z = mergeCounter x (mergeCounter y z) := by
  simp only [mergeCounter, larger_eq_max, max_assoc]

theorem mergeExpiresAt_assoc (x y z : Option String) :
    mergeExpiresAt (mergeExpiresAt x y) z = mergeExpiresAt x (mergeExpiresAt y z) := by
  cases x <;> cases y <;> cases z <;> simp only [mergeExpiresAt]
  rw [larger_eq_max, larger_eq_max, larger_eq_max, larger_eq_max, max_assoc]

theorem maxOptString_assoc (x y z : Option String) :
    maxOptString (maxOptString x y) z = maxOptString x (maxOptString y z) :=
  joinOption_assoc (fun _ _ _ => by simp only [larger_eq_max, max_assoc]) x y z

/-- The largest confidence of three is grouped freely unless a missing number hides the front. -/
theorem confidence_regroup_iff (x y z : F64) :
    (mergeCounter (mergeCounter x y) z).Same (mergeCounter x (mergeCounter y z)) ↔
      ¬ (y.isNan ∧ x < z) := by
  unfold mergeCounter larger
  cases firstNan : x.isNan <;> cases secondNan : y.isNan <;> cases thirdNan : z.isNan
  all_goals
    simp only [F64.lt_iff]
    split_ifs <;> simp_all [F64.Same]
  all_goals omega

include firstSecond secondThird firstThird

/-- Two groupings of three replicas agree exactly when the replicas regroup. -/
theorem mergeMemory_assoc_iff
    (sameLocal : ∀ key ∈ localKeys, first.metadata.get key = second.metadata.get key ∧
      second.metadata.get key = third.metadata.get key) :
    Agrees (mergeMemory (mergeMemory first second) third)
        (mergeMemory first (mergeMemory second third)) ↔ Regroups first second third := by
  have onLww {Value : Type} (x y z : Value) :=
    lww_regroup firstSecond secondThird firstThird x y z
  have onOption {Value : Type} (x y z : Option Value) :=
    preferNonNullElseLww_regroup_iff firstSecond secondThird firstThird x y z
  have onCitations := mergeCitations_regroup_iff firstSecond secondThird firstThird
  have onMetadata := mergeMetadata_regroup_iff firstSecond secondThird firstThird sameLocal
  constructor
  · intro agrees
    exact {
      confidence := (confidence_regroup_iff _ _ _).mp agrees.confidence
      entityId := (onOption _ _ _).mp agrees.entityId
      personaVersion := (onOption _ _ _).mp agrees.personaVersion
      citations := onCitations.mp agrees.citations
      sourceUri := (onOption _ _ _).mp agrees.sourceUri
      sourceSpan := (onOption _ _ _).mp agrees.sourceSpan
      confidenceSignals := (onOption _ _ _).mp agrees.confidenceSignals
      confidenceDecayedAt := (onOption _ _ _).mp agrees.confidenceDecayedAt
      metadata := onMetadata.mp agrees.metadata }
  · intro regroups
    exact {
      id := rfl
      cid := rfl
      tier := by simp only [mergeMemory_tier, mergeTier_assoc]
      «namespace» := by simp only [mergeMemory_namespace, onLww]
      title := by simp only [mergeMemory_title, onLww]
      content := by simp only [mergeMemory_content, onLww]
      tags := fun tag => by simp only [mergeMemory_tags, mem_mergeTags, or_assoc]
      priority := by simp only [mergeMemory_priority, mergeCounter_assoc]
      confidence := (confidence_regroup_iff _ _ _).mpr regroups.confidence
      source := by simp only [mergeMemory_source, onLww]
      accessCount := by simp only [mergeMemory_accessCount, mergeCounter_assoc]
      createdAt := by simp only [mergeMemory_createdAt_min, min_assoc]
      updatedAt := by simp only [mergeMemory_updatedAt_max, max_assoc]
      lastAccessedAt := by simp only [mergeMemory_lastAccessedAt, maxOptString_assoc]
      expiresAt := by simp only [mergeMemory_expiresAt, mergeExpiresAt_assoc]
      metadata := onMetadata.mpr regroups.metadata
      reflectionDepth := by simp only [mergeMemory_reflectionDepth, mergeCounter_assoc]
      memoryKind := by simp only [mergeMemory_memoryKind, onLww]
      entityId := by
        simpa only [mergeMemory_entityId] using (onOption _ _ _).mpr regroups.entityId
      personaVersion := by
        simpa only [mergeMemory_personaVersion] using (onOption _ _ _).mpr regroups.personaVersion
      citations := onCitations.mpr regroups.citations
      sourceUri := by
        simpa only [mergeMemory_sourceUri] using (onOption _ _ _).mpr regroups.sourceUri
      sourceSpan := by
        simpa only [mergeMemory_sourceSpan] using (onOption _ _ _).mpr regroups.sourceSpan
      confidenceSource := by simp only [mergeMemory_confidenceSource, onLww]
      confidenceSignals := by
        simpa only [mergeMemory_confidenceSignals] using (onOption _ _ _).mpr regroups.confidenceSignals
      confidenceDecayedAt := by
        simpa only [mergeMemory_confidenceDecayedAt] using (onOption _ _ _).mpr regroups.confidenceDecayedAt
      version := by simp only [mergeMemory_version, mergeCounter_assoc]
      lifecycleState := by simp only [mergeMemory_lifecycleState, onLww] }

end Rows

/-- Three titles of different times converge in both groupings. -/
theorem titleEdits_converge :
    let first := { Memory.base "same-id" "2026-06-16T11:00:00+00:00" with title := "t1" }
    let second := { Memory.base "same-id" "2026-06-16T10:00:00+00:00" with title := "t2" }
    let third := { Memory.base "same-id" "2026-06-16T12:00:00+00:00" with title := "t3" }
    Agrees (mergeMemory (mergeMemory first second) third)
      (mergeMemory first (mergeMemory second third)) := by
  intro first second third
  refine (@mergeMemory_assoc_iff first second third (by decide) (by decide) (by decide)
    fun _ _ => ⟨rfl, rfl⟩).mpr ?_
  have absent : ∀ key, Json.empty.get key = none := fun key => by simp [Json.empty]
  have lone := fun {Value : Type} (agree : Value → Value → Prop) =>
    LoneSlotAgrees.of_none agree first.updatedAt second.updatedAt third.updatedAt
  have metadata : MetadataRegroups first.updatedAt second.updatedAt third.updatedAt
      Json.empty Json.empty Json.empty := by
    have object : Json.empty.isObject ≠ false := Bool.false_ne_true.symm
    refine ⟨fun _ _ _ => ?_, fun scalar => absurd scalar object, fun scalar => absurd scalar object,
      fun scalar => absurd scalar object⟩
    simp only [absent]
    exact ⟨lone _, fun key _ => ⟨lone _, fun x present => absurd present (Option.not_mem_none x)⟩⟩
  exact ⟨by decide, lone _, lone _, lone _, lone _, lone _, lone _, lone _, metadata⟩

/-- Three edits name two entities, and the newest edit names none. -/
def entityEdits : Memory × Memory × Memory :=
  ({ Memory.base "same-id" "2026-06-16T11:00:00+00:00" with entityId := some "later" },
    { Memory.base "same-id" "2026-06-16T10:00:00+00:00" with entityId := some "earlier" },
    Memory.base "same-id" "2026-06-16T12:00:00+00:00")

/-- The earlier entity borrows the newest time in one grouping and wins there. -/
theorem entityEdits_diverge :
    let (first, second, third) := entityEdits
    (first.id = second.id ∧ second.id = third.id) ∧ (first.cid = second.cid ∧ second.cid = third.cid) ∧
      (first.updatedAt ≠ second.updatedAt ∧ second.updatedAt ≠ third.updatedAt ∧
        first.updatedAt ≠ third.updatedAt) ∧
      (∀ key ∈ localKeys, first.metadata.get key = second.metadata.get key ∧
        second.metadata.get key = third.metadata.get key) ∧
      ¬ Agrees (mergeMemory (mergeMemory first second) third)
          (mergeMemory first (mergeMemory second third)) := by
  refine ⟨⟨rfl, rfl⟩, ⟨rfl, rfl⟩, by decide, fun _ _ => ⟨rfl, rfl⟩, fun agrees => ?_⟩
  have entity := agrees.entityId
  revert entity
  decide

end AiMemory.Crdt
