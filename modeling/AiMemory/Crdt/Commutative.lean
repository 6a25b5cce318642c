import AiMemory.Crdt.Merge

/-
This file decides when two replicas merge alike in both orders.
-/

namespace AiMemory.Crdt
open AiMemory.Library AiMemory.Machine

/-- Two rows agree in every field, with the tags as a set and the confidence as a number. -/
structure Agrees (left right : Memory) : Prop where
  id : left.id = right.id
  tier : left.tier = right.tier
  «namespace» : left.namespace = right.namespace
  title : left.title = right.title
  content : left.content = right.content
  tags : ∀ tag, tag ∈ left.tags ↔ tag ∈ right.tags
  priority : left.priority = right.priority
  confidence : left.confidence.Same right.confidence
  source : left.source = right.source
  accessCount : left.accessCount = right.accessCount
  createdAt : left.createdAt = right.createdAt
  updatedAt : left.updatedAt = right.updatedAt
  lastAccessedAt : left.lastAccessedAt = right.lastAccessedAt
  expiresAt : left.expiresAt = right.expiresAt
  metadata : left.metadata = right.metadata
  reflectionDepth : left.reflectionDepth = right.reflectionDepth
  memoryKind : left.memoryKind = right.memoryKind
  entityId : left.entityId = right.entityId
  personaVersion : left.personaVersion = right.personaVersion
  citations : left.citations = right.citations
  sourceUri : left.sourceUri = right.sourceUri
  sourceSpan : left.sourceSpan = right.sourceSpan
  confidenceSource : left.confidenceSource = right.confidenceSource
  confidenceSignals : left.confidenceSignals = right.confidenceSignals
  confidenceDecayedAt : left.confidenceDecayedAt = right.confidenceDecayedAt
  version : left.version = right.version
  lifecycleState : left.lifecycleState = right.lifecycleState
  cid : left.cid = right.cid

namespace Json

/-- Two objects agree on their common keys; any other pair agrees when it is equal. -/
def agree (left right : Json) : Prop :=
  match left, right with
  | .object leftKeys leftVals, .object rightKeys rightVals =>
      ∀ key (inLeft : key ∈ leftKeys) (inRight : key ∈ rightKeys),
        (leftVals ⟨key, inLeft⟩).agree (rightVals ⟨key, inRight⟩)
  | leftValue, rightValue => leftValue = rightValue

theorem agree_scalar {left right : Json} (scalar : (left.isObject && right.isObject) = false) :
    left.agree right ↔ left = right := by
  cases left <;> cases right <;>
    first | (simp [isObject] at scalar; done) | simp [agree]

/-- Two objects agree exactly when their entries coincide. -/
theorem agree_object {left right : Json} (leftObject : left.isObject)
    (rightObject : right.isObject) :
    left.agree right ↔ ∀ key, Coincide agree (left.get key) (right.get key) := by
  obtain ⟨leftKeys, leftVals, rfl⟩ := exists_of_isObject leftObject
  obtain ⟨rightKeys, rightVals, rfl⟩ := exists_of_isObject rightObject
  rw [agree]
  apply forall_congr'
  intro key
  by_cases inLeft : key ∈ leftKeys <;> by_cases inRight : key ∈ rightKeys <;>
    simp [inLeft, inRight]

/-- Equal objects are the objects with equal lookups. -/
theorem eq_iff_get {left right : Json} (leftObject : left.isObject) (rightObject : right.isObject) :
    left = right ↔ ∀ key, left.get key = right.get key :=
  ⟨fun same _ => by rw [same], ext_get leftObject rightObject⟩

/-- The opposite order under the opposite verdict merges alike. -/
theorem deepMerge_swap (left right : Json) (rightWins : Bool) :
    right.deepMerge left (!rightWins) = left.deepMerge right rightWins := by
  induction left using induct_get generalizing right with
  | scalar left scalar =>
      rw [deepMerge_scalar (by simp [scalar]), deepMerge_scalar (by simp [scalar]), pick_not]
  | object left object ih =>
      cases rightObject : right.isObject with
      | false =>
          rw [deepMerge_scalar (by simp [rightObject]), deepMerge_scalar (by simp [rightObject]),
            pick_not]
      | true =>
          refine ext_get (isObject_deepMerge rightObject object _)
            (isObject_deepMerge object rightObject _) fun key => ?_
          rw [get_deepMerge rightObject object, get_deepMerge object rightObject]
          cases inLeft : left.get key <;> cases right.get key <;> simp
          exact ih key _ inLeft _

/-- The verdict of a merge is visible exactly when its sides disagree. -/
theorem deepMerge_flip_iff (left right : Json) :
    left.deepMerge right true = left.deepMerge right false ↔ left.agree right := by
  induction left using induct_get generalizing right with
  | scalar left scalar =>
      rw [deepMerge_scalar (by simp [scalar]), deepMerge_scalar (by simp [scalar]),
        agree_scalar (by simp [scalar]), pick_true, pick_false, eq_comm]
  | object left object ih =>
      cases rightObject : right.isObject with
      | false =>
          rw [deepMerge_scalar (by simp [rightObject]), deepMerge_scalar (by simp [rightObject]),
            agree_scalar (by simp [rightObject]), pick_true, pick_false, eq_comm]
      | true =>
          rw [eq_iff_get (isObject_deepMerge object rightObject _)
            (isObject_deepMerge object rightObject _), agree_object object rightObject]
          apply forall_congr'
          intro key
          rw [get_deepMerge object rightObject, get_deepMerge object rightObject]
          cases inLeft : left.get key <;> cases right.get key <;> simp
          exact ih key _ inLeft _

end Json

/-- Tied metadata agree outside the keys with a rule of their own. -/
def MetadataAgrees (left right : Json) : Prop :=
  if left.isObject && right.isObject then
    Coincide (· = ·) (left.get "scope") (right.get "scope") ∧
      ∀ key, OrdinaryKey key → Coincide Json.agree (left.get key) (right.get key)
  else left = right

section Metadata

variable {left right : Json}

theorem versionVectorSlot_comm : versionVectorSlot left right = versionVectorSlot right left := by
  rw [versionVectorSlot, versionVectorSlot, VectorClock.merge_comm]

theorem scopeWinner_swap (rightWins : Bool) :
    scopeWinner right left (!rightWins) = scopeWinner left right rightWins := by
  unfold scopeWinner
  cases left.get "scope" <;> cases right.get "scope" <;> simp [pick_not]

/-- The opposite order under the opposite verdict merges the metadata alike. -/
theorem mergeMetadataValues_swap
    (sameLocal : ∀ key ∈ localKeys, left.get key = right.get key) (rightWins : Bool) :
    mergeMetadataValues right left (!rightWins) = mergeMetadataValues left right rightWins := by
  have swapped := Json.deepMerge_swap left right rightWins
  cases object : (left.deepMerge right rightWins).isObject with
  | false =>
      rw [mergeMetadataValues_scalar object, mergeMetadataValues_scalar (swapped ▸ object), swapped]
  | true =>
      have again : (right.deepMerge left (!rightWins)).isObject := swapped ▸ object
      refine ext_slots (isObject_mergeMetadataValues.trans again)
        (isObject_mergeMetadataValues.trans object) ?_ ?_ ?_ ?_
      · intro key isLocal
        rw [get_merge_local object isLocal, get_merge_local again isLocal, sameLocal key isLocal]
      · rw [get_merge_scope object, get_merge_scope again, scopeWinner_swap]
      · rw [get_merge_clock object, get_merge_clock again, versionVectorSlot_comm]
      · intro key ordinary
        rw [get_merge_ordinary object ordinary, get_merge_ordinary again ordinary, swapped]

/-- A merge of two objects shows its verdict exactly on the metadata that disagree. -/
theorem mergeMetadataValues_flip_object (leftObject : left.isObject) (rightObject : right.isObject) :
    mergeMetadataValues left right true = mergeMetadataValues left right false ↔
      Coincide (· = ·) (left.get "scope") (right.get "scope") ∧
        ∀ key, OrdinaryKey key → Coincide Json.agree (left.get key) (right.get key) := by
  rw [(slots_merge leftObject rightObject true).eq_iff (slots_merge leftObject rightObject false)]
  have scope : joinOption (pick true) (left.get "scope") (right.get "scope") =
      joinOption (pick false) (left.get "scope") (right.get "scope") ↔
        Coincide (· = ·) (left.get "scope") (right.get "scope") := by
    cases left.get "scope" <;> cases right.get "scope" <;> simp [eq_comm]
  have ordinary : ∀ key, joinOption (Json.mergeUnder true) (left.get key) (right.get key) =
      joinOption (Json.mergeUnder false) (left.get key) (right.get key) ↔
        Coincide Json.agree (left.get key) (right.get key) := by
    intro key
    cases left.get key <;> cases right.get key <;> simp [Json.mergeUnder, Json.deepMerge_flip_iff]
  simp only [scope, ordinary, implies_true, true_and]

/-- Without two objects the two verdicts leave the two sides. -/
theorem mergeMetadataValues_flip_scalar (scalar : (left.isObject && right.isObject) = false) :
    mergeMetadataValues left right true = mergeMetadataValues left right false ↔ left = right := by
  have rightMerged : left.deepMerge right true = right := Json.deepMerge_scalar scalar true
  have leftMerged : left.deepMerge right false = left := Json.deepMerge_scalar scalar false
  -- equal results have the shapes of both sides, so neither side is an object
  have shape : left.isObject = right.isObject → left.isObject = false := by
    intro same
    rw [same, Bool.and_self] at scalar
    exact same.trans scalar
  have plain : left.isObject = right.isObject →
      mergeMetadataValues left right true = right ∧ mergeMetadataValues left right false = left := by
    intro same
    have noObject := shape same
    rw [mergeMetadataValues_scalar (by rw [rightMerged, ← same, noObject]),
      mergeMetadataValues_scalar (by rw [leftMerged, noObject])]
    exact ⟨rightMerged, leftMerged⟩
  constructor
  · intro same
    have shapes := congrArg Json.isObject same
    rw [isObject_mergeMetadataValues, isObject_mergeMetadataValues, rightMerged, leftMerged] at shapes
    obtain ⟨onRight, onLeft⟩ := plain shapes.symm
    rw [← onLeft, ← same, onRight]
  · rintro rfl
    rw [(plain rfl).1, (plain rfl).2]

/-- The merged values do not depend on the winner exactly when the two sides agree. -/
theorem mergeMetadataValues_flip_iff :
    mergeMetadataValues left right true = mergeMetadataValues left right false ↔
      MetadataAgrees left right := by
  unfold MetadataAgrees
  split_ifs with objects
  · rw [Bool.and_eq_true] at objects
    exact mergeMetadataValues_flip_object objects.1 objects.2
  · exact mergeMetadataValues_flip_scalar (by simpa using objects)

end Metadata

/-- Tied rows agree wherever the tiebreak would decide. -/
structure TieAgrees (left right : Memory) : Prop where
  «namespace» : left.namespace = right.namespace
  title : left.title = right.title
  content : left.content = right.content
  source : left.source = right.source
  memoryKind : left.memoryKind = right.memoryKind
  confidenceSource : left.confidenceSource = right.confidenceSource
  lifecycleState : left.lifecycleState = right.lifecycleState
  entityId : Coincide (· = ·) left.entityId right.entityId
  personaVersion : Coincide (· = ·) left.personaVersion right.personaVersion
  citations : Coincide (· = ·) (presentCitations left.citations) (presentCitations right.citations)
  sourceUri : Coincide (· = ·) left.sourceUri right.sourceUri
  sourceSpan : Coincide (· = ·) left.sourceSpan right.sourceSpan
  confidenceSignals : Coincide (· = ·) left.confidenceSignals right.confidenceSignals
  confidenceDecayedAt : Coincide (· = ·) left.confidenceDecayedAt right.confidenceDecayedAt
  metadata : MetadataAgrees left.metadata right.metadata

/-- Rows of one time and one rank agree, and no confidence is compared with a missing number. -/
structure Commutes (left right : Memory) : Prop where
  confidence : left.confidence.isNan = right.confidence.isNan
  tie : left.updatedAt = right.updatedAt → attestRank left = attestRank right →
    TieAgrees left right

section Rows

variable {left right : Memory} (sameId : left.id = right.id)

theorem mergeCounter_comm (first second : Int) : mergeCounter first second = mergeCounter second first := by
  unfold mergeCounter
  rw [larger_eq_max, larger_eq_max, max_comm]

theorem mergeTier_comm (first second : Tier) : mergeTier first second = mergeTier second first := by
  cases first <;> cases second <;> rfl

theorem mergeExpiresAt_comm (first second : Option String) :
    mergeExpiresAt first second = mergeExpiresAt second first := by
  cases first <;> cases second <;> simp only [mergeExpiresAt]
  rw [larger_eq_max, larger_eq_max, max_comm]

theorem maxOptString_comm (first second : Option String) :
    maxOptString first second = maxOptString second first :=
  joinOption_comm (fun _ _ => by rw [larger_eq_max, larger_eq_max, max_comm]) first second

/-- The larger confidence is the same number exactly when both or neither is a number. -/
theorem confidence_comm_iff (first second : F64) :
    (mergeCounter first second).Same (mergeCounter second first) ↔ first.isNan = second.isNan := by
  unfold mergeCounter larger
  simp only [F64.lt_iff]
  cases leftNan : first.isNan <;> cases rightNan : second.isNan
  · rcases lt_trichotomy first.key second.key with less | equal | more
    · simp [less, less.not_gt, F64.Same]
    · simp [equal, F64.Same, leftNan, rightNan]
    · simp [more, more.not_gt, F64.Same]
  · simp [F64.Same, leftNan, rightNan]
  · simp [F64.Same, leftNan, rightNan]
  · simp [F64.Same, leftNan, rightNan]

/-- The verdicts of the two orders differ unless the keys tie. -/
theorem remoteWinsLww_swap (distinct : lwwKey left ≠ lwwKey right) :
    remoteWinsLww right left = !remoteWinsLww left right := by
  unfold remoteWinsLww
  rcases lt_or_gt_of_ne distinct with less | more
  · simp [less, less.not_gt]
  · simp [more, more.not_gt]

/-- At a tie neither side wins. -/
theorem remoteWinsLww_tie (tied : lwwKey left = lwwKey right) :
    remoteWinsLww left right = false ∧ remoteWinsLww right left = false := by
  simp [remoteWinsLww, tied]

include sameId in
theorem lwwKey_eq_iff : lwwKey left = lwwKey right ↔
    left.updatedAt = right.updatedAt ∧ attestRank left = attestRank right := by
  simp [lwwKey, sameId]

/-- A value that both orders merge under their verdicts agrees when a tie leaves it open. -/
theorem verdict_comm_iff {Value : Type*} (merge : Bool → Value → Value → Value) {agree : Prop}
    {first second : Value}
    (swap : ∀ verdict, merge (!verdict) second first = merge verdict first second)
    (flip : merge true first second = merge false first second ↔ agree) :
    merge (remoteWinsLww left right) first second = merge (remoteWinsLww right left) second first ↔
      (lwwKey left = lwwKey right → agree) := by
  by_cases tied : lwwKey left = lwwKey right
  · obtain ⟨leftLost, rightLost⟩ := remoteWinsLww_tie tied
    have swapped : merge false second first = merge true first second := swap true
    rw [leftLost, rightLost, swapped, eq_comm, flip]
    exact ⟨fun same _ => same, fun same => same tied⟩
  · rw [remoteWinsLww_swap tied, swap]
    exact ⟨fun _ same => absurd same tied, fun _ => rfl⟩

/-- A picked value does not depend on the sides exactly when a tie is between equal values. -/
theorem lww_comm_iff {Value : Type*} (first second : Value) :
    lww left right first second = lww right left second first ↔
      (lwwKey left = lwwKey right → first = second) :=
  verdict_comm_iff pick (fun verdict => pick_not verdict _ _)
    (by rw [pick_true, pick_false, eq_comm])

/-- A preferred non-null value does not depend on the sides exactly when a tie is between values that coincide. -/
theorem preferNonNullElseLww_comm_iff {Value : Type*} (first second : Option Value) :
    preferNonNullElseLww left right first second = preferNonNullElseLww right left second first ↔
      (lwwKey left = lwwKey right → Coincide (· = ·) first second) := by
  refine verdict_comm_iff (fun verdict => joinOption (pick verdict)) ?_ ?_
  · intro verdict
    cases first <;> cases second <;> simp [pick_not]
  · cases first <;> cases second <;> simp [eq_comm]

/-- The citations do not depend on the sides exactly when a tie is between citations that coincide. -/
theorem mergeCitations_comm_iff :
    mergeCitations left right = mergeCitations right left ↔ (lwwKey left = lwwKey right →
      Coincide (· = ·) (presentCitations left.citations) (presentCitations right.citations)) := by
  rw [← presentCitations_injective.eq_iff, presentCitations_merge, presentCitations_merge]
  exact preferNonNullElseLww_comm_iff _ _

/-- The metadata does not depend on the sides exactly when a tie is between metadata that agree. -/
theorem mergeMetadata_comm_iff
    (sameLocal : ∀ key ∈ localKeys, left.metadata.get key = right.metadata.get key) :
    mergeMetadata left right = mergeMetadata right left ↔
      (lwwKey left = lwwKey right → MetadataAgrees left.metadata right.metadata) :=
  verdict_comm_iff (fun verdict first second => mergeMetadataValues first second verdict)
    (mergeMetadataValues_swap sameLocal) mergeMetadataValues_flip_iff

/-- Two orders of one pair of replicas agree exactly when the pair commutes. -/
theorem mergeMemory_comm_iff (sameId : left.id = right.id) (sameCid : left.cid = right.cid)
    (sameLocal : ∀ key ∈ localKeys, left.metadata.get key = right.metadata.get key) :
    Agrees (mergeMemory left right) (mergeMemory right left) ↔ Commutes left right := by
  have tieIff := lwwKey_eq_iff sameId
  constructor
  · intro agrees
    refine ⟨(confidence_comm_iff _ _).mp agrees.confidence, fun sameTime sameRank => ?_⟩
    have tied := tieIff.mpr ⟨sameTime, sameRank⟩
    exact {
      «namespace» := (lww_comm_iff _ _).mp agrees.namespace tied
      title := (lww_comm_iff _ _).mp agrees.title tied
      content := (lww_comm_iff _ _).mp agrees.content tied
      source := (lww_comm_iff _ _).mp agrees.source tied
      memoryKind := (lww_comm_iff _ _).mp agrees.memoryKind tied
      confidenceSource := (lww_comm_iff _ _).mp agrees.confidenceSource tied
      lifecycleState := (lww_comm_iff _ _).mp agrees.lifecycleState tied
      entityId := (preferNonNullElseLww_comm_iff _ _).mp agrees.entityId tied
      personaVersion := (preferNonNullElseLww_comm_iff _ _).mp agrees.personaVersion tied
      citations := mergeCitations_comm_iff.mp agrees.citations tied
      sourceUri := (preferNonNullElseLww_comm_iff _ _).mp agrees.sourceUri tied
      sourceSpan := (preferNonNullElseLww_comm_iff _ _).mp agrees.sourceSpan tied
      confidenceSignals := (preferNonNullElseLww_comm_iff _ _).mp agrees.confidenceSignals tied
      confidenceDecayedAt := (preferNonNullElseLww_comm_iff _ _).mp agrees.confidenceDecayedAt tied
      metadata := (mergeMetadata_comm_iff sameLocal).mp agrees.metadata tied }
  · rintro ⟨confidence, tie⟩
    replace tie : lwwKey left = lwwKey right → TieAgrees left right := fun tied =>
      tie (tieIff.mp tied).1 (tieIff.mp tied).2
    exact {
      id := sameId
      cid := sameCid
      tier := mergeTier_comm _ _
      «namespace» := (lww_comm_iff _ _).mpr fun tied => (tie tied).namespace
      title := (lww_comm_iff _ _).mpr fun tied => (tie tied).title
      content := (lww_comm_iff _ _).mpr fun tied => (tie tied).content
      tags := fun tag => by simp only [mergeMemory_tags, mem_mergeTags, or_comm]
      priority := mergeCounter_comm _ _
      confidence := (confidence_comm_iff _ _).mpr confidence
      source := (lww_comm_iff _ _).mpr fun tied => (tie tied).source
      accessCount := mergeCounter_comm _ _
      createdAt := by simp only [mergeMemory_createdAt_min, min_comm]
      updatedAt := by simp only [mergeMemory_updatedAt_max, max_comm]
      lastAccessedAt := maxOptString_comm _ _
      expiresAt := mergeExpiresAt_comm _ _
      metadata := (mergeMetadata_comm_iff sameLocal).mpr fun tied => (tie tied).metadata
      reflectionDepth := mergeCounter_comm _ _
      memoryKind := (lww_comm_iff _ _).mpr fun tied => (tie tied).memoryKind
      entityId := (preferNonNullElseLww_comm_iff _ _).mpr fun tied => (tie tied).entityId
      personaVersion := (preferNonNullElseLww_comm_iff _ _).mpr fun tied => (tie tied).personaVersion
      citations := mergeCitations_comm_iff.mpr fun tied => (tie tied).citations
      sourceUri := (preferNonNullElseLww_comm_iff _ _).mpr fun tied => (tie tied).sourceUri
      sourceSpan := (preferNonNullElseLww_comm_iff _ _).mpr fun tied => (tie tied).sourceSpan
      confidenceSource := (lww_comm_iff _ _).mpr fun tied => (tie tied).confidenceSource
      confidenceSignals :=
        (preferNonNullElseLww_comm_iff _ _).mpr fun tied => (tie tied).confidenceSignals
      confidenceDecayedAt :=
        (preferNonNullElseLww_comm_iff _ _).mpr fun tied => (tie tied).confidenceDecayedAt
      version := mergeCounter_comm _ _
      lifecycleState := (lww_comm_iff _ _).mpr fun tied => (tie tied).lifecycleState }

end Rows

/-- Edits of different times converge to the later title in both orders. -/
theorem laterEdit_converges :
    let row := Memory.base "same-id" "2026-06-16T10:00:00+00:00"
    let edit := { Memory.base "same-id" "2026-06-16T11:00:00+00:00" with title := "t2" }
    Agrees (mergeMemory row edit) (mergeMemory edit row) := by
  intro row edit
  refine (@mergeMemory_comm_iff row edit rfl rfl fun _ _ => rfl).mpr ⟨rfl, fun sameTime => ?_⟩
  exact absurd sameTime (by decide)

/-- Two edits of one row carry one time and different titles. -/
def tiedEdits : Memory × Memory :=
  let row := Memory.base "same-id" "2026-06-16T10:00:00+00:00"
  ({ row with title := "t1" }, { row with title := "t2" })

/-- Each side of a tie keeps its own title. -/
theorem tiedEdits_diverge :
    tiedEdits.1.id = tiedEdits.2.id ∧ tiedEdits.1.cid = tiedEdits.2.cid ∧
      (∀ key ∈ localKeys, tiedEdits.1.metadata.get key = tiedEdits.2.metadata.get key) ∧
      ¬ Agrees (mergeMemory tiedEdits.1 tiedEdits.2) (mergeMemory tiedEdits.2 tiedEdits.1) := by
  refine ⟨rfl, rfl, fun _ _ => rfl, fun agrees => ?_⟩
  have title := agrees.title
  revert title
  decide

end AiMemory.Crdt
