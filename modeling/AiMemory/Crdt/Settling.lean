import AiMemory.Crdt.Inbound
import AiMemory.Crdt.Redelivery

/-
This file shows that two replicas of one row settle once they carry the same time.
-/

namespace AiMemory.Crdt
open AiMemory.Library AiMemory.Machine

namespace Json

/-- Two values that exchange a merge with a lost tiebreak keep what the first merge chose. -/
theorem deepMerge_exchange (localJson remoteJson : Json) :
    (localJson.deepMerge remoteJson false).deepMerge
        (remoteJson.deepMerge (localJson.deepMerge remoteJson false) false) false =
      localJson.deepMerge remoteJson false := by
  induction localJson using induct_get generalizing remoteJson with
  | scalar localJson scalar =>
      have kept (other : Json) : localJson.deepMerge other false = localJson := by
        rw [deepMerge_scalar (by simp [scalar]), pick_false]
      rw [kept, kept]
  | object localJson object ih =>
      cases remoteObject : remoteJson.isObject with
      | false =>
          have kept : localJson.deepMerge remoteJson false = localJson := by
            rw [deepMerge_scalar (by simp [remoteObject]), pick_false]
          have remoteKept : remoteJson.deepMerge localJson false = remoteJson := by
            rw [deepMerge_scalar (by simp [remoteObject]), pick_false]
          rw [kept, remoteKept, kept]
      | true =>
          have merged := isObject_deepMerge object remoteObject false
          have back := isObject_deepMerge remoteObject merged false
          apply ext_get (isObject_deepMerge merged back false) merged
          intro key
          rw [get_deepMerge merged back, get_deepMerge remoteObject merged, get_deepMerge object remoteObject]
          exact joinOption_exchange (fun value => deepMerge_self value _)
            fun left inLocal right _ => ih key left inLocal right

end Json

section Metadata

/-- The receiver's copy of a metadata value carries a bare claim where it carries a level at all. -/
def claimedMetadata (metadata : Json) : Json :=
  if (metadata.get "attest_level").isSome then
    metadata.insert "attest_level" (.string AttestLevel.claimed.asStr)
  else metadata

/-- The receiver rewrites nothing but the metadata. -/
def claimedCopy (row : Memory) : Memory := { row with metadata := claimedMetadata row.metadata }

/-- The sanitized row is the claimed copy of the row. -/
theorem sanitizeInboundAttestation_eq (row : Memory) : sanitizeInboundAttestation row = claimedCopy row := by
  unfold sanitizeInboundAttestation claimedCopy claimedMetadata
  split_ifs <;> rfl

theorem claimedMetadata_scalar {metadata : Json} (scalar : metadata.isObject = false) :
    claimedMetadata metadata = metadata := by
  rw [claimedMetadata, Json.get_of_not_isObject scalar]
  rfl

@[simp] theorem isObject_claimedMetadata (metadata : Json) :
    (claimedMetadata metadata).isObject = metadata.isObject := by
  unfold claimedMetadata
  split_ifs <;> simp

/-- The claim touches the level only. -/
theorem get_claimedMetadata_other (metadata : Json) {key : String} (other : key ≠ "attest_level") :
    (claimedMetadata metadata).get key = metadata.get key := by
  cases object : metadata.isObject with
  | false => rw [claimedMetadata_scalar object]
  | true =>
      unfold claimedMetadata
      split_ifs
      · have lookup := Json.get_put object "attest_level" (some (.string AttestLevel.claimed.asStr)) key
        rw [if_neg other] at lookup
        exact lookup
      · rfl

/-- A level that is present becomes a claimed one. -/
theorem get_claimedMetadata_level (metadata : Json) :
    (claimedMetadata metadata).get "attest_level" =
      (metadata.get "attest_level").map fun _ => .string AttestLevel.claimed.asStr := by
  cases object : metadata.isObject with
  | false =>
      rw [claimedMetadata_scalar object, Json.get_of_not_isObject object]
      rfl
  | true =>
      unfold claimedMetadata
      cases level : metadata.get "attest_level" with
      | none => simp [level]
      | some value =>
          have lookup := Json.get_put object "attest_level" (some (.string AttestLevel.claimed.asStr)) "attest_level"
          rw [if_pos rfl] at lookup
          exact lookup

/-- A scalar keeps its place under a lost tiebreak. -/
theorem mergeMetadataValues_scalar_left {localMeta : Json} (scalar : localMeta.isObject = false) (remoteMeta : Json) :
    mergeMetadataValues localMeta remoteMeta false = localMeta := by
  have merged : localMeta.deepMerge remoteMeta false = localMeta := by
    rw [Json.deepMerge_scalar (by simp [scalar]), pick_false]
  rw [mergeMetadataValues_scalar (by rw [merged, scalar]), merged]

theorem merge_itself (clock : VectorClock) : clock.merge clock = clock := by
  have absorbed := VectorClock.merge_absorb VectorClock.default clock
  rwa [VectorClock.default_merge] at absorbed

/-- Two clocks that exchange their entries keep their join. -/
theorem merge_exchange (first second : VectorClock) :
    (first.merge second).merge (second.merge (first.merge second)) = first.merge second := by
  rw [VectorClock.merge_comm second, VectorClock.merge_absorb, merge_itself]

theorem parseVersionVector_claimedMetadata (metadata : Json) :
    parseVersionVector (claimedMetadata metadata) = parseVersionVector metadata := by
  rw [parseVersionVector, get_claimedMetadata_other metadata (by decide), ← parseVersionVector]

/-- The level keeps the local value against a bare claim that comes back. -/
theorem level_exchange (localLevel remoteLevel : Option Json) :
    let claim : Option Json → Option Json := Option.map fun _ => .string AttestLevel.claimed.asStr
    let merged := joinOption (Json.mergeUnder false) localLevel (claim remoteLevel)
    joinOption (Json.mergeUnder false) merged
        (claim (joinOption (Json.mergeUnder false) remoteLevel (claim merged))) = merged := by
  intro claim merged
  cases held : merged with
  | none =>
      have absent : remoteLevel = none := by
        cases localLevel <;> cases remoteLevel <;> simp_all [claim, merged]
      rw [absent]
      rfl
  | some value =>
      cases joinOption (Json.mergeUnder false) remoteLevel (claim (some value)) with
      | none => rfl
      | some other =>
          show joinOption (Json.mergeUnder false) (some value) (some (.string AttestLevel.claimed.asStr)) = some value
          rw [joinOption_some, Json.mergeUnder, Json.deepMerge_scalar (by simp [Json.isObject]), pick_false]

/-- Two metadata values that exchange a merge with a lost tiebreak keep what the first merge chose. -/
theorem mergeMetadataValues_exchange (localMeta remoteMeta : Json) :
    let merged := mergeMetadataValues localMeta (claimedMetadata remoteMeta) false
    mergeMetadataValues merged
        (claimedMetadata (mergeMetadataValues remoteMeta (claimedMetadata merged) false)) false = merged := by
  intro merged
  cases localObject : localMeta.isObject with
  | false =>
      have kept : merged = localMeta := mergeMetadataValues_scalar_left localObject _
      rw [kept, mergeMetadataValues_scalar_left localObject]
  | true =>
      cases remoteObject : remoteMeta.isObject with
      | false =>
          rw [mergeMetadataValues_scalar_left remoteObject]
          exact mergeMetadataValues_absorb (fun lost => lost) localMeta _
      | true =>
          have claimed : (claimedMetadata remoteMeta).isObject := by rw [isObject_claimedMetadata, remoteObject]
          have first := slots_merge localObject claimed false
          have mergedObject : merged.isObject := first.object
          have back := slots_merge remoteObject ((isObject_claimedMetadata merged).trans mergedObject) false
          have backObject := back.object
          have again := slots_merge mergedObject ((isObject_claimedMetadata _).trans backObject) false
          refine ext_slots again.object mergedObject (fun key isLocal => again.local key isLocal) ?_ ?_
            fun key ordinary => ?_
          · have kept : merged.get "scope" = _ := first.scope
            rw [again.scope, get_claimedMetadata_other _ (by decide), back.scope,
              get_claimedMetadata_other _ (by decide), kept, get_claimedMetadata_other _ (by decide)]
            exact joinOption_exchange (fun value => rfl) fun left _ right _ => rfl
          · have joined : parseVersionVector merged = _ :=
              parseVersionVector_merge (Json.isObject_deepMerge localObject claimed false)
            have returned := parseVersionVector_merge
              (Json.isObject_deepMerge remoteObject ((isObject_claimedMetadata merged).trans mergedObject) false)
            have slot : merged.get "version_vector" = _ := first.clock
            rw [again.clock, slot, parseVersionVector_claimedMetadata, returned, parseVersionVector_claimedMetadata,
              joined, parseVersionVector_claimedMetadata, merge_exchange]
          · have kept : merged.get key = _ := first.ordinary key ordinary
            rw [again.ordinary key ordinary]
            by_cases isLevel : key = "attest_level"
            · subst isLevel
              rw [get_claimedMetadata_level, back.ordinary _ ordinary, get_claimedMetadata_level, kept,
                get_claimedMetadata_level]
              exact level_exchange _ _
            · rw [get_claimedMetadata_other _ isLevel, back.ordinary key ordinary,
                get_claimedMetadata_other _ isLevel, kept, get_claimedMetadata_other _ isLevel]
              exact joinOption_exchange (fun value => Json.deepMerge_self value _) fun left _ right _ =>
                Json.deepMerge_exchange left right

end Metadata

section Rows

/-- A sanitized row never wins on its level, so the time alone decides between two copies of one row. -/
theorem remoteWinsLww_claimed {localRow remoteRow : Memory} (sameId : remoteRow.id = localRow.id) :
    remoteWinsLww localRow (claimedCopy remoteRow) = decide (localRow.updatedAt < remoteRow.updatedAt) := by
  have floor : attestRank (claimedCopy remoteRow) = 0 := by
    rcases attestRank_cases (claimedCopy remoteRow) with floor | verified
    · exact floor
    · rw [attestRank_eq_one_iff, claimedCopy, get_claimedMetadata_level] at verified
      cases level : remoteRow.metadata.get "attest_level" <;> simp [level, AttestLevel.asStr] at verified
  have remoteId : (claimedCopy remoteRow).id = localRow.id := sameId
  have remoteTime : (claimedCopy remoteRow).updatedAt = remoteRow.updatedAt := rfl
  apply decide_eq_decide.mpr
  rw [lwwKey, lwwKey, Prod.Lex.toLex_lt_toLex, Prod.Lex.toLex_lt_toLex, floor, remoteId, remoteTime]
  simp

/-- The receiver's merge of a copy that it holds with one that it receives. -/
def absorbCopy (localRow remoteRow : Memory) : Memory := mergeMemory localRow (claimedCopy remoteRow)

theorem updatedAt_absorbCopy (localRow remoteRow : Memory) :
    (absorbCopy localRow remoteRow).updatedAt = larger localRow.updatedAt remoteRow.updatedAt := rfl

/-- An expiry settles after one exchange. -/
theorem mergeExpiresAt_exchange (left right : Option String) :
    mergeExpiresAt (mergeExpiresAt left right) (mergeExpiresAt right (mergeExpiresAt left right)) =
      mergeExpiresAt left right := by
  cases left <;> cases right <;> simp only [mergeExpiresAt]
  rw [larger_exchange lt_irrefl]

/-- A tier settles after one exchange. -/
theorem mergeTier_exchange (left right : Tier) :
    mergeTier (mergeTier left right) (mergeTier right (mergeTier left right)) = mergeTier left right := by
  cases left <;> cases right <;> rfl

variable {localRow remoteRow : Memory}

/-- A side that is not beaten keeps its value. -/
theorem lww_level {Value : Type*} (loses : remoteWinsLww localRow remoteRow = false) (left right : Value) :
    lww localRow remoteRow left right = left := by
  rw [lww, loses, pick_false]

/-- A side that is not beaten keeps its value where it has one. -/
theorem preferNonNullElseLww_level {Value : Type*} (loses : remoteWinsLww localRow remoteRow = false)
    (left right : Option Value) :
    preferNonNullElseLww localRow remoteRow left right = joinOption (fun value _ => value) left right := by
  cases left <;> cases right <;> simp [preferNonNullElseLww, lww_level loses]

/-- Two sides that exchange an optional value keep what the first exchange chose. -/
theorem preferNonNullElseLww_exchange {Value : Type*} {first second back returned again last : Memory}
    (loses : remoteWinsLww first second = false) (losesBack : remoteWinsLww back returned = false)
    (losesAgain : remoteWinsLww again last = false) (left right : Option Value) :
    preferNonNullElseLww again last (preferNonNullElseLww first second left right)
        (preferNonNullElseLww back returned right (preferNonNullElseLww first second left right)) =
      preferNonNullElseLww first second left right := by
  rw [preferNonNullElseLww_level loses, preferNonNullElseLww_level losesBack, preferNonNullElseLww_level losesAgain]
  exact joinOption_exchange (fun _ => rfl) fun _ _ _ _ => rfl

/-- A side that is not beaten keeps its citations where it has some. -/
theorem mergeCitations_level (loses : remoteWinsLww localRow remoteRow = false) :
    mergeCitations localRow remoteRow =
      if localRow.citations.isEmpty then remoteRow.citations else localRow.citations := by
  unfold mergeCitations
  rw [lww_level loses]
  split_ifs <;> rfl

/-- The citations settle after one exchange. -/
theorem mergeCitations_exchange {first second back returned again last : Memory}
    (loses : remoteWinsLww first second = false) (losesBack : remoteWinsLww back returned = false)
    (losesAgain : remoteWinsLww again last = false) (sameBack : back.citations = second.citations)
    (merged : returned.citations = mergeCitations first second)
    (mergedAgain : again.citations = mergeCitations first second)
    (answered : last.citations = mergeCitations back returned) :
    mergeCitations again last = mergeCitations first second := by
  rw [mergeCitations_level losesAgain, mergedAgain, answered, mergeCitations_level losesBack, merged, sameBack,
    mergeCitations_level loses]
  split_ifs <;> simp_all

/-- Two copies of one row with one time keep, after an exchange, what the first merge chose. -/
theorem absorbCopy_exchange (sameId : remoteRow.id = localRow.id)
    (sameTime : remoteRow.updatedAt = localRow.updatedAt) :
    absorbCopy (absorbCopy localRow remoteRow) (absorbCopy remoteRow (absorbCopy localRow remoteRow)) =
      absorbCopy localRow remoteRow := by
  have level (first second : Memory) (same : second.id = first.id) (time : second.updatedAt = first.updatedAt) :
      remoteWinsLww first (claimedCopy second) = false := by
    rw [remoteWinsLww_claimed same, time]
    exact decide_eq_false (lt_irrefl _)
  have mergedTime : (absorbCopy localRow remoteRow).updatedAt = localRow.updatedAt := by
    rw [updatedAt_absorbCopy, sameTime, larger_eq_max, max_self]
  have backTime : (absorbCopy remoteRow (absorbCopy localRow remoteRow)).updatedAt = localRow.updatedAt := by
    rw [updatedAt_absorbCopy, mergedTime, sameTime, larger_eq_max, max_self]
  have first := level localRow remoteRow sameId sameTime
  have back := level remoteRow (absorbCopy localRow remoteRow) sameId.symm (mergedTime.trans sameTime.symm)
  have again := level (absorbCopy localRow remoteRow) (absorbCopy remoteRow (absorbCopy localRow remoteRow)) sameId
    (backTime.trans mergedTime.symm)
  have counters : ∀ left right : Int,
      mergeCounter (mergeCounter left right) (mergeCounter right (mergeCounter left right)) =
        mergeCounter left right := larger_exchange Int.lt_irrefl
  unfold absorbCopy at back again ⊢
  apply Memory.ext
  case id => rfl
  case cid => rfl
  case tier => exact mergeTier_exchange _ _
  case «namespace» => rw [mergeMemory_namespace, lww_level again]
  case title => rw [mergeMemory_title, lww_level again]
  case content => rw [mergeMemory_content, lww_level again]
  case source => rw [mergeMemory_source, lww_level again]
  case memoryKind => rw [mergeMemory_memoryKind, lww_level again]
  case confidenceSource => rw [mergeMemory_confidenceSource, lww_level again]
  case lifecycleState => rw [mergeMemory_lifecycleState, lww_level again]
  case tags =>
      apply mergeTags_of_subset (nodup_mergeTags _ _)
      intro tag present
      rcases (mem_mergeTags _ _ tag).mp present with ofRemote | merged
      · exact (mem_mergeTags _ _ tag).mpr (.inr ofRemote)
      · exact merged
  case priority => exact counters _ _
  case accessCount => exact counters _ _
  case reflectionDepth => exact counters _ _
  case version => exact counters _ _
  case confidence => exact larger_exchange F64.not_lt_self _ _
  case createdAt =>
      have earliest (first second : Memory) :
          (mergeMemory first (claimedCopy second)).createdAt = min first.createdAt second.createdAt :=
        mergeMemory_createdAt_min first (claimedCopy second)
      simp only [earliest, min_left_comm, min_self]
  case updatedAt => exact larger_exchange lt_irrefl _ _
  case lastAccessedAt =>
      exact joinOption_exchange (fun value => (larger_eq_max value value).trans (max_self value))
        fun left _ right _ => larger_exchange lt_irrefl left right
  case expiresAt => exact mergeExpiresAt_exchange _ _
  case metadata =>
      have exchanged := mergeMetadataValues_exchange localRow.metadata remoteRow.metadata
      rw [mergeMemory_metadata, mergeMetadata, again]
      show mergeMetadataValues (mergeMetadataValues _ _ (remoteWinsLww _ _))
        (claimedMetadata (mergeMetadataValues _ (claimedMetadata (mergeMetadataValues _ _ _))
          (remoteWinsLww _ _))) false = mergeMetadataValues _ _ (remoteWinsLww _ _)
      rw [back, first]
      exact exchanged
  case entityId => exact preferNonNullElseLww_exchange first back again _ _
  case personaVersion => exact preferNonNullElseLww_exchange first back again _ _
  case sourceUri => exact preferNonNullElseLww_exchange first back again _ _
  case sourceSpan => exact preferNonNullElseLww_exchange first back again _ _
  case confidenceSignals => exact preferNonNullElseLww_exchange first back again _ _
  case confidenceDecayedAt => exact preferNonNullElseLww_exchange first back again _ _
  case citations =>
      exact mergeCitations_exchange first back again rfl rfl rfl rfl

end Rows
end AiMemory.Crdt
