import AiMemory.Crdt.Merge

/-
This file shows that the second delivery of a row changes nothing.
-/

namespace AiMemory.Crdt
open AiMemory.Library AiMemory.Machine

namespace Json

/-- A merged value absorbs the same remote value, once a lost tiebreak stays lost. -/
theorem deepMerge_absorb {first second : Bool} (lost : first = false → second = false)
    (localJson remoteJson : Json) :
    (localJson.deepMerge remoteJson first).deepMerge remoteJson second =
      localJson.deepMerge remoteJson first := by
  induction localJson using induct_get generalizing remoteJson with
  | scalar localJson scalar =>
      have noObjects : (localJson.isObject && remoteJson.isObject) = false := by simp [scalar]
      rw [deepMerge_scalar noObjects]
      cases first with
      | true => exact deepMerge_self _ _
      | false => rw [lost rfl, pick_false, deepMerge_scalar (by simp [scalar]), pick_false]
  | object localJson object ih =>
      cases remoteObject : remoteJson.isObject with
      | false =>
          rw [deepMerge_scalar (by simp [remoteObject]), deepMerge_scalar (by simp [remoteObject])]
          exact pick_absorb lost _ _
      | true =>
          have merged := isObject_deepMerge object remoteObject first
          apply ext_get (isObject_deepMerge merged remoteObject second) merged
          intro key
          rw [get_deepMerge merged remoteObject, get_deepMerge object remoteObject]
          exact joinOption_absorb (fun value => deepMerge_self value _)
            fun left inLocal right _ => ih key left inLocal right

end Json

section Metadata

variable {first second : Bool}

/-- The winning scope absorbs the same remote scope. -/
theorem scopeSlot_absorb (lost : first = false → second = false)
    (localScope remoteScope : Option Json) :
    joinOption (pick second) (joinOption (pick first) localScope remoteScope) remoteScope =
      joinOption (pick first) localScope remoteScope :=
  joinOption_absorb (fun value => pick_self _ value) fun left _ right _ => pick_absorb lost left right

/-- A deep merge over the merged metadata stays an object and keeps the ordinary keys. -/
theorem deepMerge_mergeMetadataValues (lost : first = false → second = false)
    {localMeta remoteMeta : Json} (object : (localMeta.deepMerge remoteMeta first).isObject) :
    let merged := mergeMetadataValues localMeta remoteMeta first
    (merged.deepMerge remoteMeta second).isObject ∧
      ∀ key, OrdinaryKey key → (merged.deepMerge remoteMeta second).get key = merged.get key := by
  intro merged
  have mergedObject : merged.isObject := isObject_mergeMetadataValues.trans object
  cases remoteObject : remoteMeta.isObject with
  | true =>
      refine ⟨Json.isObject_deepMerge mergedObject remoteObject _, fun key ordinary => ?_⟩
      rw [Json.get_deepMerge mergedObject remoteObject, get_merge_ordinary object ordinary,
        ← Json.get_deepMerge object remoteObject, Json.deepMerge_absorb lost]
  | false =>
      -- a scalar remote value that won the tiebreak would be the merged value
      have kept : first = false := by
        rw [Json.deepMerge_scalar (by simp [remoteObject])] at object
        cases first with
        | false => rfl
        | true => exact absurd object (by simp [remoteObject])
      rw [Json.deepMerge_scalar (by simp [remoteObject]), lost kept, pick_false]
      exact ⟨mergedObject, fun _ _ => rfl⟩

/-- The merged metadata absorbs the same remote metadata. -/
theorem mergeMetadataValues_absorb (lost : first = false → second = false)
    (localMeta remoteMeta : Json) :
    mergeMetadataValues (mergeMetadataValues localMeta remoteMeta first) remoteMeta second =
      mergeMetadataValues localMeta remoteMeta first := by
  cases object : (localMeta.deepMerge remoteMeta first).isObject with
  | false => simp [mergeMetadataValues, object, Json.deepMerge_absorb lost localMeta remoteMeta]
  | true =>
      obtain ⟨again, ordinary⟩ := deepMerge_mergeMetadataValues lost object
      refine ext_slots (isObject_mergeMetadataValues.trans again)
        (isObject_mergeMetadataValues.trans object) ?_ ?_ ?_ ?_
      · intro key isLocal
        rw [get_merge_local again isLocal]
      · rw [get_merge_scope again, scopeWinner, get_merge_scope object]
        exact scopeSlot_absorb lost _ _
      · rw [get_merge_clock again, get_merge_clock object, versionVectorSlot,
          parseVersionVector_merge object, VectorClock.merge_absorb, ← versionVectorSlot]
      · intro key isOrdinary
        rw [get_merge_ordinary again isOrdinary, ordinary key isOrdinary]

end Metadata

section Rows

/-- The union has no unseen element of its own operands left. -/
theorem foldl_pushUnseen_absorbed {Value : Type*} [DecidableEq Value] (items out : List Value)
    (seen : ∀ item ∈ items, item ∈ out) : items.foldl pushUnseen out = out := by
  induction items with
  | nil => rfl
  | cons head rest ih =>
      rw [List.foldl_cons, pushUnseen, if_pos (seen head List.mem_cons_self)]
      exact ih fun item later => seen item (List.mem_cons_of_mem _ later)

/-- Pushing unseen items keeps a list without repetition. -/
theorem nodup_foldl_pushUnseen {Value : Type*} [DecidableEq Value] (items : List Value)
    {out : List Value} (nodup : out.Nodup) : (items.foldl pushUnseen out).Nodup := by
  induction items generalizing out with
  | nil => exact nodup
  | cons head rest ih =>
      rw [List.foldl_cons, pushUnseen]
      split_ifs with seen
      · exact ih nodup
      · exact ih (List.nodup_append.mpr ⟨nodup, List.nodup_singleton _, by grind⟩)

/-- A list without duplicates is its own union. -/
theorem foldl_pushUnseen_nodup {Value : Type*} [DecidableEq Value] (items out : List Value)
    (nodup : (out ++ items).Nodup) : items.foldl pushUnseen out = out ++ items := by
  induction items generalizing out with
  | nil => simp
  | cons head rest ih =>
      have unseen : head ∉ out := by grind [List.nodup_append]
      rw [List.foldl_cons, pushUnseen, if_neg unseen, ih _ (by simpa using nodup)]
      simp

theorem nodup_mergeTags (localTags remoteTags : List String) : (mergeTags localTags remoteTags).Nodup :=
  nodup_foldl_pushUnseen _ List.nodup_nil

/-- A union without duplicates takes nothing from tags that it has. -/
theorem mergeTags_of_subset {localTags remoteTags : List String} (nodup : localTags.Nodup)
    (seen : ∀ tag ∈ remoteTags, tag ∈ localTags) : mergeTags localTags remoteTags = localTags := by
  have itself := foldl_pushUnseen_nodup localTags [] (by simpa using nodup)
  rw [mergeTags, List.foldl_append, itself, List.nil_append]
  exact foldl_pushUnseen_absorbed _ _ seen

/-- The union absorbs the same remote tags, in order. -/
theorem mergeTags_absorb (localTags remoteTags : List String) :
    mergeTags (mergeTags localTags remoteTags) remoteTags = mergeTags localTags remoteTags :=
  mergeTags_of_subset (nodup_mergeTags localTags remoteTags) fun tag present =>
    (mem_mergeTags localTags remoteTags tag).mpr (.inr present)

/-- The rank of an attested local row survives a merge that it wins. -/
theorem attestRank_le_merge (localRow remoteRow : Memory)
    (lost : remoteWinsLww localRow remoteRow = false) :
    attestRank localRow ≤ attestRank (mergeMemory localRow remoteRow) := by
  rcases attestRank_cases localRow with floor | verified
  · rw [floor]
    exact Nat.zero_le _
  · have level := (attestRank_eq_one_iff localRow).mp verified
    have object : localRow.metadata.isObject := by
      by_contra scalar
      rw [Json.get_of_not_isObject (by simpa using scalar)] at level
      contradiction
    -- the winning local side keeps its level in the deep merge
    have merged : (localRow.metadata.deepMerge remoteRow.metadata false).isObject ∧
        (localRow.metadata.deepMerge remoteRow.metadata false).get "attest_level" =
          some (.string "agent_attested") := by
      cases remoteObject : remoteRow.metadata.isObject with
      | true =>
          refine ⟨Json.isObject_deepMerge object remoteObject _, ?_⟩
          rw [Json.get_deepMerge object remoteObject, level]
          cases remoteRow.metadata.get "attest_level" with
          | none => rfl
          | some value => rw [joinOption_some, Json.mergeUnder, Json.deepMerge_scalar rfl, pick_false]
      | false =>
          rw [Json.deepMerge_scalar (by simp [remoteObject]), pick_false]
          exact ⟨object, level⟩
    have kept : (mergeMemory localRow remoteRow).metadata.get "attest_level" =
        some (.string "agent_attested") := by
      rw [mergeMemory_metadata, mergeMetadata, lost, get_merge_ordinary merged.1 (by decide), merged.2]
    rw [verified, (attestRank_eq_one_iff _).mpr kept]

/-- A remote row that loses to the local row loses to the merged row as well. -/
theorem remoteWinsLww_merge (localRow remoteRow : Memory)
    (lost : remoteWinsLww localRow remoteRow = false) :
    remoteWinsLww (mergeMemory localRow remoteRow) remoteRow = false := by
  have below : lwwKey remoteRow ≤ lwwKey localRow := by simpa [remoteWinsLww] using lost
  have grows : lwwKey localRow ≤ lwwKey (mergeMemory localRow remoteRow) := by
    have time : (mergeMemory localRow remoteRow).updatedAt =
        max localRow.updatedAt remoteRow.updatedAt := larger_eq_max _ _
    have rank := attestRank_le_merge localRow remoteRow lost
    rw [lwwKey, lwwKey, Prod.Lex.toLex_le_toLex]
    rcases (le_max_left localRow.updatedAt remoteRow.updatedAt).lt_or_eq with less | equal
    · exact .inl (less.trans_eq time.symm)
    · refine .inr ⟨equal.trans time.symm, ?_⟩
      rw [Prod.Lex.toLex_le_toLex]
      rcases rank.lt_or_eq with lower | same
      · exact .inl lower
      · exact .inr ⟨same, le_refl _⟩
  simpa [remoteWinsLww] using below.trans grows

variable (localRow remoteRow : Memory)

/-- A second delivery of the remote row picks the same value. -/
theorem lww_absorb {Value : Type*} (left right : Value) :
    lww (mergeMemory localRow remoteRow) remoteRow (lww localRow remoteRow left right) right =
      lww localRow remoteRow left right :=
  pick_absorb (remoteWinsLww_merge localRow remoteRow) left right

/-- A second delivery of the remote row keeps the preferred value. -/
theorem preferNonNullElseLww_absorb {Value : Type*} (left right : Option Value) :
    preferNonNullElseLww (mergeMemory localRow remoteRow) remoteRow
        (preferNonNullElseLww localRow remoteRow left right) right =
      preferNonNullElseLww localRow remoteRow left right :=
  joinOption_absorb (fun value => pick_self _ value) fun first _ second _ =>
    lww_absorb localRow remoteRow first second

/-- A second delivery of the remote row keeps the citations. -/
theorem mergeCitations_absorb :
    mergeCitations (mergeMemory localRow remoteRow) remoteRow = mergeCitations localRow remoteRow := by
  apply presentCitations_injective
  have merged : presentCitations (mergeMemory localRow remoteRow).citations = _ :=
    presentCitations_merge localRow remoteRow
  rw [presentCitations_merge, presentCitations_merge, merged]
  exact preferNonNullElseLww_absorb localRow remoteRow _ _

theorem mergeTier_absorb (left right : Tier) :
    mergeTier (mergeTier left right) right = mergeTier left right := by
  cases left <;> cases right <;> rfl

theorem mergeExpiresAt_absorb (left right : Option String) :
    mergeExpiresAt (mergeExpiresAt left right) right = mergeExpiresAt left right := by
  cases left <;> cases right <;> simp only [mergeExpiresAt]
  rw [larger_absorb lt_irrefl]

/-- The second delivery of a remote row changes nothing. -/
theorem mergeMemory_absorb :
    mergeMemory (mergeMemory localRow remoteRow) remoteRow = mergeMemory localRow remoteRow := by
  have counters : ∀ left right : Int,
      mergeCounter (mergeCounter left right) right = mergeCounter left right :=
    larger_absorb Int.lt_irrefl
  apply Memory.ext
  case id => rfl
  case cid => rfl
  case tier => rw [mergeMemory_tier, mergeMemory_tier, mergeTier_absorb]
  case «namespace» => rw [mergeMemory_namespace, mergeMemory_namespace, lww_absorb]
  case title => rw [mergeMemory_title, mergeMemory_title, lww_absorb]
  case content => rw [mergeMemory_content, mergeMemory_content, lww_absorb]
  case source => rw [mergeMemory_source, mergeMemory_source, lww_absorb]
  case memoryKind => rw [mergeMemory_memoryKind, mergeMemory_memoryKind, lww_absorb]
  case confidenceSource =>
      rw [mergeMemory_confidenceSource, mergeMemory_confidenceSource, lww_absorb]
  case lifecycleState => rw [mergeMemory_lifecycleState, mergeMemory_lifecycleState, lww_absorb]
  case tags => rw [mergeMemory_tags, mergeMemory_tags, mergeTags_absorb]
  case priority => rw [mergeMemory_priority, mergeMemory_priority, counters]
  case accessCount => rw [mergeMemory_accessCount, mergeMemory_accessCount, counters]
  case reflectionDepth => rw [mergeMemory_reflectionDepth, mergeMemory_reflectionDepth, counters]
  case version => rw [mergeMemory_version, mergeMemory_version, counters]
  case confidence => exact larger_absorb F64.not_lt_self localRow.confidence remoteRow.confidence
  case createdAt =>
      simp only [mergeMemory]
      split_ifs <;> rfl
  case updatedAt => exact larger_absorb lt_irrefl localRow.updatedAt remoteRow.updatedAt
  case lastAccessedAt =>
      exact joinOption_absorb (fun value => (larger_eq_max value value).trans (max_self value))
        fun left _ right _ => larger_absorb lt_irrefl left right
  case expiresAt => rw [mergeMemory_expiresAt, mergeMemory_expiresAt, mergeExpiresAt_absorb]
  case metadata =>
      exact mergeMetadataValues_absorb (remoteWinsLww_merge localRow remoteRow) localRow.metadata
        remoteRow.metadata
  case entityId => rw [mergeMemory_entityId, mergeMemory_entityId, preferNonNullElseLww_absorb]
  case personaVersion =>
      rw [mergeMemory_personaVersion, mergeMemory_personaVersion, preferNonNullElseLww_absorb]
  case sourceUri => rw [mergeMemory_sourceUri, mergeMemory_sourceUri, preferNonNullElseLww_absorb]
  case sourceSpan =>
      rw [mergeMemory_sourceSpan, mergeMemory_sourceSpan, preferNonNullElseLww_absorb]
  case confidenceSignals =>
      rw [mergeMemory_confidenceSignals, mergeMemory_confidenceSignals, preferNonNullElseLww_absorb]
  case confidenceDecayedAt =>
      rw [mergeMemory_confidenceDecayedAt, mergeMemory_confidenceDecayedAt,
        preferNonNullElseLww_absorb]
  case citations => exact mergeCitations_absorb localRow remoteRow

end Rows
end AiMemory.Crdt
