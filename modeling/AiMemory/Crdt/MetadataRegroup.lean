import AiMemory.Crdt.Commutative
import AiMemory.Library.ScalarFallback

/-
This file decides when three metadata values merge alike in both groupings.
-/

namespace AiMemory.Crdt
open AiMemory.Library AiMemory.Machine

namespace Json

/-- The covering object has every key of the covered one, at every depth. -/
def covers (outer inner : Json) : Prop :=
  match outer, inner with
  | .object outerKeys outerVals, .object innerKeys innerVals =>
      ∀ key (inInner : key ∈ innerKeys), ∃ inOuter : key ∈ outerKeys,
        (outerVals ⟨key, inOuter⟩).covers (innerVals ⟨key, inInner⟩)
  | _, _ => True

/-- A slot covers another when it is present with a covering value. -/
def SlotCovers (outer inner : Option Json) : Prop :=
  ∀ innerValue ∈ inner, ∃ outerValue ∈ outer, outerValue.covers innerValue

/-- A losing slot leaves no trace exactly when the winning slot covers it. -/
theorem joinOption_eq_left_iff {left right : Option Json}
    (values : ∀ value ∈ left, ∀ other, value.deepMerge other false = value ↔ value.covers other) :
    joinOption (mergeUnder false) left right = left ↔ SlotCovers left right := by
  cases left with
  | none => cases right <;> simp [SlotCovers]
  | some value =>
      cases right with
      | none => simp [SlotCovers]
      | some other => simpa [SlotCovers, mergeUnder] using values value rfl other

theorem covers_scalar {outer inner : Json} (scalar : (outer.isObject && inner.isObject) = false) :
    outer.covers inner := by
  cases outer <;> cases inner <;>
    first | (simp [isObject] at scalar; done) | simp [covers]

/-- One object covers another exactly when its entries do. -/
theorem covers_object {outer inner : Json} (outerObject : outer.isObject)
    (innerObject : inner.isObject) :
    outer.covers inner ↔ ∀ key, SlotCovers (outer.get key) (inner.get key) := by
  obtain ⟨outerKeys, outerVals, rfl⟩ := exists_of_isObject outerObject
  obtain ⟨innerKeys, innerVals, rfl⟩ := exists_of_isObject innerObject
  rw [covers]
  apply forall_congr'
  intro key
  by_cases inOuter : key ∈ outerKeys <;> by_cases inInner : key ∈ innerKeys <;>
    simp [SlotCovers, inOuter, inInner]

/-- A losing side leaves no trace exactly when the winner covers it. -/
theorem deepMerge_false_eq_left_iff (left right : Json) :
    left.deepMerge right false = left ↔ left.covers right := by
  induction left using induct_get generalizing right with
  | scalar left scalar =>
      have noObjects : (left.isObject && right.isObject) = false := by simp [scalar]
      simp [deepMerge_scalar noObjects, covers_scalar noObjects]
  | object left object ih =>
      cases rightObject : right.isObject with
      | false =>
          have noObjects : (left.isObject && right.isObject) = false := by simp [rightObject]
          simp [deepMerge_scalar noObjects, covers_scalar noObjects]
      | true =>
          rw [eq_iff_get (isObject_deepMerge object rightObject _) object,
            covers_object object rightObject]
          apply forall_congr'
          intro key
          rw [get_deepMerge object rightObject]
          exact joinOption_eq_left_iff fun value inLeft other => ih key value inLeft other

/-- Three values regroup under their stamps. -/
def regroups (firstStamp secondStamp thirdStamp : String) (first second third : Json) : Prop :=
  match first, second, third with
  | .object firstKeys firstVals, .object secondKeys secondVals, .object thirdKeys thirdVals =>
      ∀ key, LoneSlotAgrees agree firstStamp secondStamp thirdStamp
          ((object firstKeys firstVals).get key) ((object secondKeys secondVals).get key)
          ((object thirdKeys thirdVals).get key) ∧
        ∀ (inFirst : key ∈ firstKeys) (inSecond : key ∈ secondKeys) (inThird : key ∈ thirdKeys),
          (firstVals ⟨key, inFirst⟩).regroups firstStamp secondStamp thirdStamp
            (secondVals ⟨key, inSecond⟩) (thirdVals ⟨key, inThird⟩)
  | first, second, third =>
      -- a lone scalar hides the merge of the two objects in one grouping only
      (first.isObject = false → second.isObject → third.isObject →
        secondStamp < firstStamp → firstStamp < thirdStamp → third.covers second) ∧
      (second.isObject = false → first.isObject → third.isObject →
        (firstStamp < secondStamp → secondStamp < thirdStamp → third.covers first) ∧
        (thirdStamp < secondStamp → secondStamp < firstStamp → first.covers third)) ∧
      (third.isObject = false → first.isObject → second.isObject →
        secondStamp < thirdStamp → thirdStamp < firstStamp → first.covers second)

section Regroup

variable {firstStamp secondStamp thirdStamp : String} {first second third : Json}

/-- Three objects regroup exactly when each of their slots does. -/
theorem regroups_object (firstObject : first.isObject) (secondObject : second.isObject)
    (thirdObject : third.isObject) :
    first.regroups firstStamp secondStamp thirdStamp second third ↔
      ∀ key, LoneSlotAgrees agree firstStamp secondStamp thirdStamp (first.get key)
          (second.get key) (third.get key) ∧
        ∀ x ∈ first.get key, ∀ y ∈ second.get key, ∀ z ∈ third.get key,
          x.regroups firstStamp secondStamp thirdStamp y z := by
  obtain ⟨firstKeys, firstVals, rfl⟩ := exists_of_isObject firstObject
  obtain ⟨secondKeys, secondVals, rfl⟩ := exists_of_isObject secondObject
  obtain ⟨thirdKeys, thirdVals, rfl⟩ := exists_of_isObject thirdObject
  rw [regroups]
  refine forall_congr' fun key => and_congr_right fun _ => ?_
  by_cases inFirst : key ∈ firstKeys <;> by_cases inSecond : key ∈ secondKeys <;>
    by_cases inThird : key ∈ thirdKeys <;> simp [inFirst, inSecond, inThird]

/-- Without three objects only a lone scalar can tell the groupings apart. -/
theorem regroups_scalar (scalar : (first.isObject && second.isObject && third.isObject) = false) :
    first.regroups firstStamp secondStamp thirdStamp second third ↔
      (first.isObject = false → second.isObject → third.isObject →
        secondStamp < firstStamp → firstStamp < thirdStamp → third.covers second) ∧
      (second.isObject = false → first.isObject → third.isObject →
        (firstStamp < secondStamp → secondStamp < thirdStamp → third.covers first) ∧
        (thirdStamp < secondStamp → secondStamp < firstStamp → first.covers third)) ∧
      (third.isObject = false → first.isObject → second.isObject →
        secondStamp < thirdStamp → thirdStamp < firstStamp → first.covers second) := by
  cases first <;> cases second <;> cases third <;>
    first | (simp [isObject] at scalar; done) | (rw [regroups]; simp)

/-- A winning right side is the merge exactly when it covers the left side. -/
theorem deepMerge_true_eq_right_iff (left right : Json) :
    left.deepMerge right true = right ↔ right.covers left := by
  rw [← deepMerge_false_eq_left_iff, ← deepMerge_swap left right true, Bool.not_true]

/-- The deep merge falls back to the winner unless both sides are objects. -/
theorem deepMerge_scalarFallback :
    ScalarFallback (fun _ => True) isObject id covers mergeUnder where
  valid_merge _ _ _ := trivial
  fallback _ _ scalar rightWins := deepMerge_scalar scalar rightWins
  normal_left _ _ _ := rfl
  normal_right _ _ _ := rfl
  normal_merge _ _ _ := rfl
  left_covers _ _ _ _ := deepMerge_false_eq_left_iff _ _
  right_covers _ _ _ _ := deepMerge_true_eq_right_iff _ _

/-- Two groupings of a deep merge meet exactly when the three values regroup. -/
theorem deepMerge_regroup_iff (firstSecond : firstStamp ≠ secondStamp)
    (secondThird : secondStamp ≠ thirdStamp) (firstThird : firstStamp ≠ thirdStamp)
    (first second third : Json) :
    Meets mergeUnder firstStamp secondStamp thirdStamp first second third ↔
      first.regroups firstStamp secondStamp thirdStamp second third := by
  induction first using induct_get generalizing second third with
  | scalar first scalar =>
      have lone : (first.isObject && second.isObject && third.isObject) = false := by simp [scalar]
      rw [regroups_scalar lone]
      exact deepMerge_scalarFallback.meets_scalar_iff firstSecond secondThird firstThird trivial
        trivial trivial lone
  | object first object ih =>
      cases others : second.isObject && third.isObject with
      | false =>
          have lone : (first.isObject && second.isObject && third.isObject) = false := by
            rw [Bool.and_assoc, others, Bool.and_false]
          rw [regroups_scalar lone]
          exact deepMerge_scalarFallback.meets_scalar_iff firstSecond secondThird firstThird trivial
            trivial trivial lone
      | true =>
          obtain ⟨secondObject, thirdObject⟩ := Bool.and_eq_true_iff.mp others
          have firstPair := isObject_deepMerge object secondObject
          have secondPair := isObject_deepMerge secondObject thirdObject
          rw [Meets, mergeUnder, mergeUnder, mergeUnder, mergeUnder,
            eq_iff_get (isObject_deepMerge (firstPair _) thirdObject _)
              (isObject_deepMerge object (secondPair _) _),
            regroups_object object secondObject thirdObject]
          apply forall_congr'
          intro key
          rw [get_deepMerge (firstPair _) thirdObject, get_deepMerge object secondObject,
            get_deepMerge object (secondPair _), get_deepMerge secondObject thirdObject]
          exact meets_joinOption_iff deepMerge_flip_iff firstSecond secondThird firstThird
            fun x inFirst y _ z _ => ih key x inFirst y z

end Regroup

end Json

namespace VectorClock

/-- The outer clock has seen every peer as late as the inner one. -/
def Dominates (outer inner : VectorClock) : Prop :=
  ∀ peerId, ∀ innerAt ∈ inner.latestFrom peerId, ∃ outerAt ∈ outer.latestFrom peerId,
    innerAt ≤ outerAt

/-- A merge changes nothing exactly when the outer clock dominates. -/
theorem merge_eq_left_iff (outer inner : VectorClock) :
    outer.merge inner = outer ↔ outer.Dominates inner := by
  rw [VectorClock.ext_iff]
  apply forall_congr'
  intro peerId
  rw [latestFrom_merge]
  cases outer.latestFrom peerId <;> cases inner.latestFrom peerId <;>
    simp [larger_eq_max]

end VectorClock

/-- The verdict comes first when a metadata merge is one of a family. -/
def mergeMetadataUnder (remoteWins : Bool) (localMeta remoteMeta : Json) : Json :=
  mergeMetadataValues localMeta remoteMeta remoteWins

/-- Metadata without a local key leave nothing to keep for the local row. -/
def WithoutLocalKeys (metadata : Json) : Prop := ∀ key ∈ localKeys, metadata.get key = none

/-- The winner against a scalar applies the overrides to itself. -/
def normalizeMetadata (metadata : Json) : Json := mergeMetadataValues metadata .null false

/-- Covering metadata leave no trace of the covered ones. -/
structure MetadataCovers (outer inner : Json) : Prop where
  scope : (inner.get "scope").isSome → (outer.get "scope").isSome
  clock : (parseVersionVector outer).Dominates (parseVersionVector inner)
  ordinary : ∀ key, OrdinaryKey key → Json.SlotCovers (outer.get key) (inner.get key)

section Normalize

theorem local_ne_clock {key : String} (isLocal : key ∈ localKeys) : key ≠ "version_vector" := by
  rintro rfl
  exact absurd isLocal (by decide)

variable {metadata : Json}

theorem deepMerge_null (metadata : Json) : metadata.deepMerge .null false = metadata := by
  have noObjects : (metadata.isObject && Json.null.isObject) = false := Bool.and_false _
  rw [Json.deepMerge_scalar noObjects, pick_false]

/-- The normal form of an object is an object. -/
theorem isObject_normalizeMetadata : (normalizeMetadata metadata).isObject = metadata.isObject := by
  rw [normalizeMetadata, isObject_mergeMetadataValues, deepMerge_null]

theorem normalizeMetadata_scalar (scalar : metadata.isObject = false) :
    normalizeMetadata metadata = metadata := by
  rw [normalizeMetadata, mergeMetadataValues_scalar (by rw [deepMerge_null, scalar]), deepMerge_null]

theorem parseVersionVector_normalize :
    parseVersionVector (normalizeMetadata metadata) = parseVersionVector metadata := by
  cases object : metadata.isObject with
  | false => rw [normalizeMetadata_scalar object]
  | true =>
      rw [normalizeMetadata, parseVersionVector_merge (by rw [deepMerge_null, object])]
      exact VectorClock.merge_default _

/-- The normal form rewrites the clock alone. -/
theorem get_normalizeMetadata {key : String} (notClock : key ≠ "version_vector") :
    (normalizeMetadata metadata).get key = metadata.get key := by
  cases object : metadata.isObject with
  | false => rw [normalizeMetadata_scalar object]
  | true =>
      have merged : (metadata.deepMerge .null false).isObject := by rw [deepMerge_null, object]
      rcases key_cases key with isLocal | rfl | isClock | ordinary
      · exact get_merge_local merged isLocal
      · rw [normalizeMetadata, get_merge_scope merged]
        exact joinOption_none_right _ _
      · exact absurd isClock notClock
      · rw [normalizeMetadata, get_merge_ordinary merged ordinary, deepMerge_null]

theorem get_normalizeMetadata_clock (object : metadata.isObject) :
    (normalizeMetadata metadata).get "version_vector" = clockSlot (parseVersionVector metadata) := by
  rw [normalizeMetadata, get_merge_clock (by rw [deepMerge_null, object]), versionVectorSlot]
  exact congrArg clockSlot (VectorClock.merge_default _)

/-- The normal form keeps every slot. -/
theorem slots_normalize (object : metadata.isObject) :
    Slots (normalizeMetadata metadata) metadata.get (metadata.get "scope")
      (parseVersionVector metadata) metadata.get where
  object := isObject_normalizeMetadata.trans object
  «local» key isLocal := get_normalizeMetadata (local_ne_clock isLocal)
  scope := get_normalizeMetadata (by decide)
  clock := get_normalizeMetadata_clock object
  ordinary key ordinary := get_normalizeMetadata ordinary.2.2

end Normalize

section Fallback

variable {left right : Json} {rightWins : Bool}

/-- The merged metadata are in normal form. -/
theorem normalizeMetadata_merge :
    normalizeMetadata (mergeMetadataValues left right rightWins) =
      mergeMetadataValues left right rightWins := by
  cases object : (left.deepMerge right rightWins).isObject with
  | false => exact normalizeMetadata_scalar (isObject_mergeMetadataValues.trans object)
  | true =>
      have merged := isObject_mergeMetadataValues.trans object
      apply Json.ext_get (isObject_normalizeMetadata.trans merged) merged
      intro key
      by_cases isClock : key = "version_vector"
      · rw [isClock, get_normalizeMetadata_clock merged, parseVersionVector_merge object,
          get_merge_clock object, versionVectorSlot]
      · exact get_normalizeMetadata isClock

/-- A merge brings no local key where the left side has none. -/
theorem WithoutLocalKeys.merge (leftWithout : WithoutLocalKeys left) :
    WithoutLocalKeys (mergeMetadataValues left right rightWins) := by
  intro key isLocal
  cases object : (left.deepMerge right rightWins).isObject with
  | false => exact Json.get_of_not_isObject (isObject_mergeMetadataValues.trans object) key
  | true => rw [get_merge_local object isLocal, leftWithout key isLocal]

/-- A pair with a scalar leaves the normal form of its winner. -/
theorem mergeMetadataValues_fallback (leftWithout : WithoutLocalKeys left)
    (rightWithout : WithoutLocalKeys right) (scalar : (left.isObject && right.isObject) = false) :
    mergeMetadataValues left right rightWins = normalizeMetadata (pick rightWins left right) := by
  have winner := Json.deepMerge_scalar scalar rightWins
  cases object : (pick rightWins left right).isObject with
  | false =>
      rw [mergeMetadataValues_scalar (by rw [winner, object]), normalizeMetadata_scalar object, winner]
  | true =>
      have merged : (left.deepMerge right rightWins).isObject := by rw [winner, object]
      -- the loser is a scalar, so it carries neither a scope nor a clock
      have loser : (pick rightWins right left).isObject = false := by
        cases rightWins <;> simp_all
      have scopeLoser := Json.get_of_not_isObject loser "scope"
      have clockLoser := parseVersionVector_scalar loser
      refine ext_slots (isObject_mergeMetadataValues.trans merged)
        (isObject_normalizeMetadata.trans object) ?_ ?_ ?_ ?_
      · intro key isLocal
        rw [get_merge_local merged isLocal, get_normalizeMetadata (local_ne_clock isLocal),
          leftWithout key isLocal]
        cases rightWins
        · exact (leftWithout key isLocal).symm
        · exact (rightWithout key isLocal).symm
      · rw [get_merge_scope merged, get_normalizeMetadata (by decide), scopeWinner]
        cases rightWins <;> simp_all
      · rw [get_merge_clock merged, get_normalizeMetadata_clock object, versionVectorSlot]
        cases rightWins <;> simp_all
      · intro key ordinary
        rw [get_merge_ordinary merged ordinary, get_normalizeMetadata ordinary.2.2, winner]

/-- The normal form of the left side keeps the shape and the ordinary keys of a deep merge. -/
theorem deepMerge_normalize_left (leftObject : left.isObject) (right : Json) (rightWins : Bool) :
    ((normalizeMetadata left).deepMerge right rightWins).isObject =
        (left.deepMerge right rightWins).isObject ∧
      ∀ key, OrdinaryKey key → ((normalizeMetadata left).deepMerge right rightWins).get key =
        (left.deepMerge right rightWins).get key := by
  have normalObject := isObject_normalizeMetadata.trans leftObject
  cases rightObject : right.isObject with
  | true =>
      refine ⟨?_, fun key ordinary => ?_⟩
      · rw [Json.isObject_deepMerge normalObject rightObject,
          Json.isObject_deepMerge leftObject rightObject]
      · rw [Json.get_deepMerge normalObject rightObject, Json.get_deepMerge leftObject rightObject,
          get_normalizeMetadata ordinary.2.2]
  | false =>
      have noObjects : ∀ side : Json, (side.isObject && right.isObject) = false := by
        simp [rightObject]
      rw [Json.deepMerge_scalar (noObjects _), Json.deepMerge_scalar (noObjects _)]
      cases rightWins with
      | true => exact ⟨rfl, fun _ _ => rfl⟩
      | false => exact ⟨isObject_normalizeMetadata, fun _ ordinary => get_normalizeMetadata ordinary.2.2⟩

/-- The normal form of the left side changes no merge. -/
theorem mergeMetadataValues_normalize_left :
    mergeMetadataValues (normalizeMetadata left) right rightWins =
      mergeMetadataValues left right rightWins := by
  cases leftObject : left.isObject with
  | false => rw [normalizeMetadata_scalar leftObject]
  | true =>
      obtain ⟨shape, sameOrdinary⟩ := deepMerge_normalize_left leftObject right rightWins
      cases object : (left.deepMerge right rightWins).isObject with
      | false =>
          have rightScalar : right.isObject = false := by
            by_contra rightObject
            rw [Json.isObject_deepMerge leftObject (by simpa using rightObject)] at object
            contradiction
          -- only a winning scalar on the right hides the object on the left
          have winner : ∀ side : Json, side.deepMerge right true = right := fun side =>
            Json.deepMerge_scalar (by simp [rightScalar]) true
          cases rightWins with
          | true =>
              rw [mergeMetadataValues_scalar object, mergeMetadataValues_scalar (shape.trans object),
                winner, winner]
          | false =>
              rw [Json.deepMerge_scalar (by simp [rightScalar]), pick_false, leftObject] at object
              contradiction
      | true =>
          have merged := shape.trans object
          refine ext_slots (isObject_mergeMetadataValues.trans merged)
            (isObject_mergeMetadataValues.trans object) ?_ ?_ ?_ ?_
          · intro key isLocal
            rw [get_merge_local merged isLocal, get_merge_local object isLocal,
              get_normalizeMetadata (local_ne_clock isLocal)]
          · rw [get_merge_scope merged, get_merge_scope object, scopeWinner, scopeWinner,
              get_normalizeMetadata (by decide)]
          · rw [get_merge_clock merged, get_merge_clock object, versionVectorSlot, versionVectorSlot,
              parseVersionVector_normalize]
          · intro key ordinary
            rw [get_merge_ordinary merged ordinary, get_merge_ordinary object ordinary,
              sameOrdinary key ordinary]

/-- Two rows without local keys agree on them. -/
theorem sameLocal_of_without (leftWithout : WithoutLocalKeys left)
    (rightWithout : WithoutLocalKeys right) : ∀ key ∈ localKeys, left.get key = right.get key :=
  fun key isLocal => (leftWithout key isLocal).trans (rightWithout key isLocal).symm

theorem WithoutLocalKeys.normalize (without : WithoutLocalKeys left) :
    WithoutLocalKeys (normalizeMetadata left) := without.merge

/-- A losing object leaves no trace exactly when the winner covers it. -/
theorem mergeMetadataValues_false_iff (leftObject : left.isObject) (rightObject : right.isObject) :
    mergeMetadataValues left right false = normalizeMetadata left ↔ MetadataCovers left right := by
  rw [(slots_merge leftObject rightObject false).eq_iff (slots_normalize leftObject),
    VectorClock.merge_eq_left_iff]
  have scope : joinOption (pick false) (left.get "scope") (right.get "scope") = left.get "scope" ↔
      ((right.get "scope").isSome → (left.get "scope").isSome) := by
    cases left.get "scope" <;> cases right.get "scope" <;> simp
  have ordinary : ∀ key,
      joinOption (Json.mergeUnder false) (left.get key) (right.get key) = left.get key ↔
        Json.SlotCovers (left.get key) (right.get key) := fun key =>
    Json.joinOption_eq_left_iff fun _ _ other => Json.deepMerge_false_eq_left_iff _ other
  simp only [scope, ordinary, implies_true, true_and]
  exact ⟨fun covered => ⟨covered.1, covered.2.1, covered.2.2⟩,
    fun covered => ⟨covered.scope, covered.clock, covered.ordinary⟩⟩

/-- The metadata merge falls back to the winner unless both sides are objects. -/
theorem mergeMetadata_scalarFallback :
    ScalarFallback WithoutLocalKeys Json.isObject normalizeMetadata MetadataCovers
      mergeMetadataUnder where
  valid_merge leftWithout _ _ := leftWithout.merge
  fallback leftWithout rightWithout scalar _ :=
    mergeMetadataValues_fallback leftWithout rightWithout scalar
  normal_left _ _ _ := mergeMetadataValues_normalize_left
  normal_right leftWithout rightWithout rightWins := by
    have sameLocal := sameLocal_of_without leftWithout rightWithout
    have normalLocal := sameLocal_of_without leftWithout rightWithout.normalize
    rw [mergeMetadataUnder, mergeMetadataUnder, ← mergeMetadataValues_swap sameLocal,
      ← mergeMetadataValues_swap normalLocal, mergeMetadataValues_normalize_left]
  normal_merge _ _ _ := normalizeMetadata_merge
  left_covers _ _ leftObject rightObject := mergeMetadataValues_false_iff leftObject rightObject
  right_covers leftWithout rightWithout leftObject rightObject := by
    have sameLocal := sameLocal_of_without leftWithout rightWithout
    rw [mergeMetadataUnder, ← mergeMetadataValues_swap sameLocal]
    exact mergeMetadataValues_false_iff rightObject leftObject

end Fallback

/-- Three metadata values regroup under their stamps. -/
structure MetadataRegroups (firstStamp secondStamp thirdStamp : String)
    (first second third : Json) : Prop where
  /-- Three objects regroup in the scope and in every ordinary key. -/
  objects : first.isObject → second.isObject → third.isObject →
    LoneSlotAgrees (· = ·) firstStamp secondStamp thirdStamp (first.get "scope")
        (second.get "scope") (third.get "scope") ∧
      ∀ key, OrdinaryKey key →
        LoneSlotAgrees Json.agree firstStamp secondStamp thirdStamp (first.get key)
            (second.get key) (third.get key) ∧
          ∀ x ∈ first.get key, ∀ y ∈ second.get key, ∀ z ∈ third.get key,
            x.regroups firstStamp secondStamp thirdStamp y z
  firstScalar : first.isObject = false → second.isObject → third.isObject →
    secondStamp < firstStamp → firstStamp < thirdStamp → MetadataCovers third second
  secondScalar : second.isObject = false → first.isObject → third.isObject →
    (firstStamp < secondStamp → secondStamp < thirdStamp → MetadataCovers third first) ∧
    (thirdStamp < secondStamp → secondStamp < firstStamp → MetadataCovers first third)
  thirdScalar : third.isObject = false → first.isObject → second.isObject →
    secondStamp < thirdStamp → thirdStamp < firstStamp → MetadataCovers first second

section MetadataRegroup

variable {firstStamp secondStamp thirdStamp : String} (firstSecond : firstStamp ≠ secondStamp)
  (secondThird : secondStamp ≠ thirdStamp) (firstThird : firstStamp ≠ thirdStamp)
  {first second third : Json}
include firstSecond secondThird firstThird

/-- The joined slots meet the regrouping exactly when the lone values agree. -/
theorem meets_slot_iff {Value : Type*} {x y z : Option Value} :
    Meets (fun rightWins => joinOption (pick rightWins)) firstStamp secondStamp thirdStamp x y z ↔
      LoneSlotAgrees (· = ·) firstStamp secondStamp thirdStamp x y z := by
  rw [meets_joinOption_iff (fun left right => by rw [pick_true, pick_false, eq_comm]) firstSecond
    secondThird firstThird fun u _ v _ w _ => iff_true_intro (meets_pick _ _ _ u v w)]
  simp

/-- Three metadata objects meet exactly when their slots do. -/
theorem mergeMetadata_meets_objects (firstObject : first.isObject) (secondObject : second.isObject)
    (thirdObject : third.isObject) :
    Meets mergeMetadataUnder firstStamp secondStamp thirdStamp first second third ↔
      LoneSlotAgrees (· = ·) firstStamp secondStamp thirdStamp (first.get "scope")
          (second.get "scope") (third.get "scope") ∧
        ∀ key, OrdinaryKey key →
          LoneSlotAgrees Json.agree firstStamp secondStamp thirdStamp (first.get key)
              (second.get key) (third.get key) ∧
            ∀ x ∈ first.get key, ∀ y ∈ second.get key, ∀ z ∈ third.get key,
              x.regroups firstStamp secondStamp thirdStamp y z := by
  have firstPair := fun verdict => slots_merge firstObject secondObject verdict
  have secondPair := fun verdict => slots_merge secondObject thirdObject verdict
  have left := fun inner => slots_merge (firstPair inner).object thirdObject
  have right := fun inner => slots_merge firstObject (secondPair inner).object
  have clocks := fun inner =>
    parseVersionVector_merge (Json.isObject_deepMerge firstObject secondObject inner)
  have otherClocks := fun inner =>
    parseVersionVector_merge (Json.isObject_deepMerge secondObject thirdObject inner)
  rw [Meets, mergeMetadataUnder, mergeMetadataUnder, mergeMetadataUnder, mergeMetadataUnder,
    (left _ _).eq_iff (right _ _), clocks, otherClocks, (firstPair _).scope, (secondPair _).scope]
  rw [← meets_slot_iff firstSecond secondThird firstThird]
  constructor
  · rintro ⟨_, sameScope, _, sameOrdinary⟩
    refine ⟨sameScope, fun key ordinary => ?_⟩
    rw [← meets_joinOption_iff Json.deepMerge_flip_iff firstSecond secondThird firstThird
      fun x _ y _ z _ => Json.deepMerge_regroup_iff firstSecond secondThird firstThird x y z]
    have same := sameOrdinary key ordinary
    rwa [(firstPair _).ordinary key ordinary, (secondPair _).ordinary key ordinary] at same
  · rintro ⟨sameScope, sameOrdinary⟩
    refine ⟨(firstPair _).local, sameScope, VectorClock.merge_assoc _ _ _, fun key ordinary => ?_⟩
    rw [(firstPair _).ordinary key ordinary, (secondPair _).ordinary key ordinary]
    exact (meets_joinOption_iff Json.deepMerge_flip_iff firstSecond secondThird firstThird
      fun x _ y _ z _ => Json.deepMerge_regroup_iff firstSecond secondThird firstThird x y z).mpr
        (sameOrdinary key ordinary)

omit firstSecond secondThird firstThird in
/-- A scalar among metadata with the same local keys leaves no local key anywhere. -/
theorem withoutLocalKeys_of_scalar
    (sameLocal : ∀ key ∈ localKeys, first.get key = second.get key ∧ second.get key = third.get key)
    (scalar : (first.isObject && second.isObject && third.isObject) = false) :
    WithoutLocalKeys first ∧ WithoutLocalKeys second ∧ WithoutLocalKeys third := by
  have absent : ∀ key ∈ localKeys, first.get key = none := by
    intro key isLocal
    obtain ⟨firstSame, secondSame⟩ := sameLocal key isLocal
    simp only [Bool.and_eq_false_iff] at scalar
    rcases scalar with (onFirst | onSecond) | onThird
    · exact Json.get_of_not_isObject onFirst key
    · exact firstSame.trans (Json.get_of_not_isObject onSecond key)
    · exact (firstSame.trans secondSame).trans (Json.get_of_not_isObject onThird key)
  refine ⟨absent, fun key isLocal => ?_, fun key isLocal => ?_⟩
  · rw [← (sameLocal key isLocal).1, absent key isLocal]
  · rw [← (sameLocal key isLocal).2, ← (sameLocal key isLocal).1, absent key isLocal]

/-- Three metadata values with the same local keys meet exactly when they regroup. -/
theorem mergeMetadata_meets_iff
    (sameLocal : ∀ key ∈ localKeys, first.get key = second.get key ∧ second.get key = third.get key) :
    Meets mergeMetadataUnder firstStamp secondStamp thirdStamp first second third ↔
      MetadataRegroups firstStamp secondStamp thirdStamp first second third := by
  cases objects : first.isObject && second.isObject && third.isObject with
  | true =>
      obtain ⟨⟨firstObject, secondObject⟩, thirdObject⟩ :
          (first.isObject ∧ second.isObject) ∧ third.isObject := by simpa using objects
      rw [mergeMetadata_meets_objects firstSecond secondThird firstThird firstObject secondObject
        thirdObject]
      constructor
      · intro slots
        exact ⟨fun _ _ _ => slots, by simp [firstObject], by simp [secondObject], by simp [thirdObject]⟩
      · intro regroups
        exact regroups.objects firstObject secondObject thirdObject
  | false =>
      obtain ⟨firstWithout, secondWithout, thirdWithout⟩ :=
        withoutLocalKeys_of_scalar sameLocal objects
      rw [mergeMetadata_scalarFallback.meets_scalar_iff firstSecond secondThird firstThird
        firstWithout secondWithout thirdWithout objects]
      constructor
      · rintro ⟨onFirst, onSecond, onThird⟩
        refine ⟨fun firstObject secondObject thirdObject => ?_, onFirst, onSecond, onThird⟩
        simp [firstObject, secondObject, thirdObject] at objects
      · intro regroups
        exact ⟨regroups.firstScalar, regroups.secondScalar, regroups.thirdScalar⟩

end MetadataRegroup

end AiMemory.Crdt
