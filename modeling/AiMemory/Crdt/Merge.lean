import AiMemory.Crdt.Memory
import AiMemory.Crdt.VectorClock
import Mathlib.Data.Prod.Lex
import Mathlib.Tactic.Simps.Basic

/-
This file embeds the field-wise merge of two replicas of one row.
-/

namespace AiMemory.Crdt
open AiMemory.Library AiMemory.Machine

/-- Only the verified level raises the rank of a row above the floor. -/
def attestRank (row : Memory) : Nat :=
  (if (row.metadata.get "attest_level").bind Json.asStr = some AttestLevel.agentAttested.asStr
    then AttestLevel.agentAttested else AttestLevel.claimed).rank

/-- A row has the upper rank exactly when it carries the verified level. -/
theorem attestRank_eq_one_iff (row : Memory) :
    attestRank row = 1 ↔ row.metadata.get "attest_level" = some (.string "agent_attested") := by
  unfold attestRank
  split_ifs with verified
  · simp only [AttestLevel.rank, true_iff]
    obtain ⟨level, found, text⟩ := Option.bind_eq_some_iff.mp verified
    cases level <;> simp_all [Json.asStr, AttestLevel.asStr]
  · simp only [AttestLevel.rank, zero_ne_one, false_iff]
    intro found
    exact verified (by simp [found, Json.asStr, AttestLevel.asStr])

theorem attestRank_cases (row : Memory) : attestRank row = 0 ∨ attestRank row = 1 := by
  unfold attestRank
  split_ifs <;> simp [AttestLevel.rank]

/-- The last writer has the largest time, then rank, then identifier. -/
def lwwKey (row : Memory) : String ×ₗ Nat ×ₗ String :=
  toLex (row.updatedAt, toLex (attestRank row, row.id))

def remoteWinsLww (localRow remoteRow : Memory) : Bool :=
  decide (lwwKey localRow < lwwKey remoteRow)

variable {Value : Type*}

def lww (localRow remoteRow : Memory) (localVal remoteVal : Value) : Value :=
  pick (remoteWinsLww localRow remoteRow) localVal remoteVal

/-- A present value beats absence; two present values go to the last writer. -/
def preferNonNullElseLww (localRow remoteRow : Memory) (localVal remoteVal : Option Value) :
    Option Value :=
  joinOption (lww localRow remoteRow) localVal remoteVal

/-- The counter merge keeps the larger side. -/
def mergeCounter [LT Value] [DecidableLT Value] (localVal remoteVal : Value) : Value :=
  larger localVal remoteVal

/-- The set appends an element that it has not seen. -/
def pushUnseen [DecidableEq Value] (out : List Value) (item : Value) : List Value :=
  if item ∈ out then out else out ++ [item]

/-- The union keeps the local order and appends the unseen remote tags. -/
def mergeTags (localTags remoteTags : List String) : List String :=
  (localTags ++ remoteTags).foldl pushUnseen []

def Tier.rank : Tier → Nat
  | short => 0
  | mid => 1
  | long => 2

def mergeTier (localTier remoteTier : Tier) : Tier :=
  if localTier.rank < remoteTier.rank then remoteTier else localTier

/-- A row without an expiry never expires, so absence wins. -/
def mergeExpiresAt : Option String → Option String → Option String
  | none, _ => none
  | _, none => none
  | some localAt, some remoteAt => some (larger localAt remoteAt)

/-- A present stamp beats absence, and the later of two stamps wins. -/
def maxOptString (localAt remoteAt : Option String) : Option String :=
  joinOption larger localAt remoteAt

def mergeCitations (localRow remoteRow : Memory) : List Citation :=
  if localRow.citations.isEmpty then remoteRow.citations
  else if remoteRow.citations.isEmpty then localRow.citations
  else lww localRow remoteRow localRow.citations remoteRow.citations

/-- The scope goes to the last writer among the rows that carry one. -/
def scopeWinner (localMeta remoteMeta : Json) (remoteWins : Bool) : Option Json :=
  joinOption (pick remoteWins) (localMeta.get "scope") (remoteMeta.get "scope")

/-- The empty clock leaves no key behind. -/
def clockSlot (clock : VectorClock) : Option Json :=
  if clock.entries.isEmpty then none else some clock.toValue

def versionVectorSlot (localMeta remoteMeta : Json) : Option Json :=
  clockSlot ((parseVersionVector localMeta).merge (parseVersionVector remoteMeta))

/-- The sub-rules rewrite the top-level keys of a merged object. -/
def overrideMetadata (localMeta remoteMeta : Json) (remoteWins : Bool) (merged : Json) : Json :=
  let merged := merged.put "agent_id" (localMeta.get "agent_id")
  let merged := merged.put "scope" (scopeWinner localMeta remoteMeta remoteWins)
  let merged := merged.put "governance" (localMeta.get "governance")
  let merged := merged.put "version_vector" (versionVectorSlot localMeta remoteMeta)
  ["contradiction_conserved", "contradiction_soft_loser", "contradiction_winner_id"].foldl
    (fun merged key => merged.put key (localMeta.get key)) merged

/-- The sub-rules apply only when the deep merge yields an object. -/
def mergeMetadataValues (localMeta remoteMeta : Json) (remoteWins : Bool) : Json :=
  let merged := localMeta.deepMerge remoteMeta remoteWins
  if merged.isObject then overrideMetadata localMeta remoteMeta remoteWins merged else merged

def mergeMetadata (localRow remoteRow : Memory) : Json :=
  mergeMetadataValues localRow.metadata remoteRow.metadata (remoteWinsLww localRow remoteRow)

@[simps] def mergeMemory (localRow remoteRow : Memory) : Memory where
  id := localRow.id
  cid := localRow.cid
  tier := mergeTier localRow.tier remoteRow.tier
  «namespace» := lww localRow remoteRow localRow.namespace remoteRow.namespace
  title := lww localRow remoteRow localRow.title remoteRow.title
  content := lww localRow remoteRow localRow.content remoteRow.content
  tags := mergeTags localRow.tags remoteRow.tags
  priority := mergeCounter localRow.priority remoteRow.priority
  confidence := mergeCounter localRow.confidence remoteRow.confidence
  source := lww localRow remoteRow localRow.source remoteRow.source
  accessCount := mergeCounter localRow.accessCount remoteRow.accessCount
  createdAt :=
    if remoteRow.createdAt < localRow.createdAt then remoteRow.createdAt else localRow.createdAt
  updatedAt :=
    if localRow.updatedAt < remoteRow.updatedAt then remoteRow.updatedAt else localRow.updatedAt
  lastAccessedAt := maxOptString localRow.lastAccessedAt remoteRow.lastAccessedAt
  expiresAt := mergeExpiresAt localRow.expiresAt remoteRow.expiresAt
  metadata := mergeMetadata localRow remoteRow
  reflectionDepth := mergeCounter localRow.reflectionDepth remoteRow.reflectionDepth
  memoryKind := lww localRow remoteRow localRow.memoryKind remoteRow.memoryKind
  entityId := preferNonNullElseLww localRow remoteRow localRow.entityId remoteRow.entityId
  personaVersion :=
    preferNonNullElseLww localRow remoteRow localRow.personaVersion remoteRow.personaVersion
  citations := mergeCitations localRow remoteRow
  sourceUri := preferNonNullElseLww localRow remoteRow localRow.sourceUri remoteRow.sourceUri
  sourceSpan := preferNonNullElseLww localRow remoteRow localRow.sourceSpan remoteRow.sourceSpan
  confidenceSource := lww localRow remoteRow localRow.confidenceSource remoteRow.confidenceSource
  confidenceSignals :=
    preferNonNullElseLww localRow remoteRow localRow.confidenceSignals remoteRow.confidenceSignals
  confidenceDecayedAt := preferNonNullElseLww localRow remoteRow localRow.confidenceDecayedAt
    remoteRow.confidenceDecayedAt
  version := mergeCounter localRow.version remoteRow.version
  lifecycleState := lww localRow remoteRow localRow.lifecycleState remoteRow.lifecycleState

/-- The pushed list holds the old items and the new ones. -/
theorem mem_foldl_pushUnseen {Value : Type*} [DecidableEq Value] (items out : List Value)
    (item : Value) : item ∈ items.foldl pushUnseen out ↔ item ∈ out ∨ item ∈ items := by
  induction items generalizing out with
  | nil => simp
  | cons head rest ih =>
      rw [List.foldl_cons, ih, pushUnseen]
      split_ifs with seen <;> grind

theorem mem_mergeTags (localTags remoteTags : List String) (tag : String) :
    tag ∈ mergeTags localTags remoteTags ↔ tag ∈ localTags ∨ tag ∈ remoteTags := by
  simp [mergeTags, mem_foldl_pushUnseen]

/-- The merged row carries the earlier creation. -/
theorem mergeMemory_createdAt_min (localRow remoteRow : Memory) :
    (mergeMemory localRow remoteRow).createdAt = min localRow.createdAt remoteRow.createdAt := by
  rw [mergeMemory_createdAt, min_comm, min_def_lt]

/-- The merged row carries the later update. -/
theorem mergeMemory_updatedAt_max (localRow remoteRow : Memory) :
    (mergeMemory localRow remoteRow).updatedAt = max localRow.updatedAt remoteRow.updatedAt :=
  larger_eq_max _ _

/-- An empty list of citations counts as absent. -/
def presentCitations (citations : List Citation) : Option (List Citation) :=
  if citations.isEmpty then none else some citations

theorem presentCitations_injective : Function.Injective presentCitations := by
  intro first second same
  cases first <;> cases second <;> simp_all [presentCitations]

/-- The citations merge as an optional value. -/
theorem presentCitations_merge (localRow remoteRow : Memory) :
    presentCitations (mergeCitations localRow remoteRow) =
      preferNonNullElseLww localRow remoteRow (presentCitations localRow.citations)
        (presentCitations remoteRow.citations) := by
  unfold mergeCitations preferNonNullElseLww presentCitations lww
  cases remoteWinsLww localRow remoteRow <;> cases localRow.citations <;>
    cases remoteRow.citations <;> rfl

/-- The local row keeps these metadata keys in every merge. -/
def localKeys : List String :=
  ["agent_id", "governance", "contradiction_conserved", "contradiction_soft_loser",
    "contradiction_winner_id"]

/-- No sub-rule rewrites an ordinary key. -/
def OrdinaryKey (key : String) : Prop :=
  key ∉ localKeys ∧ key ≠ "scope" ∧ key ≠ "version_vector"

instance (key : String) : Decidable (OrdinaryKey key) := inferInstanceAs (Decidable (_ ∧ _ ∧ _))

/-- Every key is a local key, the scope, the clock or an ordinary key. -/
theorem key_cases (key : String) :
    key ∈ localKeys ∨ key = "scope" ∨ key = "version_vector" ∨ OrdinaryKey key := by
  unfold OrdinaryKey
  tauto

/-- The overrides answer their own keys and keep the ordinary ones. -/
theorem get_overrideMetadata {merged : Json} (object : merged.isObject)
    (localMeta remoteMeta : Json) (remoteWins : Bool) (key : String) :
    (overrideMetadata localMeta remoteMeta remoteWins merged).get key =
      if key ∈ localKeys then localMeta.get key
      else if key = "scope" then scopeWinner localMeta remoteMeta remoteWins
      else if key = "version_vector" then versionVectorSlot localMeta remoteMeta
      else merged.get key := by
  simp only [overrideMetadata, List.foldl_cons, List.foldl_nil]
  repeat rw [Json.get_put (by simpa using object)]
  simp only [localKeys, List.mem_cons, List.not_mem_nil, or_false]
  split_ifs <;> simp_all

section MetadataSlots

variable {localMeta remoteMeta : Json} {remoteWins : Bool}

theorem isObject_mergeMetadataValues :
    (mergeMetadataValues localMeta remoteMeta remoteWins).isObject =
      (localMeta.deepMerge remoteMeta remoteWins).isObject := by
  cases object : (localMeta.deepMerge remoteMeta remoteWins).isObject <;>
    simp [mergeMetadataValues, overrideMetadata, object]

/-- A merge that yields no object applies no override. -/
theorem mergeMetadataValues_scalar
    (scalar : (localMeta.deepMerge remoteMeta remoteWins).isObject = false) :
    mergeMetadataValues localMeta remoteMeta remoteWins =
      localMeta.deepMerge remoteMeta remoteWins := by
  simp [mergeMetadataValues, scalar]

variable (object : (localMeta.deepMerge remoteMeta remoteWins).isObject)
include object

theorem mergeMetadataValues_object :
    mergeMetadataValues localMeta remoteMeta remoteWins =
      overrideMetadata localMeta remoteMeta remoteWins
        (localMeta.deepMerge remoteMeta remoteWins) := by
  simp [mergeMetadataValues, object]

/-- A local key keeps the value of the local row. -/
theorem get_merge_local {key : String} (isLocal : key ∈ localKeys) :
    (mergeMetadataValues localMeta remoteMeta remoteWins).get key = localMeta.get key := by
  rw [mergeMetadataValues_object object, get_overrideMetadata object, if_pos isLocal]

/-- The merged scope is the scope of the winner. -/
theorem get_merge_scope :
    (mergeMetadataValues localMeta remoteMeta remoteWins).get "scope" =
      scopeWinner localMeta remoteMeta remoteWins := by
  rw [mergeMetadataValues_object object, get_overrideMetadata object, if_neg (by decide), if_pos rfl]

/-- The merged clock is built from the clocks of both sides. -/
theorem get_merge_clock :
    (mergeMetadataValues localMeta remoteMeta remoteWins).get "version_vector" =
      versionVectorSlot localMeta remoteMeta := by
  rw [mergeMetadataValues_object object, get_overrideMetadata object, if_neg (by decide),
    if_neg (by decide), if_pos rfl]

/-- Any other key is merged deeply. -/
theorem get_merge_ordinary {key : String} (ordinary : OrdinaryKey key) :
    (mergeMetadataValues localMeta remoteMeta remoteWins).get key =
      (localMeta.deepMerge remoteMeta remoteWins).get key := by
  rw [mergeMetadataValues_object object, get_overrideMetadata object, if_neg ordinary.1,
    if_neg ordinary.2.1, if_neg ordinary.2.2]

end MetadataSlots

/-- Two objects with equal slots are equal. -/
theorem ext_slots {first second : Json} (firstObject : first.isObject)
    (secondObject : second.isObject)
    (onLocal : ∀ key ∈ localKeys, first.get key = second.get key)
    (scope : first.get "scope" = second.get "scope")
    (clock : first.get "version_vector" = second.get "version_vector")
    (ordinary : ∀ key, OrdinaryKey key → first.get key = second.get key) : first = second := by
  apply Json.ext_get firstObject secondObject
  intro key
  rcases key_cases key with isLocal | rfl | rfl | isOrdinary
  · exact onLocal key isLocal
  · exact scope
  · exact clock
  · exact ordinary key isOrdinary

/-- The clock slot carries its clock, and the empty clock leaves nothing to read. -/
theorem decode_clockSlot (clock : VectorClock) :
    ((clockSlot clock).bind VectorClock.fromValue).getD VectorClock.default = clock := by
  unfold clockSlot
  split_ifs with empty
  · apply VectorClock.ext
    intro peerId
    exact ((SortedMap.isEmpty_iff _).mp empty peerId).symm
  · simp

/-- A clock is read back from its slot. -/
theorem clockSlot_injective {first second : VectorClock} (same : clockSlot first = clockSlot second) :
    first = second := by
  rw [← decode_clockSlot first, same, decode_clockSlot]

/-- The merged object carries the joined clock. -/
theorem parseVersionVector_merge {localMeta remoteMeta : Json} {remoteWins : Bool}
    (object : (localMeta.deepMerge remoteMeta remoteWins).isObject) :
    parseVersionVector (mergeMetadataValues localMeta remoteMeta remoteWins) =
      (parseVersionVector localMeta).merge (parseVersionVector remoteMeta) := by
  rw [parseVersionVector, get_merge_clock object]
  exact decode_clockSlot _

/-- The slots of a metadata object are its local keys, its scope, its clock and its ordinary keys. -/
structure Slots (metadata : Json) (atLocal : String → Option Json) (scope : Option Json)
    (clock : VectorClock) (atOrdinary : String → Option Json) : Prop where
  object : metadata.isObject
  «local» : ∀ key ∈ localKeys, metadata.get key = atLocal key
  scope : metadata.get "scope" = scope
  clock : metadata.get "version_vector" = clockSlot clock
  ordinary : ∀ key, OrdinaryKey key → metadata.get key = atOrdinary key

/-- The merge of two objects joins their slots. -/
theorem slots_merge {localMeta remoteMeta : Json} (localObject : localMeta.isObject)
    (remoteObject : remoteMeta.isObject) (remoteWins : Bool) :
    Slots (mergeMetadataValues localMeta remoteMeta remoteWins) localMeta.get
      (joinOption (pick remoteWins) (localMeta.get "scope") (remoteMeta.get "scope"))
      ((parseVersionVector localMeta).merge (parseVersionVector remoteMeta))
      fun key => joinOption (Json.mergeUnder remoteWins) (localMeta.get key) (remoteMeta.get key) := by
  have object := Json.isObject_deepMerge localObject remoteObject remoteWins
  refine ⟨isObject_mergeMetadataValues.trans object, fun key isLocal => get_merge_local object isLocal,
    get_merge_scope object, get_merge_clock object, fun key ordinary => ?_⟩
  rw [get_merge_ordinary object ordinary, Json.get_deepMerge localObject remoteObject]

/-- Two metadata objects are equal exactly when their slots are. -/
theorem Slots.eq_iff {first second : Json} {firstLocal secondLocal : String → Option Json}
    {firstScope secondScope : Option Json} {firstClock secondClock : VectorClock}
    {firstOrdinary secondOrdinary : String → Option Json}
    (firstSlots : Slots first firstLocal firstScope firstClock firstOrdinary)
    (secondSlots : Slots second secondLocal secondScope secondClock secondOrdinary) :
    first = second ↔ (∀ key ∈ localKeys, firstLocal key = secondLocal key) ∧
      firstScope = secondScope ∧ firstClock = secondClock ∧
      ∀ key, OrdinaryKey key → firstOrdinary key = secondOrdinary key := by
  constructor
  · rintro rfl
    refine ⟨fun key isLocal => ?_, ?_, clockSlot_injective ?_, fun key ordinary => ?_⟩
    · rw [← firstSlots.local key isLocal, secondSlots.local key isLocal]
    · rw [← firstSlots.scope, secondSlots.scope]
    · rw [← firstSlots.clock, secondSlots.clock]
    · rw [← firstSlots.ordinary key ordinary, secondSlots.ordinary key ordinary]
  · rintro ⟨sameLocal, sameScope, sameClock, sameOrdinary⟩
    refine ext_slots firstSlots.object secondSlots.object (fun key isLocal => ?_) ?_ ?_
      fun key ordinary => ?_
    · rw [firstSlots.local key isLocal, secondSlots.local key isLocal, sameLocal key isLocal]
    · rw [firstSlots.scope, secondSlots.scope, sameScope]
    · rw [firstSlots.clock, secondSlots.clock, sameClock]
    · rw [firstSlots.ordinary key ordinary, secondSlots.ordinary key ordinary,
        sameOrdinary key ordinary]

theorem parseVersionVector_scalar {metadata : Json} (scalar : metadata.isObject = false) :
    parseVersionVector metadata = VectorClock.default := by
  rw [parseVersionVector, Json.get_of_not_isObject scalar]
  rfl

end AiMemory.Crdt
