import AiMemory.Federation.Attribution

/-
This file decides when the merge of a received row keeps an attested level true.
-/

namespace AiMemory.Federation
open AiMemory.Attestation AiMemory.Crdt AiMemory.Library AiMemory.Lineage AiMemory.Machine

def Attested (row : Memory) : Prop :=
  row.metadata.get "attest_level" = some (.string AttestLevel.agentAttested.asStr)

section Soundness

variable (env : Lineage.Environment) (signed : String → SignableWrite → Prop)

/-- The agent that the row names has signed the row. -/
def AuthorSigned (row : Memory) : Prop :=
  ∃ agentId, row.metadata.get "agent_id" = some (.string agentId) ∧ signed agentId (signableWrite env row agentId)

/-- An attested row has the signature of its author. -/
def SoundRow (row : Memory) : Prop := Attested row → AuthorSigned env signed row

end Soundness

section Level

variable {env : Lineage.Environment} {policy : ReceivePolicy} {peerId : Option String}
  {senderAgentId agent : String} {inbound received : Memory}

/-- An object that a peer brings to the merge carries the bare claim. -/
theorem prepared_claims (chrono : Chrono) (nowRfc3339 : String) (skewSecs : Int)
    (accepted : receiveRow env policy peerId senderAgentId inbound = .ok (received, agent))
    (object : (prepareInbound chrono received nowRfc3339 skewSecs).metadata.isObject) :
    (prepareInbound chrono received nowRfc3339 skewSecs).metadata.get "attest_level" =
      some (.string AttestLevel.claimed.asStr) := by
  obtain ⟨metadata, level, lifecycleState, shape⟩ := receiveRow_ok accepted
  have receivedObject : received.metadata.isObject := by simpa using object
  have stamped : received.metadata.get "attest_level" = some (.string level.asStr) := by
    rw [shape] at receivedObject ⊢
    have before : metadata.isObject := by simpa using receivedObject
    exact (Json.get_put before "attest_level" (some (.string level.asStr)) "attest_level").trans (if_pos rfl)
  rw [prepareInbound, metadata_clampInboundUpdatedAt, sanitizeInboundAttestation, stamped, Option.isSome_some,
    if_pos rfl]
  exact (Json.get_put receivedObject "attest_level" (some (.string AttestLevel.claimed.asStr))
    "attest_level").trans (if_pos rfl)

/-- The pipeline leaves the creation time of a row. -/
theorem createdAt_prepared (chrono : Chrono) (nowRfc3339 : String) (skewSecs : Int)
    (accepted : receiveRow env policy peerId senderAgentId inbound = .ok (received, agent)) :
    (prepareInbound chrono received nowRfc3339 skewSecs).createdAt = inbound.createdAt := by
  obtain ⟨metadata, level, lifecycleState, rfl⟩ := receiveRow_ok accepted
  obtain ⟨_, _, body⟩ := prepareInbound_body chrono _ nowRfc3339 skewSecs
  rw [body]

/-- A value merges with the bare claim to the verified level only where it is that level and stays. -/
theorem pick_attested_iff (remoteWins : Bool) (localValue : Json) :
    pick remoteWins localValue (.string AttestLevel.claimed.asStr) = .string AttestLevel.agentAttested.asStr ↔
      localValue = .string AttestLevel.agentAttested.asStr ∧ remoteWins = false := by
  cases remoteWins with
  | false => simp
  | true => simp [AttestLevel.asStr]

/-- An ordinary key is answered by the deep merge, whatever the merged value is. -/
theorem get_mergeMetadata_ordinary {localRow remoteRow : Memory} {key : String} (ordinary : OrdinaryKey key) :
    (mergeMemory localRow remoteRow).metadata.get key =
      (localRow.metadata.deepMerge remoteRow.metadata (remoteWinsLww localRow remoteRow)).get key := by
  rw [mergeMemory_metadata, mergeMetadata]
  cases object : (localRow.metadata.deepMerge remoteRow.metadata (remoteWinsLww localRow remoteRow)).isObject with
  | false => rw [mergeMetadataValues_scalar object]
  | true => exact get_merge_ordinary object ordinary

/-- A merged row is attested exactly when the local row is and the remote one loses. -/
theorem attested_merge_iff {localRow remoteRow : Memory}
    (claims : remoteRow.metadata.isObject →
      remoteRow.metadata.get "attest_level" = some (.string AttestLevel.claimed.asStr)) :
    Attested (mergeMemory localRow remoteRow) ↔ Attested localRow ∧ remoteWinsLww localRow remoteRow = false := by
  unfold Attested
  rw [get_mergeMetadata_ordinary (by decide)]
  generalize remoteWinsLww localRow remoteRow = remoteWins
  cases objects : localRow.metadata.isObject && remoteRow.metadata.isObject with
  | true =>
      obtain ⟨localObject, remoteObject⟩ := (Bool.and_eq_true _ _).mp objects
      rw [Json.get_deepMerge localObject remoteObject, claims remoteObject]
      cases localRow.metadata.get "attest_level" with
      | none => simp [AttestLevel.asStr]
      | some value =>
          rw [joinOption_some, Json.mergeUnder, Json.deepMerge_scalar (by simp [Json.isObject]),
            Option.some.injEq, Option.some.injEq]
          exact pick_attested_iff remoteWins value
  | false =>
      rw [Json.deepMerge_scalar objects]
      cases remoteWins with
      | false => simp
      | true =>
          -- The winning value is an object with the bare claim, or it has no level at all.
          rw [pick_true]
          cases object : remoteRow.metadata.isObject with
          | true => simp [claims object, AttestLevel.asStr]
          | false => simp [Json.get_of_not_isObject object]

/-- An attested merge that the local row wins names the local author. -/
theorem authorSigned_merge_iff {signed : String → SignableWrite → Prop} {localRow remoteRow : Memory}
    (attested : Attested localRow) (loses : remoteWinsLww localRow remoteRow = false) :
    AuthorSigned env signed (mergeMemory localRow remoteRow) ↔
      AuthorSigned env signed { localRow with createdAt := min localRow.createdAt remoteRow.createdAt } := by
  have localObject : localRow.metadata.isObject := by
    by_contra scalar
    rw [Attested, Json.get_of_not_isObject (Bool.eq_false_of_not_eq_true scalar)] at attested
    cases attested
  have object : (localRow.metadata.deepMerge remoteRow.metadata
      (remoteWinsLww localRow remoteRow)).isObject := by
    cases remoteObject : remoteRow.metadata.isObject with
    | true => exact Json.isObject_deepMerge localObject remoteObject _
    | false => rw [Json.deepMerge_scalar (by simp [remoteObject]), loses, pick_false, localObject]
  have author : (mergeMemory localRow remoteRow).metadata.get "agent_id" = localRow.metadata.get "agent_id" := by
    rw [mergeMemory_metadata, mergeMetadata, get_merge_local object (by decide)]
  have write (agentId : String) : signableWrite env (mergeMemory localRow remoteRow) agentId =
      signableWrite env { localRow with createdAt := min localRow.createdAt remoteRow.createdAt } agentId := by
    simp only [signableWrite, mergeMemory_createdAt_min, mergeMemory_namespace, mergeMemory_title,
      mergeMemory_memoryKind, mergeMemory_content, lww, loses, pick_false]
  unfold AuthorSigned
  simp only [author, write]

end Level

section Merge

variable (env : Lineage.Environment) (signed : String → SignableWrite → Prop) (policy : ReceivePolicy)
  (chrono : Chrono) (nowRfc3339 : String) (skewSecs : Int)

/-- A received row leaves an attested local row sound exactly when it wins, brings no earlier creation, or brings
one that the author has signed as well. -/
theorem receivedRow_sound_iff {peerId : Option String} {senderAgentId agent : String}
    {localRow inbound received : Memory} (sound : SoundRow env signed localRow)
    (accepted : receiveRow env policy peerId senderAgentId inbound = .ok (received, agent)) :
    let prepared := prepareInbound chrono received nowRfc3339 skewSecs
    SoundRow env signed (mergeMemory localRow prepared) ↔
      (Attested localRow → remoteWinsLww localRow prepared = false → inbound.createdAt < localRow.createdAt →
        AuthorSigned env signed { localRow with createdAt := inbound.createdAt }) := by
  intro prepared
  have created : prepared.createdAt = inbound.createdAt := createdAt_prepared chrono nowRfc3339 skewSecs accepted
  have level := @attested_merge_iff localRow prepared (prepared_claims chrono nowRfc3339 skewSecs accepted)
  unfold SoundRow
  rw [level, and_imp]
  refine forall_congr' fun attested => forall_congr' fun loses => ?_
  rw [authorSigned_merge_iff attested loses, created]
  rcases lt_or_ge inbound.createdAt localRow.createdAt with earlier | later
  · rw [min_eq_right earlier.le, forall_prop_of_true earlier]
  · rw [min_eq_left later]
    exact iff_of_true (sound attested) fun earlier => absurd earlier later.not_gt

end Merge

section Samples

/-- The calendar knows the update of the peer, the update of the agent and the ceiling above it. -/
def attestClock : Chrono :=
  Chrono.ofTable [("2026-06-16T09:00:00+00:00", -3600), ("2026-06-16T10:00:00+00:00", 0),
    ("2026-06-16T10:05:00+00:00", 300)]

/-- The environment covers the content of one row, and it binds no key. -/
def attestEnvironment : Lineage.Environment where
  sha256 := digestOfTable [(utf8 "c", 0x2e7d2c03a9507ae265ecf5b5356885a53393a2029d241394997265a1a25aefc6)]
  intoWriter _ := none
  fromReader _ := none
  urlSafeNoPadDecode _ := none
  standardDecode _ := none
  verifyingKeyFromBytes _ := none
  chrono := attestClock

def openPolicy : ReceivePolicy where
  config := ⟨[]⟩
  agentPubkey _ := none
  requireWriteSig := true
  quarantineUnattributed := false
  effectiveMaxReflectionDepth _ := 3

/-- The agent has signed this row. -/
def writtenRow : Memory :=
  { Memory.base "same-id" "2026-06-16T10:00:00+00:00" with
    metadata := (Json.empty.insert "agent_id" (.string "alice")).insert "attest_level" (.string "agent_attested") }

def signedByAlice (agentId : String) (write : SignableWrite) : Prop :=
  agentId = "alice" ∧ write = signableWrite attestEnvironment writtenRow "alice"

/-- The peer pushes an older version of the row that claims an earlier creation. -/
def antedatedRow : Memory :=
  { Memory.base "same-id" "2026-06-16T09:00:00+00:00" with
    createdAt := "2026-06-15T00:00:00+00:00"
    metadata := Json.empty.insert "agent_id" (.string "mallory") }

theorem writtenRow_attested : Attested writtenRow := by
  simp [Attested, writtenRow, Json.insert, Json.empty, AttestLevel.asStr]

theorem writtenRow_sound : SoundRow attestEnvironment signedByAlice writtenRow := by
  have named : writtenRow.metadata.get "agent_id" = some (.string "alice") := by
    simp [writtenRow, Json.insert, Json.empty]
  exact fun _ => ⟨"alice", named, rfl, rfl⟩

/-- The merge cannot break a row that its peer does not antedate. -/
theorem replayedRow_keeps_soundness : ∃ received,
    receiveRow attestEnvironment openPolicy (some "alice") "alice" writtenRow = .ok (received, "alice") ∧
      SoundRow attestEnvironment signedByAlice
        (mergeMemory writtenRow (prepareInbound attestClock received "2026-06-16T10:00:00+00:00" 300)) := by
  refine ⟨_, rfl, ?_⟩
  refine (@receivedRow_sound_iff attestEnvironment signedByAlice openPolicy attestClock
    "2026-06-16T10:00:00+00:00" 300 (some "alice") "alice" "alice" writtenRow writtenRow _ writtenRow_sound
    rfl).mpr fun _ _ earlier => ?_
  exact absurd earlier (by decide)

/-- The merged row has the earlier creation and still says that its agent signed it. -/
theorem antedatedRow_breaks_soundness :
    SoundRow attestEnvironment signedByAlice writtenRow ∧ antedatedRow.id = writtenRow.id ∧ ∃ received,
      receiveRow attestEnvironment openPolicy (some "mallory") "mallory" antedatedRow =
          .ok (received, "mallory") ∧
        ¬ SoundRow attestEnvironment signedByAlice
          (mergeMemory writtenRow (prepareInbound attestClock received "2026-06-16T10:00:00+00:00" 300)) := by
  refine ⟨writtenRow_sound, rfl, _, rfl, fun sound => ?_⟩
  have attested := (@attested_merge_iff writtenRow _
    (@prepared_claims attestEnvironment openPolicy (some "mallory") "mallory" "mallory" antedatedRow _ attestClock
      "2026-06-16T10:00:00+00:00" 300 rfl)).mpr ⟨writtenRow_attested, by decide⟩
  obtain ⟨agentId, _, _, same⟩ := sound attested
  have created : "2026-06-15T00:00:00+00:00" = writtenRow.createdAt := congrArg SignableWrite.createdAt same
  exact absurd created (by decide)

end Samples
end AiMemory.Federation
