import AiMemory.Lineage.Registry

/-
This file proves that the stored lineages verify throughout every orderly history of enrollments and handoffs.
-/

namespace AiMemory.Lineage
open AiMemory.Library AiMemory.Machine AiMemory.SignedEvents

section Views

variable (env : Environment) (policy : Option RecoveryPolicy)

/-- The part of the tables that concerns one agent. -/
structure LineageView where
  rows : List LineageRow
  witnesses : Multiset Bytes
  bound : Option String

def Registry.view (registry : Registry) (agentId : String) : LineageView where
  rows := registry.lineage.items.filter fun row => row.agentId = agentId
  witnesses := ((registry.signedEvents.filter (isWitness agentId)).map fun row => row.payloadHash.bytes : List Bytes)
  bound := agentPubkey registry agentId

/-- The words of the record survive the signed columns. -/
structure Storable (record : LineageRecord) : Prop where
  epoch : record.epoch.toNat < 2 ^ 63
  fromSeq : ∀ seq ∈ record.suspectedCompromiseFromSeq, seq.toNat < 2 ^ 63
  threshold : ∀ threshold ∈ record.recoveryThreshold, threshold.toNat < 2 ^ 63

/-- The walk accepts the records and uses up exactly the witnesses. -/
def Admitted (entries : List (LineageRecord × Bytes)) (witnesses : Multiset Bytes) : Prop :=
  ∀ extra, ∃ final, entries.foldlM (walkRecord env policy) ⟨witnesses + extra, none, none, none, false⟩ = .ok final ∧
    final.witnesses = extra ∧ final.prev = entries.getLast?.map Prod.fst

/-- The rows of an agent are a chain that verifies, ends at the bound key and leaves no witness over. -/
structure SoundView (view : LineageView) (entries : List (LineageRecord × Bytes)) : Prop where
  rows : view.rows = entries.map fun entry => rowOf entry.1 entry.2
  storable : ∀ entry ∈ entries, Storable entry.1
  positions : entries.map (fun entry => entry.1.epoch.toNat) = List.range entries.length
  genesis : ∀ first ∈ entries.head?, first.1.isGenesis = true
  admitted : Admitted env policy entries view.witnesses
  head : ∀ last ∈ entries.getLast?, view.bound = some last.1.successorPubkeyB64 ∧
    (decodePublicBase64 env last.1.successorPubkeyB64).isSome ∧
    (env.chrono.parseFromRfc3339 last.1.notBefore).isSome

variable {env policy} {registry : Registry} {agentId : String} {entries : List (LineageRecord × Bytes)}

/-- A word below 2^63 is stored as it is. -/
theorem unsaturated_saturated {word : UInt64} (fits : word.toNat < 2 ^ 63) : unsaturated (saturated word) = word := by
  have same : saturated word = word.toNat := min_eq_left (by rw [i64Max]; omega)
  rw [same, unsaturated, Int.toNat_natCast, UInt64.ofNat_toNat]

theorem map_unsaturated {stored : Option UInt64} (fits : ∀ word ∈ stored, word.toNat < 2 ^ 63) :
    (stored.map saturated).map unsaturated = stored := by
  cases stored with
  | none => rfl
  | some word => rw [Option.map_some, Option.map_some, unsaturated_saturated (fits word rfl)]

theorem fromStr_asStr (reason : LineageReason) : LineageReason.fromStr reason.asStr = some reason := by
  cases reason <;> rfl

theorem fromStored_asStr (custody : CustodyClass) :
    CustodyClass.fromStored (some custody.asStr) = some custody := by
  cases custody <;> rfl

/-- A storable record reads back as it was written. -/
theorem decode_rowOf {record : LineageRecord} (storable : Storable record) (signature : Bytes) :
    (rowOf record signature).decode = .ok (record, signature) := by
  have counted : ¬ ((record.epoch.toNat : Int) < 0) := Int.not_lt.mpr (Int.natCast_nonneg _)
  simp only [LineageRow.decode, rowOf, fromStr_asStr, fromStored_asStr, if_neg counted, Int.toNat_natCast,
    UInt64.ofNat_toNat, map_unsaturated storable.fromSeq, map_unsaturated storable.threshold]

/-- The rows of storable entries are read back as the entries. -/
theorem decodeRows_rowOf (storable : ∀ entry ∈ entries, Storable entry.1) :
    decodeRows (entries.map fun entry => rowOf entry.1 entry.2) = .ok entries := by
  induction entries with
  | nil => rfl
  | cons entry entries ih =>
      have later := ih fun other present => storable other (List.mem_cons_of_mem _ present)
      exact bind_eq_ok.mpr ⟨entry, decode_rowOf (storable entry List.mem_cons_self) _,
        bind_eq_ok.mpr ⟨entries, later, rfl⟩⟩

/-- The stored rows of a sound view are the rows of its entries. -/
theorem SoundView.lineageRows_eq (sound : SoundView env policy (registry.view agentId) entries) :
    lineageRows registry agentId = entries.map fun entry => rowOf entry.1 entry.2 := by
  have ascending : (entries.map fun entry => rowOf entry.1 entry.2).Pairwise
      fun first second => first.epoch ≤ second.epoch := by
    have listed : (entries.map fun entry => entry.1.epoch.toNat).Pairwise (· < ·) := by
      rw [sound.positions]
      exact List.pairwise_lt_range
    rw [List.pairwise_map] at listed ⊢
    exact listed.imp fun smaller => Int.ofNat_le.mpr (Nat.le_of_lt smaller)
  have rows : (registry.lineage.items.filter fun row => row.agentId = agentId) =
      entries.map fun entry => rowOf entry.1 entry.2 := sound.rows
  rw [lineageRows, rows]
  exact ascending.insertionSort_eq

/-- A sound lineage is read as its entries. -/
theorem SoundView.read (sound : SoundView env policy (registry.view agentId) entries) :
    ∃ short, readLineage registry agentId = .ok ⟨entries, short⟩ := by
  have decoded := decodeRows_rowOf sound.storable
  rw [← sound.lineageRows_eq] at decoded
  have short : entries.length < 2 ^ 63 := by
    rw [length_decodeRows decoded]
    exact length_lineageRows registry agentId
  refine ⟨short, ?_⟩
  unfold readLineage
  split
  · rename_i error refused
    rw [decoded] at refused
    cases refused
  · rename_i found accepted
    rw [decoded] at accepted
    obtain rfl := Except.ok.inj accepted
    rfl

/-- The head of a sound lineage is its last entry. -/
theorem SoundView.lineageHead_eq (sound : SoundView env policy (registry.view agentId) entries) :
    lineageHead registry agentId = .ok entries.getLast? := by
  obtain ⟨short, read⟩ := sound.read
  rw [lineageHead, read]
  rfl

/-- The order of the witnesses does not matter. -/
theorem coe_lineageWitnessHashes (registry : Registry) (agentId : String) :
    (lineageWitnessHashes registry agentId : Multiset Bytes) = (registry.view agentId).witnesses :=
  Multiset.coe_eq_coe.mpr ((List.perm_insertionSort _ _).map _)

/-- A sound lineage verifies, and its head is the bound key. -/
theorem SoundView.verified (sound : SoundView env policy (registry.view agentId) entries)
    (enrolled : entries ≠ []) :
    ∃ verified, verifyAgentLineage env policy registry agentId = .ok (.ok verified) ∧
      currentAuthoritativeKey env policy registry agentId = .ok (some verified.headKey) ∧
      (agentPubkey registry agentId).bind (decodePublicBase64 env) = some verified.headKey ∧
      verified.recordsChecked = entries.length := by
  obtain ⟨short, read⟩ := sound.read
  obtain ⟨first, rest, rfl⟩ := List.exists_cons_of_ne_nil enrolled
  obtain ⟨final, walked, spent, stops⟩ := sound.admitted 0
  obtain ⟨bound, decodes, _⟩ := sound.head _ (List.getLast?_eq_getLast_of_ne_nil enrolled)
  obtain ⟨key, decoded⟩ := Option.isSome_iff_exists.mp decodes
  have anchored := sound.genesis first rfl
  rw [Multiset.add_zero, ← coe_lineageWitnessHashes] at walked
  rw [List.getLast?_eq_getLast_of_ne_nil enrolled, Option.map_some] at stops
  have named : headKey env ((first :: rest).getLast enrolled).1
      (some ((first :: rest).getLast enrolled).1.successorPubkeyB64) = .ok key := by
    rw [headKey, Option.bind_some, decoded]
    exact if_pos rfl
  have bound : agentPubkey registry agentId = some ((first :: rest).getLast enrolled).1.successorPubkeyB64 := bound
  let verified : VerifiedLineage :=
    { headKey := key
      epoch := ((first :: rest).getLast enrolled).1.epoch
      recordsChecked := (first :: rest).length
      headCustodyClass := ((first :: rest).getLast enrolled).1.custodyClass
      revokedFromSeq := final.revokedFromSeq
      recoveredAtEpoch := final.recoveredAtEpoch
      recoveryGuardianSetDrift := final.recoveryGuardianSetDrift }
  have accepted : verifyLineageWithRecovery env ⟨first :: rest, short⟩ (lineageWitnessHashes registry agentId)
      (agentPubkey registry agentId) policy = .ok verified := by
    rw [verifyLineageWithRecovery]
    simp only [anchored, if_true, walked]
    show finishWalk env _ _ _ final = .ok verified
    simp only [finishWalk, spent, stops, bound, named, Multiset.card_zero, gt_iff_lt, Nat.lt_irrefl, if_false]
    rfl
  refine ⟨verified, ?_, ?_, ?_, rfl⟩
  · exact bind_eq_ok.mpr ⟨_, read, congrArg Except.ok accepted⟩
  · refine bind_eq_ok.mpr ⟨_, read, ?_⟩
    simp only [List.isEmpty_cons, Bool.false_eq_true, if_false, accepted]
    rfl
  · rw [bound, Option.bind_some, decoded]

end Views

section Steps

variable {env : Environment} {policy : Option RecoveryPolicy} {registry after : Registry}
  {entries : List (LineageRecord × Bytes)} {record : LineageRecord} {signature : Bytes} {agentId : String}

/-- A record that passes its checks after the last one extends the walk. -/
theorem Admitted.concat {witnesses : Multiset Bytes} {hash : Bytes} {recovery : Option RecoveryVerification}
    (admitted : Admitted env policy entries witnesses)
    (checked : ∀ walk : Walk, walk.prev = entries.getLast?.map Prod.fst → walk.checkPrev env policy record = .ok ())
    (hashed : record.witnessPayloadHash env = some hash)
    (authorized : authorize env policy record signature = .ok recovery) :
    Admitted env policy (entries ++ [(record, signature)]) (hash ::ₘ witnesses) := by
  intro extra
  obtain ⟨middle, walked, waits, stops⟩ := admitted (hash ::ₘ extra)
  have consumed : consumeWitness env middle.witnesses record = .ok extra := by
    rw [consumeWitness, hashed, waits]
    simp
  have stepped : ∃ final, walkRecord env policy middle (record, signature) = .ok final ∧
      final.witnesses = extra ∧ final.prev = some record :=
    ⟨_, bind_eq_ok.mpr ⟨(), checked middle stops, bind_eq_ok.mpr ⟨extra, consumed,
      bind_eq_ok.mpr ⟨recovery, authorized, rfl⟩⟩⟩, rfl, rfl⟩
  obtain ⟨final, stepped, spent, kept⟩ := stepped
  refine ⟨final, ?_, spent, by rw [kept, List.getLast?_concat, Option.map_some]⟩
  have regrouped : (hash ::ₘ witnesses) + extra = witnesses + (hash ::ₘ extra) := by
    rw [Multiset.cons_add, Multiset.add_cons]
  rw [regrouped, List.foldlM_append, walked]
  exact foldlM_cons_eq_ok.mpr ⟨final, stepped, rfl⟩

/-- The check of an append is the authorization of the walk. -/
theorem authorize_of_checkAuthority (authority : checkAuthority env policy record signature = .ok ()) :
    (∃ recovery, authorize env policy record signature = .ok recovery) ∧
      (record.reason = .recovery → policy.isSome) := by
  unfold checkAuthority at authority
  by_cases recovers : record.reason = .recovery
  · rw [if_pos recovers] at authority
    cases enrolled : policy with
    | none => rw [enrolled] at authority; cases authority
    | some roster =>
        simp only [enrolled] at authority
        cases outcome : verifyRecoveryRecord env record signature roster with
        | error error => rw [outcome] at authority; cases authority
        | ok verification =>
            refine ⟨⟨some verification, ?_⟩, fun _ => rfl⟩
            rw [authorize, recovers]
            simp only [outcome]
            rfl
  · rw [if_neg recovers] at authority
    refine ⟨⟨none, ?_⟩, fun same => absurd same recovers⟩
    split at authority
    · cases authority
    · rename_i predecessor decoded
      have verified := mapError_eq_ok.mp authority
      unfold authorize
      cases reason : record.reason with
      | recovery => exact absurd reason recovers
      | genesis | rotation | revocation =>
          simp only [decoded, verified]
          rfl

/-- A record that is stored after a head succeeds it in everything but the time. -/
theorem checkHead_ok {last : LineageRecord × Bytes}
    (succeeds : checkHead env agentId (some last) record = .ok ()) :
    record.reason ≠ .genesis ∧ record.epoch = last.1.epoch + 1 ∧
      record.predecessorPubkeyB64 = last.1.successorPubkeyB64 ∧ checkLink env last.1 record = .ok () := by
  unfold checkHead at succeeds
  split at succeeds
  · rename_i absent _
    cases absent
  · rename_i absent _
    cases absent
  · cases succeeds
  · rename_i _ headRecord headSignature present ordinary
    obtain rfl := Option.some.inj present
    split at succeeds
    · cases succeeds
    rename_i epoch
    split at succeeds
    · cases succeeds
    rename_i predecessor
    split at succeeds
    · cases succeeds
    rename_i hash hashed
    split at succeeds
    · cases succeeds
    rename_i linked
    refine ⟨ordinary, not_not.mp epoch, not_not.mp predecessor, ?_⟩
    rw [checkLink, hashed]
    exact if_neg linked

/-- The record comes in time when a genesis is well formed and a later record is not earlier than the head. -/
def InTime (env : Environment) (registry : Registry) (agentId : String) (record : LineageRecord) : Prop :=
  match lineageHead registry agentId with
  | .ok none => record.isGenesis = true ∧ (env.chrono.parseFromRfc3339 record.notBefore).isSome
  | .ok (some last) => checkTime env last.1 record = .ok ()
  | .error _ => True

theorem parses_of_checkTime {prior : LineageRecord} (timed : checkTime env prior record = .ok ()) :
    (env.chrono.parseFromRfc3339 record.notBefore).isSome := by
  unfold checkTime at timed
  split at timed
  · rename_i later
    rw [later]
    rfl
  · cases timed

/-- The words of the record fit in signed columns, its successor is a key and its time is in order. -/
structure Placed (env : Environment) (registry : Registry) (agentId : String) (record : LineageRecord) : Prop where
  fromSeq : ∀ seq ∈ record.suspectedCompromiseFromSeq, seq.toNat < 2 ^ 63
  threshold : ∀ threshold ∈ record.recoveryThreshold, threshold.toNat < 2 ^ 63
  decodes : (decodePublicBase64 env record.successorPubkeyB64).isSome
  inTime : InTime env registry agentId record

/-- A stored record that is well placed keeps the lineage of its agent sound. -/
theorem SoundView.append (sound : SoundView env policy (registry.view agentId) entries)
    (passed : Preflight env policy registry agentId record signature)
    (placed : Placed env registry agentId record) {hash : Bytes}
    (hashed : record.witnessPayloadHash env = some hash) :
    SoundView env policy
      ⟨(registry.view agentId).rows ++ [rowOf record signature], hash ::ₘ (registry.view agentId).witnesses,
        some record.successorPubkeyB64⟩
      (entries ++ [(record, signature)]) := by
  obtain ⟨fromSeq, threshold, decodes, inTime⟩ := placed
  obtain ⟨head, read, succeeds⟩ := passed.head
  rw [sound.lineageHead_eq, Except.ok.injEq] at read
  subst read
  rw [InTime, sound.lineageHead_eq] at inTime
  obtain ⟨⟨recovery, authorized⟩, enrolledPolicy⟩ := authorize_of_checkAuthority passed.authority
  have small : record.epoch.toNat < 2 ^ 63 := by
    have fits : (record.epoch.toNat : Int) ≤ i64Max := passed.fits
    rw [i64Max] at fits
    omega
  have step : record.epoch.toNat = entries.length ∧
      (∀ first ∈ (entries ++ [(record, signature)]).head?, first.1.isGenesis = true) ∧
      (env.chrono.parseFromRfc3339 record.notBefore).isSome ∧
      ∀ walk : Walk, walk.prev = entries.getLast?.map Prod.fst → walk.checkPrev env policy record = .ok () := by
    cases ends : entries.getLast? with
    | none =>
        rw [ends] at inTime
        obtain rfl := List.getLast?_eq_none_iff.mp ends
        refine ⟨?_, ?_, inTime.2, fun walk stops => ?_⟩
        · rw [LineageRecord.epoch_of_isGenesis inTime.1]
          rfl
        · rintro first same
          obtain rfl := Option.some.inj same
          exact inTime.1
        · rw [Walk.checkPrev, stops]
          rfl
    | some last =>
        rw [ends] at inTime succeeds
        obtain ⟨ordinary, epoch, predecessor, linked⟩ := checkHead_ok succeeds
        have nonempty : entries ≠ [] := by
          rintro rfl
          cases ends
        have lastEpoch : last.1.epoch.toNat + 1 = entries.length := by
          have positions := congrArg List.getLast? sound.positions
          rw [List.getLast?_map, ends, Option.map_some, List.getLast?_range, if_neg (by simpa using nonempty)]
            at positions
          have counted := Option.some.inj positions
          have positive := List.length_pos_iff.mpr nonempty
          omega
        refine ⟨?_, ?_, parses_of_checkTime inTime, fun walk stops => ?_⟩
        · have storable := (sound.storable last (List.mem_of_getLast? ends)).epoch
          rw [epoch, UInt64.toNat_add]
          simp only [UInt64.reduceToNat]
          omega
        · intro first present
          rw [List.head?_append_of_ne_nil _ nonempty] at present
          exact sound.genesis first present
        · have handsOff : checkPredecessor policy last.1 record = .ok () := by
            rw [checkPredecessor]
            cases reason : record.reason with
            | genesis => exact absurd reason ordinary
            | rotation | revocation => exact if_pos predecessor
            | recovery =>
                have enrolled := enrolledPolicy reason
                simp only [if_pos predecessor]
                rw [if_neg]
                rw [Option.isNone_iff_eq_none]
                rintro rfl
                cases enrolled
          rw [Walk.checkPrev, stops]
          show checkSuccession env policy last.1 record = .ok ()
          rw [checkSuccession, if_neg (not_not.mpr epoch), linked, inTime, handsOff]
          rfl
  obtain ⟨position, anchored, parses, checked⟩ := step
  refine ⟨?_, ?_, ?_, anchored, sound.admitted.concat checked hashed authorized, ?_⟩
  · rw [List.map_append, ← sound.rows, List.map_singleton]
  · intro entry present
    rcases List.mem_append.mp present with earlier | latest
    · exact sound.storable entry earlier
    · obtain rfl := List.mem_singleton.mp latest
      exact ⟨small, fromSeq, threshold⟩
  · rw [List.map_append, sound.positions, List.map_singleton, position, List.length_append, List.length_singleton,
      List.range_succ]
  · intro last present
    rw [List.getLast?_concat] at present
    obtain rfl := Option.some.inj present
    exact ⟨rfl, decodes, parses⟩

end Steps

section Runs

variable (env : Environment) (policy : Option RecoveryPolicy)

/-- Every agent has a sound lineage, which may be empty. -/
def Sound (registry : Registry) : Prop :=
  ∀ agentId, ∃ entries, SoundView env policy (registry.view agentId) entries

/-- The clock of a handoff is in order after the head of its agent. -/
def InOrderAfterHead (registry : Registry) (agentId notBefore : String) : Prop :=
  (env.chrono.parseFromRfc3339 notBefore).isSome ∧
    ∀ head, lineageHead registry agentId = .ok (some head) → InOrder env head.1.notBefore notBefore

/-- No flat binding of an enrolled agent is touched, no foreign event poses as a witness, the marks fit in signed
columns, a raw record is well formed and the clocks run forward. -/
def Orderly (registry : Registry) : RegistryCall → Prop
  | .register agentId | .bind agentId _ | .unbind agentId => (registry.view agentId).rows = []
  | .event call => call.event.eventType.text ∉ identityLineageEventTypes
  | .append agentId record _ _ => Placed env registry agentId.text record
  | .enroll _ _ _ now _ => (env.chrono.parseFromRfc3339 now).isSome
  | .succeed agentId _ _ _ now _ => InOrderAfterHead env registry agentId.text now
  | .revoke agentId _ _ fromSeq _ now _ => fromSeq.toNat < 2 ^ 63 ∧ InOrderAfterHead env registry agentId.text now
  | .recover agentId _ _ fromSeq _ notBefore _ =>
      (∀ seq ∈ fromSeq, seq.toNat < 2 ^ 63) ∧
        (∀ roster ∈ policy, ∀ threshold ∈ roster.threshold, threshold < 2 ^ 63) ∧
        InOrderAfterHead env registry agentId.text notBefore

variable {env policy} {registry after : Registry} {agentId : Text} {stamp : WitnessStamp}

theorem mem_lineageWitnessEventType (reason : LineageReason) :
    (lineageWitnessEventType reason).text ∈ identityLineageEventTypes := by
  cases reason <;> decide

/-- An append changes the view of its own agent and no other. -/
theorem view_append {record : LineageRecord} {signature : Blob}
    (appended : appendLineageRecord env policy registry agentId record signature stamp = .ok after) :
    (∃ hash, record.witnessPayloadHash env = some hash ∧ after.view agentId.text =
      ⟨(registry.view agentId.text).rows ++ [rowOf record signature.bytes],
        hash ::ₘ (registry.view agentId.text).witnesses, some record.successorPubkeyB64⟩) ∧
      ∀ other, other ≠ agentId.text → after.view other = registry.view other := by
  obtain ⟨passed, rows, bound, hash, row, hashed, events, named, typed, payload⟩ := appendLineageRecord_ok appended
  constructor
  · have own : (rowOf record signature.bytes).agentId = agentId.text := passed.agent
    have witness : isWitness agentId.text row = true := by
      rw [isWitness, named, typed]
      exact decide_eq_true ⟨rfl, mem_lineageWitnessEventType record.reason⟩
    have stored : ([rowOf record signature.bytes].filter fun row => row.agentId = agentId.text) =
        [rowOf record signature.bytes] := by
      simp [own]
    have seen : [row].filter (isWitness agentId.text) = [row] := by
      simp [witness]
    refine ⟨hash, hashed, ?_⟩
    simp only [Registry.view, rows, events, bound, List.filter_append, List.map_append, if_true, stored, seen]
    congr 1
    rw [List.map_singleton, payload, ← Multiset.coe_add, Multiset.add_comm]
    rfl
  · intro other different
    have foreign : ¬ (rowOf record signature.bytes).agentId = other := fun same =>
      different (same.symm.trans passed.agent)
    have unstored : ([rowOf record signature.bytes].filter fun row => row.agentId = other) = [] := by
      simp [foreign]
    have unseen : [row].filter (isWitness other) = [] := by
      simp [isWitness, named, Ne.symm different]
    simp only [Registry.view, rows, events, bound, List.filter_append, if_neg different, unstored, unseen,
      List.append_nil]

/-- A well placed record that is stored keeps every lineage sound. -/
theorem Sound.append {record : LineageRecord} {signature : Blob} (sound : Sound env policy registry)
    (appended : appendLineageRecord env policy registry agentId record signature stamp = .ok after)
    (placed : Placed env registry agentId.text record) : Sound env policy after := by
  obtain ⟨⟨hash, hashed, own⟩, others⟩ := view_append appended
  intro other
  by_cases same : other = agentId.text
  · obtain ⟨entries, view⟩ := sound agentId.text
    subst same
    rw [own]
    exact ⟨_, view.append (appendLineageRecord_ok appended).1 placed hashed⟩
  · rw [others other same]
    exact sound other

/-- The binding of an agent without a lineage does not matter. -/
theorem Sound.rebind (sound : Sound env policy registry) {touched : String}
    (unenrolled : (registry.view touched).rows = []) (rows : after.lineage = registry.lineage)
    (events : after.signedEvents = registry.signedEvents)
    (bound : ∀ other, other ≠ touched → agentPubkey after other = agentPubkey registry other) :
    Sound env policy after := by
  intro other
  obtain ⟨entries, view⟩ := sound other
  have sameRows : (after.view other).rows = (registry.view other).rows := by simp only [Registry.view, rows]
  have sameWitnesses : (after.view other).witnesses = (registry.view other).witnesses := by
    simp only [Registry.view, events]
  by_cases same : other = touched
  · subst same
    have none_stored := view.rows
    rw [unenrolled] at none_stored
    obtain rfl := List.map_eq_nil_iff.mp none_stored.symm
    exact ⟨[], sameRows.trans view.rows, view.storable, view.positions, view.genesis, sameWitnesses ▸ view.admitted,
      by simp⟩
  · have whole : after.view other = registry.view other := by
      have sameBound : (after.view other).bound = (registry.view other).bound := bound other same
      cases held : after.view other
      cases before : registry.view other
      rw [held, before] at sameRows sameWitnesses sameBound
      simp_all
    rw [whole]
    exact ⟨entries, view⟩

/-- An event that is no lineage event leaves every view. -/
theorem view_event {call : AppendCall} (foreign : call.event.eventType.text ∉ identityLineageEventTypes)
    (other : String) :
    Registry.view { registry with signedEvents := appendStep env.sha256 registry.signedEvents call } other =
      registry.view other := by
  have kept : (appendStep env.sha256 registry.signedEvents call).filter (isWitness other) =
      registry.signedEvents.filter (isWitness other) := by
    unfold appendStep
    split
    · rename_i stored appended
      rw [appendSignedEventNoTx] at appended
      split at appended
      · cases appended
      · rename_i maxSeq prevHash _
        have unwitnessed : ¬ isWitness other (appendedRow env.sha256 call maxSeq prevHash) = true := by
          rw [isWitness, decide_eq_true_eq]
          exact fun both => foreign both.2
        rw [(insertRow_ok appended).1, List.filter_append, List.filter_cons_of_neg unwitnessed]
        simp
    · rfl
  simp only [Registry.view, kept]
  rfl

/-- What a handoff takes from its arguments. -/
theorem handoff_eq {reason : LineageReason} {fromSeq : Option UInt64} {head record : LineageRecord}
    {successor notBefore : String} {recovery : Option String}
    (minted : head.handoff env reason fromSeq successor recovery notBefore = some record) :
    record.suspectedCompromiseFromSeq = fromSeq ∧ record.recoveryThreshold = none ∧
      record.successorPubkeyB64 = successor ∧ record.notBefore = head.clampNotBefore notBefore := by
  obtain ⟨_, _, rfl⟩ := Option.map_eq_some_iff.mp minted
  exact ⟨rfl, rfl, rfl, rfl⟩

/-- The clamp keeps a handoff in time when the clock is in order. -/
theorem checkTime_handoff {reason : LineageReason} {fromSeq : Option UInt64} {head record : LineageRecord}
    {successor notBefore : String} {recovery : Option String}
    (irreflexive : ∀ instant, env.chrono.later instant instant = false)
    (minted : head.handoff env reason fromSeq successor recovery notBefore = some record)
    (headParses : (env.chrono.parseFromRfc3339 head.notBefore).isSome)
    (parses : (env.chrono.parseFromRfc3339 notBefore).isSome) (order : InOrder env head.notBefore notBefore) :
    checkTime env head record = .ok () := by
  obtain ⟨hash, hashed, rfl⟩ := Option.map_eq_some_iff.mp minted
  -- The times of a handoff do not depend on its reason.
  obtain ⟨rotation, rotated⟩ : ∃ rotation, mint env head (.rotation successor recovery notBefore) = some rotation :=
    ⟨_, Option.map_eq_some_iff.mpr ⟨hash, hashed, rfl⟩⟩
  have timed := (checkTime_minted (handedOff_of_mint rotated) irreflexive headParses parses).mpr order
  obtain ⟨_, _, rfl⟩ := Option.map_eq_some_iff.mp rotated
  exact timed

/-- The head of a sound lineage has a time. -/
theorem Sound.parses_head (sound : Sound env policy registry) {head : LineageRecord × Bytes} {owner : String}
    (read : lineageHead registry owner = .ok (some head)) :
    (env.chrono.parseFromRfc3339 head.1.notBefore).isSome := by
  obtain ⟨entries, view⟩ := sound owner
  rw [view.lineageHead_eq, Except.ok.injEq] at read
  exact (view.head head read).2.2

/-- A handoff from the head of its agent is in time. -/
theorem Sound.inTime_handoff {reason : LineageReason} {fromSeq : Option UInt64} {head : LineageRecord × Bytes}
    {record : LineageRecord} {owner successor notBefore : String} {recovery : Option String}
    (irreflexive : ∀ instant, env.chrono.later instant instant = false) (sound : Sound env policy registry)
    (read : lineageHead registry owner = .ok (some head))
    (minted : head.1.handoff env reason fromSeq successor recovery notBefore = some record)
    (order : InOrderAfterHead env registry owner notBefore) : InTime env registry owner record := by
  rw [InTime, read]
  exact checkTime_handoff irreflexive minted (sound.parses_head read) order.1 (order.2 head read)

/-- A genesis anchors in a key that decodes, since its own signature verified. -/
theorem decodes_of_genesis {record : LineageRecord} {signature : Blob} (anchored : record.isGenesis = true)
    (appended : appendLineageRecord env policy registry agentId record signature stamp = .ok after) :
    (decodePublicBase64 env record.successorPubkeyB64).isSome := by
  have authority := (appendLineageRecord_ok appended).1.authority
  simp only [LineageRecord.isGenesis, decide_eq_true_eq] at anchored
  obtain ⟨_, reason, anchor, _⟩ := anchored
  unfold checkAuthority at authority
  rw [if_neg (by rw [reason]; decide), anchor] at authority
  split at authority
  · cases authority
  · rename_i _ decoded
    rw [decoded]
    rfl

/-- The names under which the other agents are found. -/
theorem found_other {touched other : String} (different : other ≠ touched) :
    (fun agent : AgentRegistration => decide (decide (agent.agentId ≠ touched) = true ∧
      decide (agent.agentId = other) = true)) = fun agent => decide (agent.agentId = other) := by
  funext agent
  by_cases same : agent.agentId = other
  · simp [same, different]
  · simp [same]

/-- The registration of an agent without a lineage keeps the registry sound. -/
theorem Sound.register (sound : Sound env policy registry) {touched : String}
    (unenrolled : (registry.view touched).rows = []) : Sound env policy (registerAgent registry touched) := by
  refine sound.rebind unenrolled rfl rfl fun other different => ?_
  simp only [agentPubkey, registerAgent, List.find?_append, List.find?_filter]
  rw [found_other different]
  cases registry.agents.find? fun agent => agent.agentId = other with
  | some _ => rfl
  | none => simp [Ne.symm different]

/-- A revocation for an agent without a lineage keeps the registry sound. -/
theorem Sound.unbind (sound : Sound env policy registry) {touched : String}
    (unenrolled : (registry.view touched).rows = []) (done : revokeAgentPubkey registry touched = .ok after) :
    Sound env policy after := by
  unfold revokeAgentPubkey at done
  split at done
  · obtain rfl := Except.ok.inj done
    refine sound.rebind unenrolled rfl rfl fun other different => ?_
    have keeps : ∀ agent : AgentRegistration, (if agent.agentId = touched then
        { agent with agentPubkey := none } else agent).agentId = agent.agentId := by
      intro agent
      split <;> rfl
    simp only [agentPubkey, List.find?_map, Function.comp_def, keeps, Option.bind_map]
    cases found : registry.agents.find? fun agent => agent.agentId = other with
    | none => rfl
    | some first =>
        have here := List.find?_some found
        simp only [decide_eq_true_eq] at here
        simp [here, different]
  · cases done

/-- An enrollment stores a well formed genesis. -/
theorem Sound.enroll (sound : Sound env policy registry) {keypair : LineageKeypair} {recovery : Option String}
    {now : String} (parses : (env.chrono.parseFromRfc3339 now).isSome)
    (done : enrollLineage env policy registry agentId keypair recovery now stamp = .ok after) :
    Sound env policy after := by
  obtain ⟨signature, unenrolled, appended⟩ := enrollLineage_ok done
  have anchored := isGenesis_genesis agentId.text keypair.publicBase64 recovery now
  refine sound.append appended
    { fromSeq := by simp [LineageRecord.genesis]
      threshold := by simp [LineageRecord.genesis]
      decodes := decodes_of_genesis anchored appended
      inTime := ?_ }
  rw [InTime, unenrolled]
  exact ⟨anchored, parses⟩

/-- A handoff by the head key keeps every lineage sound. -/
theorem Sound.handoff (irreflexive : ∀ instant, env.chrono.later instant instant = false)
    (sound : Sound env policy registry) {texts : HandoffTexts} {reason : LineageReason} {fromSeq : Option UInt64}
    {kOld : LineageKeypair} {successor now : String} {recovery : Option String}
    (small : ∀ seq ∈ fromSeq, seq.toNat < 2 ^ 63) (order : InOrderAfterHead env registry agentId.text now)
    (done : appendHandoff env policy texts
      (fun head recovery => head.handoff env reason fromSeq successor recovery now)
      registry agentId kOld successor recovery stamp = .ok after) : Sound env policy after := by
  obtain ⟨head, record, signature, read, minted, decodes, appended⟩ := appendHandoff_ok done
  obtain ⟨marks, uncommitted, successorKey, _⟩ := handoff_eq minted
  exact sound.append appended
    { fromSeq := marks ▸ small
      threshold := by simp [uncommitted]
      decodes := successorKey ▸ decodes
      inTime := sound.inTime_handoff irreflexive read minted order }

/-- A recovery by the guardians keeps every lineage sound. -/
theorem Sound.recover (irreflexive : ∀ instant, env.chrono.later instant instant = false)
    (sound : Sound env policy registry) {fromSeq : Option UInt64} {quorum : List RecoveryAttestation}
    {successor notBefore : String} {recovery : Option String} (small : ∀ seq ∈ fromSeq, seq.toNat < 2 ^ 63)
    (thresholds : ∀ roster ∈ policy, ∀ threshold ∈ roster.threshold, threshold < 2 ^ 63)
    (order : InOrderAfterHead env registry agentId.text notBefore)
    (done : appendRecovery env policy registry agentId successor quorum fromSeq recovery notBefore stamp =
      .ok after) : Sound env policy after := by
  obtain ⟨record, blob, minted, appended⟩ := appendRecovery_ok done
  obtain ⟨head, roster, threshold, handed, read, enrolled, explicit, handoff, rfl, decodes⟩ :=
    mintRecoveryRecord_ok minted
  obtain ⟨marks, _, successorKey, _⟩ := handoff_eq handoff
  have bounded := thresholds roster enrolled threshold explicit
  refine sound.append appended
    { fromSeq := marks ▸ small
      threshold := ?_
      decodes := successorKey ▸ decodes
      inTime := ?_ }
  · intro committed same
    obtain rfl := Option.some.inj same
    rw [UInt64.toNat_ofNat_of_lt' (Nat.lt_trans bounded (by decide))]
    exact bounded
  · have timed := sound.inTime_handoff irreflexive read handoff order
    rw [InTime, read] at timed ⊢
    exact timed

/-- An orderly call keeps every lineage sound. -/
theorem Sound.step (irreflexive : ∀ instant, env.chrono.later instant instant = false)
    (sound : Sound env policy registry) {call : RegistryCall} (orderly : Orderly env policy registry call) :
    Sound env policy (registryStep env policy registry call) := by
  unfold registryStep
  split
  · rename_i after done
    cases call with
    | register touched =>
        obtain rfl := Except.ok.inj done
        exact sound.register orderly
    | bind touched pubkeyB64 =>
        obtain ⟨rows, events, bound⟩ := bindAgentPubkey_ok done
        exact sound.rebind orderly rows events fun other different => by rw [bound, if_neg different]
    | unbind touched => exact sound.unbind orderly done
    | event event =>
        obtain rfl := Except.ok.inj done
        intro other
        rw [view_event orderly]
        exact sound other
    | append agentId record signature stamp => exact sound.append done orderly
    | enroll agentId keypair recovery now stamp => exact sound.enroll orderly done
    | succeed agentId kOld successor recovery now stamp => exact sound.handoff irreflexive (by simp) orderly done
    | revoke agentId kOld successor fromSeq recovery now stamp =>
        exact sound.handoff irreflexive (by simpa using orderly.1) orderly.2 done
    | recover agentId successor quorum fromSeq recovery notBefore stamp =>
        obtain ⟨small, thresholds, order⟩ := orderly
        exact sound.recover irreflexive small thresholds order done
  · exact sound

def emptyRegistry : Registry := ⟨⟨[], by decide⟩, [], []⟩

variable (env policy)

end Runs

section Samples

def genesisBlob : Blob := ⟨genesisSignature, by decide⟩

def sampleStamp (name : String) (short : name.toUTF8.data.toList.length < 2 ^ 63) : WitnessStamp :=
  ⟨⟨name, short⟩, ⟨"2026-06-16T11:00:00+00:00", by decide⟩, fun _ => none⟩

def aliceKeypair : LineageKeypair where
  agentId := "ai:alice"
  publicKey := ⟨aliceKey, fun _ _ => false⟩
  privateKey := some fun _ => ⟨rotationSignature, by decide⟩
  publicBase64 := genesisRecord.successorPubkeyB64

/-- Alice registers, stores her genesis and hands off an hour later. -/
def sampleHistory : List RegistryCall :=
  [.register "ai:alice", .append alice genesisRecord genesisBlob (sampleStamp "first" (by decide)),
    .succeed alice aliceKeypair rotationRecord.successorPubkeyB64 none rotationRecord.notBefore
      (sampleStamp "second" (by decide))]

def historyAfter (calls : Nat) : Registry :=
  run (registryStep sampleEnvironment none) emptyRegistry (sampleHistory.take calls)

end Samples
end AiMemory.Lineage
