import AiMemory.Library.Run
import AiMemory.Lineage.Verify
import AiMemory.Machine.Numbers
import Mathlib.Data.List.Chain

/-
This file inverts the steps of an accepted walk over a lineage.
-/

namespace AiMemory.Lineage
open AiMemory.Machine AiMemory.Library

variable {env : Environment} {policy : Option RecoveryPolicy}

/-- A consumed witness is the hash of the record. -/
theorem consumeWitness_ok {witnesses after : Multiset Bytes} {record : LineageRecord}
    (consumed : consumeWitness env witnesses record = .ok after) :
    ∃ hash, record.witnessPayloadHash env = some hash ∧ witnesses = hash ::ₘ after := by
  unfold consumeWitness at consumed
  cases hashed : record.witnessPayloadHash env with
  | none => simp [hashed] at consumed
  | some hash =>
      simp only [hashed] at consumed
      split at consumed
      · rename_i present
        refine ⟨hash, rfl, ?_⟩
        rw [← Except.ok.inj consumed, Multiset.cons_erase present]
      · cases consumed

/-- A later record names the successor of the record before it and is no genesis. -/
theorem checkPredecessor_ok {prior record : LineageRecord}
    (checked : checkPredecessor policy prior record = .ok ()) :
    record.predecessorPubkeyB64 = prior.successorPubkeyB64 := by
  by_contra differs
  unfold checkPredecessor at checked
  cases reason : record.reason <;> simp [reason, differs] at checked

/-- A later record counts up, links to the record before it and hands off from its head. -/
theorem checkSuccession_ok {prior record : LineageRecord}
    (checked : checkSuccession env policy prior record = .ok ()) :
    record.epoch = prior.epoch + 1 ∧ checkLink env prior record = .ok () ∧
      checkTime env prior record = .ok () ∧ checkPredecessor policy prior record = .ok () := by
  by_cases counted : record.epoch = prior.epoch + 1
  · simp only [checkSuccession, counted, ne_eq, not_true_eq_false, if_false] at checked
    obtain ⟨_, linked, checked⟩ := bind_eq_ok.mp checked
    obtain ⟨_, timed, named⟩ := bind_eq_ok.mp checked
    exact ⟨counted, linked, timed, named⟩
  · simp [checkSuccession, counted] at checked
    cases checked

/-- One step of an accepted walk passes its three checks and keeps their findings. -/
theorem walkRecord_ok {walk after : Walk} {entry : LineageRecord × Bytes}
    (walked : walkRecord env policy walk entry = .ok after) :
    walk.checkPrev env policy entry.1 = .ok () ∧
      consumeWitness env walk.witnesses entry.1 = .ok after.witnesses ∧
      (∃ recovery, authorize env policy entry.1 entry.2 = .ok recovery) ∧
      after.prev = some entry.1 ∧ after.revokedFromSeq = walk.suspectFrom entry.1 := by
  obtain ⟨_, checked, walked⟩ := bind_eq_ok.mp walked
  obtain ⟨witnesses, consumed, walked⟩ := bind_eq_ok.mp walked
  obtain ⟨recovery, authorized, done⟩ := bind_eq_ok.mp walked
  obtain rfl := Except.ok.inj done
  exact ⟨checked, consumed, ⟨recovery, authorized⟩, rfl, rfl⟩

/-- The check against the previous record runs on every record but the first. -/
theorem checkPrev_ok {walk : Walk} {prior record : LineageRecord} (stored : walk.prev = some prior)
    (checked : walk.checkPrev env policy record = .ok ()) :
    checkSuccession env policy prior record = .ok () := by
  rwa [Walk.checkPrev, stored] at checked

/-- The later records of an accepted walk count up from its last record. -/
theorem epochs_of_walk {records : List (LineageRecord × Bytes)} {walk final : Walk}
    (walked : records.foldlM (walkRecord env policy) walk = .ok final) {prior : LineageRecord}
    (stored : walk.prev = some prior) {number : Nat} (epoch : prior.epoch + 1 = UInt64.ofNat number) :
    (records.map Prod.fst).map LineageRecord.epoch =
      (List.range' number records.length).map UInt64.ofNat := by
  induction records generalizing walk prior number with
  | nil => rfl
  | cons entry rest ih =>
      obtain ⟨middle, stepped, walked⟩ := foldlM_cons_eq_ok.mp walked
      obtain ⟨checked, _, _, kept, _⟩ := walkRecord_ok stepped
      have counted := (checkSuccession_ok (checkPrev_ok stored checked)).1
      have current : entry.1.epoch = UInt64.ofNat number := counted.trans epoch
      have following : entry.1.epoch + 1 = UInt64.ofNat (number + 1) := by
        rw [current, UInt64.ofNat_add]
        rfl
      rw [List.map_cons, List.map_cons, ih walked kept following, List.length_cons, List.range'_succ,
        List.map_cons, current]

/-- An accepted lineage starts at a genesis and passes the whole walk and its end checks. -/
theorem verifyLineageWithRecovery_ok {records : Slice (LineageRecord × Bytes)}
    {witnessHashes : List Bytes} {boundPubkeyB64 : Option String} {verified : VerifiedLineage}
    (accepted : verifyLineageWithRecovery env records witnessHashes boundPubkeyB64 policy = .ok verified) :
    ∃ genesis rest final, records.items = genesis :: rest ∧ genesis.1.isGenesis = true ∧
      records.items.foldlM (walkRecord env policy) ⟨witnessHashes, none, none, none, false⟩ = .ok final ∧
      finishWalk env records.items.length witnessHashes.length boundPubkeyB64 final = .ok verified := by
  unfold verifyLineageWithRecovery at accepted
  split at accepted
  · cases accepted
  rename_i genesis signature rest items
  split at accepted
  · rename_i anchored
    obtain ⟨final, walked, finished⟩ := bind_eq_ok.mp accepted
    exact ⟨(genesis, signature), rest, final, items, anchored, walked, finished⟩
  · cases accepted

/-- A genesis stands at epoch zero. -/
theorem LineageRecord.epoch_of_isGenesis {record : LineageRecord} (genesis : record.isGenesis = true) :
    record.epoch = 0 := by
  simp only [isGenesis, decide_eq_true_eq] at genesis
  exact genesis.1

/-- An accepted lineage counts its epochs from zero. -/
theorem epochs_of_accepted {records : Slice (LineageRecord × Bytes)} {witnessHashes : List Bytes}
    {boundPubkeyB64 : Option String} {verified : VerifiedLineage}
    (accepted : verifyLineageWithRecovery env records witnessHashes boundPubkeyB64 policy = .ok verified) :
    (records.items.map Prod.fst).map LineageRecord.epoch =
      (List.range' 0 records.items.length).map UInt64.ofNat := by
  obtain ⟨genesis, rest, final, items, anchored, walked, _⟩ := verifyLineageWithRecovery_ok accepted
  rw [items] at walked ⊢
  obtain ⟨middle, stepped, walked⟩ := foldlM_cons_eq_ok.mp walked
  obtain ⟨_, _, _, kept, _⟩ := walkRecord_ok stepped
  have first : genesis.1.epoch = UInt64.ofNat 0 := LineageRecord.epoch_of_isGenesis anchored
  have following : genesis.1.epoch + 1 = UInt64.ofNat 1 := by rw [first]; rfl
  rw [List.map_cons, List.map_cons, epochs_of_walk walked kept following, List.length_cons,
    List.range'_succ, List.map_cons, first]

/-- The epochs of an accepted lineage are its positions. -/
theorem positions_of_accepted {records : Slice (LineageRecord × Bytes)} {witnessHashes : List Bytes}
    {boundPubkeyB64 : Option String} {verified : VerifiedLineage}
    (accepted : verifyLineageWithRecovery env records witnessHashes boundPubkeyB64 policy = .ok verified) :
    records.items.map (fun entry => entry.1.epoch.toNat) = List.range records.items.length := by
  have short := records.short
  have epochs := congrArg (List.map UInt64.toNat) (epochs_of_accepted accepted)
  rw [List.map_map, List.map_map, List.map_map] at epochs
  rw [List.range_eq_range']
  refine epochs.trans ((List.map_congr_left fun number inside => ?_).trans (List.map_id _))
  have bound := (List.mem_range'_1.mp inside).2
  simp only [Function.comp_apply, UInt64.toNat_ofNat', id_eq]
  exact Nat.mod_eq_of_lt (by omega)

end AiMemory.Lineage
