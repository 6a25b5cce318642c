import AiMemory.Lineage.RegistryRuns

/-
This file proves that the authority over an enrolled agent only passes along the stored records, whatever is called.
-/

namespace AiMemory.Lineage
open AiMemory.Library AiMemory.Machine AiMemory.SignedEvents

section Decoding

/-- Rows decode one after the other. -/
theorem decodeRows_append_ok {first second : List LineageRow} {entries : List (LineageRecord × Bytes)} :
    decodeRows (first ++ second) = .ok entries ↔
      ∃ earlier later, decodeRows first = .ok earlier ∧ decodeRows second = .ok later ∧ entries = earlier ++ later := by
  induction first generalizing entries with
  | nil =>
      constructor
      · exact fun decoded => ⟨[], entries, rfl, decoded, rfl⟩
      · rintro ⟨earlier, later, none_first, decoded, rfl⟩
        obtain rfl := Except.ok.inj none_first
        exact decoded
  | cons row rows ih =>
      constructor
      · intro decoded
        obtain ⟨entry, read, decoded⟩ := bind_eq_ok.mp decoded
        obtain ⟨rest, decoded, done⟩ := bind_eq_ok.mp decoded
        obtain ⟨earlier, later, front, back, rfl⟩ := ih.mp decoded
        refine ⟨entry :: earlier, later, ?_, back, (Except.ok.inj done).symm⟩
        exact bind_eq_ok.mpr ⟨entry, read, bind_eq_ok.mpr ⟨earlier, front, rfl⟩⟩
      · rintro ⟨earlier, later, front, back, rfl⟩
        obtain ⟨entry, read, front⟩ := bind_eq_ok.mp front
        obtain ⟨rest, tail, done⟩ := bind_eq_ok.mp front
        obtain rfl := Except.ok.inj done
        exact bind_eq_ok.mpr ⟨entry, read, bind_eq_ok.mpr ⟨rest ++ later, ih.mpr ⟨rest, later, tail, back, rfl⟩, rfl⟩⟩

/-- The entries of a read lineage are its decoded rows. -/
theorem readLineage_ok {registry : Registry} {agentId : String} {entries : Slice (LineageRecord × Bytes)}
    (read : readLineage registry agentId = .ok entries) :
    decodeRows (lineageRows registry agentId) = .ok entries.items := by
  unfold readLineage at read
  split at read
  · cases read
  · rename_i found decoded
    obtain rfl := Except.ok.inj read
    exact decoded

theorem decode_epoch {row : LineageRow} {entry : LineageRecord × Bytes} (decoded : row.decode = .ok entry) :
    entry.1.epoch = UInt64.ofNat row.epoch.toNat := by
  unfold LineageRow.decode at decoded
  split at decoded
  · cases decoded
  split at decoded
  · cases decoded
  split at decoded
  · cases decoded
  obtain rfl := Except.ok.inj decoded
  rfl

end Decoding

section Ascent

variable {env : Environment} {policy : Option RecoveryPolicy} {registry : Registry} {agentId : String}

/-- The rows of each agent are stored in the order of their epochs, which fit in signed columns. -/
structure Ascending (registry : Registry) : Prop where
  ascends : ∀ agentId, (registry.view agentId).rows.Pairwise fun first second => first.epoch < second.epoch
  fits : ∀ row ∈ registry.lineage.items, 0 ≤ row.epoch ∧ row.epoch ≤ i64Max

theorem ascending_emptyRegistry : Ascending emptyRegistry where
  ascends _ := List.Pairwise.nil
  fits _ present := nomatch present

/-- Rows in the order of their epochs are read as they are stored. -/
theorem Ascending.lineageRows_eq (ascending : Ascending registry) (agentId : String) :
    lineageRows registry agentId = (registry.view agentId).rows :=
  ((ascending.ascends agentId).imp fun smaller => Int.le_of_lt smaller).insertionSort_eq

/-- The head of an agent is its last row. -/
theorem Ascending.head_row (ascending : Ascending registry) {head : LineageRecord × Bytes}
    (read : lineageHead registry agentId = .ok (some head)) :
    ∃ earlier row, (registry.view agentId).rows = earlier ++ [row] ∧ row.decode = .ok head := by
  obtain ⟨entries, read, last⟩ := map_eq_ok.mp read
  have decoded := readLineage_ok read
  rw [ascending.lineageRows_eq] at decoded
  rcases List.eq_nil_or_concat (registry.view agentId).rows with none_stored | ⟨earlier, row, stored⟩
  · rw [none_stored] at decoded
    rw [← Except.ok.inj decoded] at last
    cases last
  · rw [List.concat_eq_append] at stored
    rw [stored] at decoded
    obtain ⟨_, later, _, single, listed⟩ := decodeRows_append_ok.mp decoded
    obtain ⟨entry, decoded, single⟩ := bind_eq_ok.mp single
    obtain ⟨_, nothing, single⟩ := bind_eq_ok.mp single
    obtain rfl := Except.ok.inj nothing
    obtain rfl := Except.ok.inj single
    rw [listed, List.getLast?_concat] at last
    obtain rfl := Option.some.inj last
    exact ⟨earlier, row, stored, decoded⟩

/-- A record that passes its checks comes after every row of its agent. -/
theorem Ascending.last (ascending : Ascending registry) {record : LineageRecord} {signature : Bytes}
    (passed : Preflight env policy registry agentId record signature) :
    ∀ row ∈ (registry.view agentId).rows, row.epoch < (rowOf record signature).epoch := by
  intro row present
  obtain ⟨head, read, succeeds⟩ := passed.head
  cases head with
  | none =>
      obtain ⟨entries, read, last⟩ := map_eq_ok.mp read
      have decoded := readLineage_ok read
      rw [ascending.lineageRows_eq] at decoded
      have counted := length_decodeRows decoded
      rw [List.getLast?_eq_none_iff.mp last, List.length_nil] at counted
      rw [List.length_eq_zero_iff.mp counted.symm] at present
      cases present
  | some head =>
      obtain ⟨earlier, lastRow, stored, decoded⟩ := ascending.head_row read
      have order := ascending.ascends agentId
      rw [stored] at order present
      have here : lastRow ∈ registry.lineage.items := by
        have listed : lastRow ∈ (registry.view agentId).rows := by simp [stored]
        exact List.mem_of_mem_filter listed
      obtain ⟨natural, small⟩ := ascending.fits lastRow here
      have below : row.epoch ≤ lastRow.epoch := by
        rcases List.mem_append.mp present with before | latest
        · exact Int.le_of_lt ((List.pairwise_append.mp order).2.2 row before lastRow List.mem_cons_self)
        · rw [List.mem_singleton.mp latest]
      have counted : record.epoch.toNat = lastRow.epoch.toNat + 1 := by
        rw [(checkHead_ok succeeds).2.1, decode_epoch decoded, UInt64.toNat_add, UInt64.toNat_ofNat']
        rw [i64Max] at small
        simp only [UInt64.reduceToNat]
        omega
      show row.epoch < (record.epoch.toNat : Int)
      omega

/-- A call leaves the stored records or appends one that passed its checks. -/
theorem registryStep_lineage (env : Environment) (policy : Option RecoveryPolicy) (registry : Registry)
    (call : RegistryCall) :
    (registryStep env policy registry call).lineage = registry.lineage ∨
      ∃ agentId record signature stamp,
        appendLineageRecord env policy registry agentId record signature stamp =
          .ok (registryStep env policy registry call) := by
  unfold registryStep
  split
  · rename_i after done
    cases call with
    | register touched =>
        obtain rfl := Except.ok.inj done
        exact .inl rfl
    | bind touched pubkeyB64 => exact .inl (bindAgentPubkey_ok done).1
    | unbind touched =>
        rw [performCall, revokeAgentPubkey] at done
        split at done
        · obtain rfl := Except.ok.inj done
          exact .inl rfl
        · cases done
    | event event =>
        obtain rfl := Except.ok.inj done
        exact .inl rfl
    | append agentId record signature stamp => exact .inr ⟨agentId, record, signature, stamp, done⟩
    | enroll agentId keypair recovery now stamp =>
        obtain ⟨signature, _, appended⟩ := enrollLineage_ok done
        exact .inr ⟨agentId, _, signature, stamp, appended⟩
    | succeed agentId kOld successor recovery now stamp =>
        rw [performCall, appendSuccession] at done
        obtain ⟨_, record, signature, _, _, _, appended⟩ := appendHandoff_ok done
        exact .inr ⟨agentId, record, signature, stamp, appended⟩
    | revoke agentId kOld successor fromSeq recovery now stamp =>
        rw [performCall, appendRevocation] at done
        obtain ⟨_, record, signature, _, _, _, appended⟩ := appendHandoff_ok done
        exact .inr ⟨agentId, record, signature, stamp, appended⟩
    | recover agentId successor quorum fromSeq recovery notBefore stamp =>
        obtain ⟨record, blob, _, appended⟩ := appendRecovery_ok done
        exact .inr ⟨agentId, record, blob, stamp, appended⟩
  · exact .inl rfl

/-- Every call keeps the order of the rows. -/
theorem Ascending.step (ascending : Ascending registry) (call : RegistryCall) :
    Ascending (registryStep env policy registry call) := by
  rcases registryStep_lineage env policy registry call with kept | ⟨owner, record, signature, stamp, appended⟩
  · exact
      { ascends := fun agentId => by
          rw [Registry.view, kept]
          exact ascending.ascends agentId
        fits := by
          rw [kept]
          exact ascending.fits }
  · obtain ⟨passed, rows, _⟩ := appendLineageRecord_ok appended
    obtain ⟨⟨hash, _, own⟩, others⟩ := view_append appended
    constructor
    · intro agentId
      by_cases same : agentId = owner.text
      · subst same
        rw [own]
        refine List.pairwise_append.mpr ⟨ascending.ascends _, List.pairwise_singleton _ _, ?_⟩
        intro row present latest listed
        rw [List.mem_singleton.mp listed]
        exact ascending.last passed row present
      · rw [others agentId same]
        exact ascending.ascends agentId
    · intro row present
      rw [rows] at present
      rcases List.mem_append.mp present with earlier | latest
      · exact ascending.fits row earlier
      · rw [List.mem_singleton.mp latest]
        exact ⟨Int.natCast_nonneg _, passed.fits⟩

/-- A call adds rows only behind the rows of an agent. -/
theorem rows_step (call : RegistryCall) (agentId : String) :
    (registry.view agentId).rows <+: ((registryStep env policy registry call).view agentId).rows := by
  rcases registryStep_lineage env policy registry call with kept | ⟨owner, record, signature, stamp, appended⟩
  · have same : ((registryStep env policy registry call).view agentId).rows = (registry.view agentId).rows := by
      simp only [Registry.view, kept]
    rw [same]
  · obtain ⟨_, rows, _⟩ := appendLineageRecord_ok appended
    simp only [Registry.view, rows, List.filter_append]
    exact List.prefix_append _ _

variable (env policy)

/-- A run keeps the epochs of the lineage ascending. -/
theorem Ascending.history (ascending : Ascending registry) (calls : List RegistryCall) :
    Ascending (run (registryStep env policy) registry calls) := by
  have preserved : ∀ (current : Registry) (call : RegistryCall),
      Ascending current → Ascending (registryStep env policy current call) := fun _ call ordered => ordered.step call
  exact run_invariant_always preserved calls ascending

/-- A run only appends to the lineage of an agent. -/
theorem rows_run (registry : Registry) (calls : List RegistryCall) (agentId : String) :
    (registry.view agentId).rows <+: ((run (registryStep env policy) registry calls).view agentId).rows := by
  have continues : ∀ (current : Registry) (call : RegistryCall),
      (registry.view agentId).rows <+: (current.view agentId).rows →
        (registry.view agentId).rows <+: ((registryStep env policy current call).view agentId).rows :=
    fun _ call before => before.trans (rows_step call agentId)
  exact run_invariant_always continues calls (List.prefix_refl _)

variable {env policy}

/-- What is read of an agent later continues what was read before. -/
theorem Ascending.read_run (ascending : Ascending registry) {calls : List RegistryCall}
    {before after : Slice (LineageRecord × Bytes)} (read : readLineage registry agentId = .ok before)
    (readLater : readLineage (run (registryStep env policy) registry calls) agentId = .ok after) :
    before.items <+: after.items := by
  have earlier := readLineage_ok read
  have later := readLineage_ok readLater
  rw [ascending.lineageRows_eq] at earlier
  rw [(ascending.history env policy calls).lineageRows_eq] at later
  obtain ⟨added, grown⟩ := rows_run env policy registry calls agentId
  rw [← grown] at later
  obtain ⟨front, back, decoded, _, listed⟩ := decodeRows_append_ok.mp later
  rw [earlier] at decoded
  obtain rfl := Except.ok.inj decoded
  exact ⟨back, listed.symm⟩

end Ascent

section Authority

variable {env : Environment} {policy : Option RecoveryPolicy} {registry : Registry} {agentId : String}
  {key : VerifyingKey}

/-- The authority over an enrolled agent is the key that its last record names. -/
theorem currentAuthoritativeKey_ok (enrolled : lineageRows registry agentId ≠ [])
    (trusted : currentAuthoritativeKey env policy registry agentId = .ok (some key)) :
    ∃ entries head, readLineage registry agentId = .ok entries ∧ entries.items.getLast? = some head ∧
      decodePublicBase64 env head.1.successorPubkeyB64 = some key ∧
      entries.items.IsChain (Authorized env policy) := by
  obtain ⟨entries, read, trusted⟩ := bind_eq_ok.mp trusted
  have nonempty : entries.items ≠ [] := by
    intro nothing
    have counted := length_decodeRows (readLineage_ok read)
    rw [nothing, List.length_nil] at counted
    exact enrolled (List.length_eq_zero_iff.mp counted.symm)
  rw [if_neg (by simpa using nonempty)] at trusted
  split at trusted
  · rename_i verified accepted
    obtain rfl := Option.some.inj (Except.ok.inj trusted)
    obtain ⟨first, rest, final, items, _, walked, finished⟩ := verifyLineageWithRecovery_ok accepted
    obtain ⟨⟨last, stored, decoded⟩, _, _⟩ := finishWalk_verdict finished
    have stops := prev_of_walk walked
    rw [stored, Option.or_none] at stops
    obtain ⟨head, isLast, rfl⟩ := Option.map_eq_some_iff.mp stops.symm
    rw [items] at walked
    obtain ⟨middle, stepped, walked⟩ := foldlM_cons_eq_ok.mp walked
    obtain ⟨_, _, _, kept, _⟩ := walkRecord_ok stepped
    exact ⟨entries, head, read, isLast, decoded, items ▸ handedOff_of_walk walked kept⟩
  · cases trusted

variable (env policy)

/-- Between two moments of any history the authority over an enrolled agent passes from the old key to the new one
along records that were stored in between, each signed by the key before it or by a quorum of the guardians. -/
theorem authority_handed_down (calls later : List RegistryCall) (agentId : String) (key newKey : VerifyingKey) :
    let registry := run (registryStep env policy) emptyRegistry calls
    let final := run (registryStep env policy) registry later
    lineageRows registry agentId ≠ [] →
      currentAuthoritativeKey env policy registry agentId = .ok (some key) →
      currentAuthoritativeKey env policy final agentId = .ok (some newKey) →
      ∃ before after head added, readLineage registry agentId = .ok before ∧
        before.items.getLast? = some head ∧ readLineage final agentId = .ok after ∧
        after.items = before.items ++ added ∧ decodePublicBase64 env head.1.successorPubkeyB64 = some key ∧
        (head :: added).IsChain (Authorized env policy) ∧
        decodePublicBase64 env (added.getLastD head).1.successorPubkeyB64 = some newKey := by
  intro registry final enrolled trusted trustedLater
  have ascending : Ascending registry := ascending_emptyRegistry.history env policy calls
  have enrolledLater : lineageRows final agentId ≠ [] := by
    rw [(ascending.history env policy later).lineageRows_eq]
    rw [ascending.lineageRows_eq] at enrolled
    intro nothing
    have shorter := rows_run env policy registry later agentId
    rw [nothing] at shorter
    exact enrolled (List.prefix_nil.mp shorter)
  obtain ⟨before, head, read, isLast, decoded, _⟩ := currentAuthoritativeKey_ok enrolled trusted
  obtain ⟨after, newHead, readLater, isLater, decodedLater, chain⟩ :=
    currentAuthoritativeKey_ok enrolledLater trustedLater
  obtain ⟨added, grown⟩ := ascending.read_run read readLater
  obtain ⟨front, split⟩ := List.getLast?_eq_some_iff.mp isLast
  refine ⟨before, after, head, added, read, isLast, readLater, grown.symm, decoded, ?_, ?_⟩
  · rw [← grown, split, List.append_assoc] at chain
    exact chain.right_of_append
  · have ends : (added.getLastD head) = newHead := by
      rw [← grown, split, List.append_assoc, List.getLast?_append, List.singleton_append, List.getLast?_cons,
        Option.some_or] at isLater
      rw [List.getLastD_eq_getLast?]
      exact Option.some.inj isLater
    rw [ends]
    exact decodedLater

end Authority

section Samples

/-- The authority over Alice passes to her next key along the rotation that she signed. -/
theorem authority_handed_down_alice :
    ∃ head added, (head :: added).IsChain (Authorized sampleEnvironment none) ∧
      decodePublicBase64 sampleEnvironment head.1.successorPubkeyB64 ≠
        decodePublicBase64 sampleEnvironment (added.getLastD head).1.successorPubkeyB64 := by
  have enrolled : lineageRows (historyAfter 2) "ai:alice" ≠ [] := by decide +kernel
  have resumed : historyAfter 3 =
      run (registryStep sampleEnvironment none) (historyAfter 2) (sampleHistory.drop 2) := by
    rw [historyAfter, historyAfter, ← run_append]
    rfl
  have trusted : ((currentAuthoritativeKey sampleEnvironment none (historyAfter 2) "ai:alice").map
      fun key => key.map VerifyingKey.toBytes) = .ok (some aliceKey) := by decide +kernel
  have trustedLater : ((currentAuthoritativeKey sampleEnvironment none (historyAfter 3) "ai:alice").map
      fun key => key.map VerifyingKey.toBytes) = .ok (some nextKey) := by decide +kernel
  obtain ⟨_, before, held⟩ := map_eq_ok.mp trusted
  rw [resumed] at trustedLater
  obtain ⟨_, after, heldLater⟩ := map_eq_ok.mp trustedLater
  obtain ⟨key, rfl, keyBytes⟩ := Option.map_eq_some_iff.mp held
  obtain ⟨newKey, rfl, newBytes⟩ := Option.map_eq_some_iff.mp heldLater
  obtain ⟨_, _, head, added, _, _, _, _, decoded, chain, decodedLater⟩ :=
    authority_handed_down sampleEnvironment none (sampleHistory.take 2) (sampleHistory.drop 2) "ai:alice" key newKey
      enrolled before after
  refine ⟨head, added, chain, ?_⟩
  rw [decoded, decodedLater, ne_eq, Option.some.injEq]
  rintro rfl
  rw [keyBytes] at newBytes
  exact absurd newBytes (by decide +kernel)

end Samples
end AiMemory.Lineage
