import AiMemory.Library.Marked
import AiMemory.Rules.Policy
import AiMemory.Rules.SignedOnly

/-
This file proves what the policy version counts and which rules its digest binds.
-/

namespace AiMemory.Rules
open AiMemory.Machine AiMemory.Library AiMemory.SignedEvents

variable {sha256 : Bytes → Digest} {operator : Operator}

section Append

/-- An accepted event stands at the end of the chain. -/
theorem appendEvent_ok {events after : List EventRow} {event : SignedEvent}
    (appended : Appended sha256 events) (stored : appendEvent sha256 operator events event = .ok after) :
    ∃ row : EventRow, after = events ++ [row] ∧ row.eventType = event.eventType ∧
      row.payloadHash = event.payloadHash ∧ Appended sha256 after := by
  unfold appendEvent at stored
  cases accepted : appendSignedEventNoTx sha256 events ⟨event, operator.trySignAuditPayload⟩ with
  | error error =>
      rw [accepted] at stored
      cases stored
  | ok rows =>
      rw [accepted] at stored
      obtain rfl := Except.ok.inj stored
      have kept := appended.step ⟨event, operator.trySignAuditPayload⟩
      rw [appendStep, accepted] at kept
      obtain ⟨maxSeq, prevHash, head, _⟩ := appended.readChainHead_eq
      rw [appendSignedEventNoTx, head] at accepted
      exact ⟨_, (insertRow_ok accepted).1, rfl, rfl, kept⟩

/-- The latest advance is a row of the table. -/
theorem foldl_laterAdvance_mem {rows : List EventRow} {held : EventRow}
    (read : rows.foldl laterAdvance none = some held) : held ∈ rows := by
  refine (foldl_choice_mem ?_ read).resolve_left (fun empty => nomatch empty)
  intro first row
  cases first with
  | none => exact .inr rfl
  | some first =>
      rw [laterAdvance]
      split
      · exact .inr rfl
      · exact .inl rfl

/-- The last row of a chain is its latest advance when it is one. -/
theorem latestAdvance_concat {events : List EventRow} {row : EventRow}
    (appended : Appended sha256 (events ++ [row])) (advance : isAdvance row = true) :
    latestAdvance (events ++ [row]) = some row.payloadHash := by
  unfold latestAdvance
  rw [List.filter_append, List.filter_singleton, advance, cond_true, List.foldl_append, List.foldl_cons,
    List.foldl_nil]
  cases read : (events.filter isAdvance).foldl laterAdvance none with
  | none => rfl
  | some held =>
      have stored := List.mem_of_mem_filter (foldl_laterAdvance_mem read)
      have ascending := appended.chained.ascending (by simpa using appended.room)
      rw [List.pairwise_map, List.pairwise_append] at ascending
      have below := ascending.2.2 held stored row (List.mem_singleton.mpr rfl)
      obtain ⟨first, firstNumbered⟩ := Option.isSome_iff_exists.mp
        (appended.numbered (List.mem_append_left _ stored))
      obtain ⟨second, secondNumbered⟩ := Option.isSome_iff_exists.mp
        (appended.numbered (List.mem_append_right _ (List.mem_singleton.mpr rfl)))
      simp only [EventRow.toEvent, firstNumbered, secondNumbered, Option.getD_some] at below
      simp [laterAdvance, sequenceLe, firstNumbered, secondNumbered, Int64.le_of_lt below]

end Append

section Invariant

/-- The chain counts the calls, and its latest advance commits to the rules as they are. -/
structure Audited (sha256 : Bytes → Digest) (store : PolicyStore) (calls : Nat) : Prop where
  appended : Appended sha256 store.events
  counted : store.events.countP isAdvance = calls
  committed : calls ≠ 0 → latestAdvance store.events = some (payloadHash sha256
    (advanceSignableBytes (Int64.ofNat calls) (computePolicyDigest sha256 store.rules)))

/-- An advance commits to the rules that it is given. -/
theorem audited_of_advance {rules : RuleTable} {events after : List EventRow} {calls : Nat} {stamp : Stamp}
    (appended : Appended sha256 events) (counted : events.countP isAdvance = calls)
    (advanced : appendPolicyAdvanceNoTx sha256 operator rules events stamp = .ok after) :
    Audited sha256 ⟨rules, after⟩ (calls + 1) := by
  obtain ⟨row, rfl, sameType, sameHash, kept⟩ := appendEvent_ok appended advanced
  have advance : isAdvance row = true := by
    rw [isAdvance, sameType]
    rfl
  refine ⟨kept, by rw [List.countP_append, counted, List.countP_singleton, advance, if_pos rfl], ?_⟩
  intro _
  rw [latestAdvance_concat kept advance, sameHash, operatorEvent, policyAdvanceCount, counted,
    Int64.ofNat_add]
  rfl

/-- Another event of the operator counts no advance. -/
theorem appendEvent_other {events after : List EventRow} {stamp : Stamp} {eventType : Text} {hash : Blob}
    (appended : Appended sha256 events) (other : eventType ≠ policyAdvanced)
    (stored : appendEvent sha256 operator events (operatorEvent operator stamp eventType hash) = .ok after) :
    Appended sha256 after ∧ after.countP isAdvance = events.countP isAdvance := by
  obtain ⟨row, rfl, sameType, _, kept⟩ := appendEvent_ok appended stored
  have noAdvance : isAdvance row = false := by
    rw [isAdvance, sameType]
    exact decide_eq_false other
  exact ⟨kept, by rw [List.countP_append, List.countP_singleton, noAdvance, if_neg Bool.false_ne_true,
    Nat.add_zero]⟩

/-- A call leaves the store, or it ends with an advance over the rules that it leaves. -/
theorem mutate_cases {store next : PolicyStore} {mutation : Mutation} {changed : Bool}
    (appended : Appended sha256 store.events)
    (done : mutate sha256 operator store mutation = .ok (next, changed)) :
    changed = false ∧ next = store ∨
      changed = true ∧ ∃ middle stamp, Appended sha256 middle ∧
        middle.countP isAdvance = store.events.countP isAdvance ∧
        appendPolicyAdvanceNoTx sha256 operator next.rules middle stamp = .ok next.events := by
  cases mutation with
  | insertSigned rule advance =>
      obtain ⟨rules, _, rest⟩ := bind_eq_ok.mp done
      obtain ⟨events, advanced, finished⟩ := bind_eq_ok.mp rest
      cases finished
      exact .inr ⟨rfl, store.events, advance, appended, rfl, advanced⟩
  | setEnabledSigned id enabled audit advance =>
      rw [mutate, setEnabledSigned] at done
      split at done
      · cases done
        exact .inl ⟨rfl, rfl⟩
      · obtain ⟨middle, audited, rest⟩ := bind_eq_ok.mp done
        obtain ⟨events, advanced, finished⟩ := bind_eq_ok.mp rest
        cases finished
        have other : (if enabled then ruleEnabled else ruleDisabled) ≠ policyAdvanced := by
          cases enabled <;> decide
        obtain ⟨kept, counted⟩ := appendEvent_other appended other audited
        exact .inr ⟨rfl, middle, advance, kept, counted, advanced⟩
  | removeSigned id audit advance =>
      rw [mutate, removeSigned] at done
      split at done
      · cases done
        exact .inl ⟨rfl, rfl⟩
      · obtain ⟨middle, audited, rest⟩ := bind_eq_ok.mp done
        obtain ⟨events, advanced, finished⟩ := bind_eq_ok.mp rest
        cases finished
        have other : ruleRemoved ≠ policyAdvanced := by decide
        obtain ⟨kept, counted⟩ := appendEvent_other appended other audited
        exact .inr ⟨rfl, middle, advance, kept, counted, advanced⟩

/-- A mutation appends a record exactly when it changes a row. -/
theorem Audited.step {store : PolicyStore} {calls : Nat} (audited : Audited sha256 store calls)
    (mutation : Mutation) :
    Audited sha256 (mutateStep sha256 operator store mutation)
      (calls + if changedRow sha256 operator store mutation then 1 else 0) := by
  unfold mutateStep changedRow
  cases done : mutate sha256 operator store mutation with
  | error _ => exact audited
  | ok result =>
      obtain ⟨next, changed⟩ := result
      rcases mutate_cases audited.appended done with
        ⟨rfl, rfl⟩ | ⟨rfl, middle, stamp, kept, counted, advanced⟩
      · exact audited
      · exact audited_of_advance kept (counted.trans audited.counted) advanced

/-- A run appends as many records as it changes rows. -/
theorem Audited.run {store : PolicyStore} {calls : Nat} (audited : Audited sha256 store calls)
    (mutations : List Mutation) :
    Audited sha256 (run (mutateStep sha256 operator) store mutations)
      (calls + changedCalls sha256 operator store mutations) := by
  induction mutations generalizing store calls with
  | nil => exact audited
  | cons mutation rest ih =>
      rw [run_cons, changedCalls, ← Nat.add_assoc]
      exact ih (audited.step mutation)

/-- The count of the advances fits its word. -/
theorem Audited.count_toInt {store : PolicyStore} {calls : Nat} (audited : Audited sha256 store calls) :
    (policyAdvanceCount store.events).toInt = calls := by
  have room := audited.appended.room
  have few := audited.counted ▸ @List.countP_le_length _ isAdvance store.events
  rw [policyAdvanceCount, audited.counted]
  exact Int64.toInt_ofNat_of_lt (Nat.lt_of_le_of_lt few room)

/-- An audited store passes the advisory check of its digest. -/
theorem Audited.advisory {store : PolicyStore} {calls : Nat} (audited : Audited sha256 store calls) :
    verifyPolicyDigestAdvisory sha256 store = true := by
  unfold verifyPolicyDigestAdvisory
  simp only
  split
  · rfl
  · rename_i some
    have called : calls ≠ 0 := by
      intro none
      rw [policyAdvanceCount, audited.counted, none] at some
      exact some rfl
    rw [policyAdvanceCount, audited.counted, audited.committed called, decide_eq_true_eq]

end Invariant

section Binding

/-- The signed columns of the enabled rules in the order of their identifiers. -/
def enabledContent (table : RuleTable) :
    List (String × Bool × String × String × String × String × String × String) :=
  (table.list.filter fun rule => rule.enabled).map Rule.signed

def Rule.content (rule : Rule) : String × String × String × String × String :=
  (rule.id, rule.matcher, rule.severity, rule.reason, rule.namespace)

/-- What the engine loads for a kind, without the columns that the digest leaves out. -/
def loadedContent (key : VerifyingKey) (table : RuleTable) (kind : String) :
    Except RuleLoadError (List (String × String × String × String × String)) :=
  (listEnabledByKind (some key) (table.rows.map RuleRow.stored) kind).map (List.map Rule.content)

/-- The signature gate answers alike for the rows that share an identifier. -/
def SameVerdicts (key : VerifyingKey) (before after : RuleTable) : Prop :=
  ∀ row ∈ before.rows, ∀ other ∈ after.rows, row.id = other.id →
    (OperatorSigned key row.stored ↔ OperatorSigned key other.stored)

/-- The advisory check hashes these inputs before and after an edit. -/
def policyInputs (sha256 : Bytes → Digest) (before after : RuleTable) (seq : Int64) : List Bytes :=
  [policyInput before, policyInput after, advanceSignableBytes seq (computePolicyDigest sha256 before),
    advanceSignableBytes seq (computePolicyDigest sha256 after)]

theorem canonicalBytesForSigning_ne_nil (rule : Rule) : canonicalBytesForSigning rule ≠ [] :=
  List.cons_ne_nil _ _

/-- Equal advances commit to the same enabled rules. -/
theorem enabledContent_of_payload {before after : RuleTable} {seq : Int64}
    (collisionFree : CollisionFree sha256 (policyInputs sha256 before after seq))
    (same : payloadHash sha256 (advanceSignableBytes seq (computePolicyDigest sha256 before)) =
      payloadHash sha256 (advanceSignableBytes seq (computePolicyDigest sha256 after))) :
    enabledContent after = enabledContent before := by
  have payloads := collisionFree _ (by simp [policyInputs]) _ (by simp [policyInputs])
    (Subtype.ext (congrArg Blob.bytes same))
  have digests : computePolicyDigest sha256 before = computePolicyDigest sha256 after :=
    Subtype.ext (List.append_cancel_left payloads)
  have inputs := collisionFree _ (by simp [policyInputs]) _ (by simp [policyInputs]) digests
  exact (map_eq_of_flatMap_eq (fun _ _ _ _ => canonicalBytesForSigning_code)
    canonicalBytesForSigning_ne_nil inputs).symm

/-- A row passes the gate when it is enabled and signed by the operator. -/
def Enforced (key : VerifyingKey) (row : RuleRow) : Prop :=
  row.enabled = 1 ∧ enforcedRulePasses row.toRule (some key) = true

instance (key : VerifyingKey) (row : RuleRow) : Decidable (Enforced key row) :=
  inferInstanceAs (Decidable (_ ∧ _))

/-- The stored row is operator signed exactly when the loader enforces the row. -/
theorem operatorSigned_stored {key : VerifyingKey} {row : RuleRow} :
    OperatorSigned key row.stored ↔ Enforced key row := by
  have flag : row.stored.enabled = .integer 1 ↔ row.enabled = 1 := by simp [RuleRow.stored, Rule.stored]
  rw [operatorSigned_iff (rowToRule_stored row), flag, Enforced]

def orderedRows (table : RuleTable) : List RuleRow :=
  table.rows.insertionSort fun first second => first.stored.id.key ≤ second.stored.id.key

/-- The ordered rows are the rows of the table. -/
theorem mem_orderedRows {table : RuleTable} {row : RuleRow} : row ∈ orderedRows table ↔ row ∈ table.rows :=
  (List.perm_insertionSort _ _).mem_iff

theorem enabledContent_eq (table : RuleTable) :
    enabledContent table =
      ((orderedRows table).filter fun row => row.enabled ≠ 0).map fun row => row.toRule.signed := by
  unfold enabledContent RuleTable.list
  rw [List.filter_map, List.map_map]
  rfl

def loadedRows (key : VerifyingKey) (table : RuleTable) (kind : String) : List RuleRow :=
  (orderedRows table).filter fun row => row.kind = kind ∧ Enforced key row

/-- The loaded rows are the enforced rows of the kind. -/
theorem mem_loadedRows {key : VerifyingKey} {table : RuleTable} {kind : String} {row : RuleRow} :
    row ∈ loadedRows key table kind ↔ row ∈ table.rows ∧ row.kind = kind ∧ Enforced key row := by
  rw [loadedRows, List.mem_filter, mem_orderedRows, decide_eq_true_eq]

/-- The rows that pass the gate are enabled. -/
theorem loadedRows_eq (key : VerifyingKey) (table : RuleTable) (kind : String) :
    loadedRows key table kind =
      ((orderedRows table).filter fun row => row.enabled ≠ 0).filter
        fun row => row.kind = kind ∧ Enforced key row := by
  rw [loadedRows, List.filter_filter]
  apply List.filter_congr
  intro row _
  rw [Bool.eq_iff_iff]
  simp only [Bool.and_eq_true, decide_eq_true_eq]
  constructor
  · intro passes
    exact ⟨passes, by rw [passes.2.1]; decide⟩
  · exact And.left

theorem distinct_keys (table : RuleTable) : (table.rows.map fun row => row.stored.id.key).Nodup := by
  have keys : (table.rows.map fun row => row.stored.id.key) =
      (table.rows.map RuleRow.id).map fun id => (SqlValue.text (utf8 id)).key := by
    rw [List.map_map]
    rfl
  rw [keys]
  exact table.distinct.map fun _ _ same => utf8_injective (SqlValue.key_text_injective same)

/-- The engine loads a table of the declared types, and it loads the rows that pass the gate. -/
theorem listEnabledByKind_stored (key : VerifyingKey) (table : RuleTable) (kind : String) :
    listEnabledByKind (some key) (table.rows.map RuleRow.stored) kind =
      .ok ((loadedRows key table kind).map RuleRow.toRule) := by
  have selected : selectEnabled (table.rows.map RuleRow.stored) kind =
      ((orderedRows table).filter fun row => row.kind = kind ∧ row.enabled = 1).map RuleRow.stored := by
    have chosen : (fun row : StoredRule => decide (row.Selected kind)) ∘ RuleRow.stored =
        fun row : RuleRow => decide (row.kind = kind ∧ row.enabled = 1) := by
      funext row
      have texts : utf8 row.kind = utf8 kind ↔ row.kind = kind := utf8_injective.eq_iff
      simp [StoredRule.Selected, RuleRow.stored, Rule.stored, RuleRow.toRule, texts]
    rw [selectEnabled, List.filter_map, chosen, orderedRows,
      ← @insertionSort_filter _ _ _ (fun row : RuleRow => row.stored.id.key) _ (distinct_keys table)]
    exact (List.map_insertionSort (fun first second : RuleRow => first.stored.id.key ≤ second.stored.id.key)
      (fun first second : StoredRule => first.id.key ≤ second.id.key) RuleRow.stored _ fun _ _ _ _ => Iff.rfl).symm
  refine listEnabledByKind_ok.mpr
    ⟨((orderedRows table).filter fun row => row.kind = kind ∧ row.enabled = 1).map RuleRow.toRule, ?_, ?_⟩
  · rw [selected, List.forall₂_map_left_iff, List.forall₂_map_right_iff]
    exact List.forall₂_same.mpr fun row _ => rowToRule_stored row
  · rw [loadedRows, List.filter_map, List.filter_filter]
    congr 1
    apply List.filter_congr
    intro row _
    rw [Bool.eq_iff_iff]
    simp only [Function.comp_apply, Bool.and_eq_true, decide_eq_true_eq]
    constructor
    · rintro ⟨sameKind, enabled, passes⟩
      exact ⟨passes, sameKind, enabled⟩
    · rintro ⟨passes, sameKind, enabled⟩
      exact ⟨sameKind, enabled, passes⟩

/-- What is loaded is the content of the loaded rows. -/
theorem loadedContent_eq (key : VerifyingKey) (table : RuleTable) (kind : String) :
    loadedContent key table kind = .ok ((loadedRows key table kind).map fun row => row.toRule.content) := by
  rw [loadedContent, listEnabledByKind_stored, Except.map, List.map_map]
  rfl

/-- Rules with the same signed columns load alike when the gate answers alike. -/
theorem loadedContent_congr {key : VerifyingKey} {before after : RuleTable}
    (sameContent : enabledContent after = enabledContent before) (verdicts : SameVerdicts key before after)
    (kind : String) : loadedContent key after kind = loadedContent key before kind := by
  rw [enabledContent_eq, enabledContent_eq] at sameContent
  have kept := map_filter_congr sameContent fun row present other held same => by
    have columns := same
    simp only [Rule.signed, RuleRow.toRule, Prod.mk.injEq] at columns
    have stored := mem_orderedRows.mp (List.mem_of_mem_filter present)
    have otherStored := mem_orderedRows.mp (List.mem_of_mem_filter held)
    have verdict : Enforced key other ↔ Enforced key row :=
      operatorSigned_stored.symm.trans
        ((verdicts other otherStored row stored columns.2.2.1.symm).trans operatorSigned_stored)
    show decide (row.kind = kind ∧ Enforced key row) = decide (other.kind = kind ∧ Enforced key other)
    rw [decide_eq_decide, columns.2.2.2.1, verdict]
  rw [← loadedRows_eq, ← loadedRows_eq] at kept
  have parts := congrArg (List.map fun columns : String × Bool × String × String × String × String ×
    String × String => (columns.2.2.1, columns.2.2.2.2.1, columns.2.2.2.2.2.2.2, columns.2.2.2.2.2.2.1,
      columns.2.2.2.2.2.1)) kept
  rw [List.map_map, List.map_map] at parts
  rw [loadedContent_eq, loadedContent_eq]
  exact congrArg Except.ok parts

/-- A loaded row is loaded again by an equal listing. -/
theorem enforced_of_loadedContent {key : VerifyingKey} {before after : RuleTable}
    {row other : RuleRow} (listed : loadedContent key after row.kind = loadedContent key before row.kind)
    (stored : row ∈ before.rows) (otherStored : other ∈ after.rows) (sameId : row.id = other.id)
    (signed : OperatorSigned key row.stored) : OperatorSigned key other.stored := by
  rw [loadedContent_eq, loadedContent_eq] at listed
  have loaded : row.toRule.content ∈ (loadedRows key before row.kind).map fun row => row.toRule.content :=
    List.mem_map_of_mem (mem_loadedRows.mpr ⟨stored, rfl, operatorSigned_stored.mp signed⟩)
  rw [← Except.ok.inj listed] at loaded
  obtain ⟨found, held, same⟩ := List.mem_map.mp loaded
  obtain ⟨foundStored, _, foundSigned⟩ := mem_loadedRows.mp held
  have sameFound : found.id = other.id := (congrArg Prod.fst same).trans sameId
  rw [operatorSigned_stored]
  exact List.inj_on_of_nodup_map after.distinct foundStored otherStored sameFound ▸ foundSigned

/-- The listings agree for every kind exactly when the gate answers alike. -/
theorem loadedContent_iff {key : VerifyingKey} {before after : RuleTable}
    (sameContent : enabledContent after = enabledContent before) :
    (∀ kind, loadedContent key after kind = loadedContent key before kind) ↔
      SameVerdicts key before after := by
  constructor
  · intro listed row stored other otherStored sameId
    constructor
    · exact enforced_of_loadedContent (listed row.kind) stored otherStored sameId
    · exact enforced_of_loadedContent (listed other.kind).symm otherStored stored sameId.symm
  · exact loadedContent_congr sameContent

/-- The sequence counts the mutations, and the digest binds the signed columns of the enabled rules. -/
theorem policyVersion_binds (sha256 : Bytes → Digest) (operator : Operator) (key : VerifyingKey)
    (store : PolicyStore) (reachable : Reachable sha256 store.events)
    (fresh : ∀ row ∈ store.events, row.eventType ≠ policyAdvanced) (mutations : List Mutation) :
    let final := run (mutateStep sha256 operator) store mutations
    let calls := changedCalls sha256 operator store mutations
    (policyAdvanceCount final.events).toInt = calls ∧ verifyPolicyDigestAdvisory sha256 final = true ∧
      ∀ edited : RuleTable, 0 < calls →
        CollisionFree sha256
          (policyInputs sha256 final.rules edited (policyAdvanceCount final.events)) →
        verifyPolicyDigestAdvisory sha256 ⟨edited, final.events⟩ = true →
          enabledContent edited = enabledContent final.rules ∧
          ((∀ kind, loadedContent key edited kind = loadedContent key final.rules kind) ↔
            SameVerdicts key final.rules edited) := by
  intro final calls
  have counted : store.events.countP isAdvance = 0 := by
    apply List.countP_eq_zero.mpr
    intro row present
    simpa [isAdvance] using fresh row present
  have started : Audited sha256 store 0 :=
    ⟨appended_of_reachable reachable, counted, fun some => absurd rfl some⟩
  have audited : Audited sha256 final calls := Nat.zero_add calls ▸ started.run mutations
  refine ⟨audited.count_toInt, audited.advisory, ?_⟩
  intro edited called collisionFree passes
  have some : policyAdvanceCount final.events ≠ 0 := by
    intro none
    have count := audited.count_toInt
    rw [none] at count
    exact absurd (Int.ofNat.inj count) (Nat.ne_of_lt called)
  simp only [verifyPolicyDigestAdvisory, some, if_false, decide_eq_true_eq] at passes
  have committed := audited.committed (Nat.ne_of_gt called)
  have sequence : policyAdvanceCount final.events = Int64.ofNat calls := by
    rw [policyAdvanceCount, audited.counted]
  rw [← sequence] at committed
  have same := enabledContent_of_payload collisionFree (Option.some.inj (committed.symm.trans passes))
  exact ⟨same, loadedContent_iff same⟩

end Binding

section Samples

def policySha256 : Bytes → Digest :=
  digestOfTable
    [(canonicalBytesForSigning tmpRule, 0x6c16d391c5662f903b0f252821302fd120d6068c9b1484551b7e64ce32673c19),
      (advanceSignableBytes 1
          (digestOf 0x6c16d391c5662f903b0f252821302fd120d6068c9b1484551b7e64ce32673c19),
        0xe696e5c74633bb1f9ffd81f2b90d9f383c3d2b9653cb8cd707b091c278df7421)]

/-- The operator signed the payload hash of the first advance. -/
def advanceSignature : SignatureBytes :=
  ⟨beBytes 32 0x62edd22a65e42891d5a90d0790f800684ae57f74c44e3da57b9ca36e5337aca0 ++
    beBytes 32 0xcb7bcea84d5c1b45c5f97895a3aab82dee73b839be28b0f74de857c36fa96e0a, by decide⟩

def sampleSigner : Operator where
  sign message := if message = canonicalBytesForSigning tmpRule then tmpSignature else advanceSignature
  agentId := ⟨"operator", by decide⟩
  trySignAuditPayload _ := none

def firstAdvance : Stamp :=
  ⟨⟨"7c9e6679-7425-40de-944b-e07fc1f90ae7", by decide⟩, ⟨"2026-06-16T10:00:05+00:00", by decide⟩⟩

def noRules : PolicyStore := ⟨⟨[], List.nodup_nil⟩, []⟩

def addTmpRule : Mutation := .insertSigned { tmpRule with signature := some tmpSignature.1 } firstAdvance

def tmpRow : RuleRow :=
  ⟨"R001", "filesystem_write", tmpMatcher, "refuse", "no /tmp writes", "_global", "operator", 0, 1,
    some tmpSignature.1, attestOperatorSigned⟩

def tmpRules : RuleTable := ⟨[tmpRow], List.nodup_singleton _⟩

/-- An edit withdraws the attestation of the stored rule. -/
def withdrawn : RuleTable := ⟨[{ tmpRow with attestLevel := "unsigned" }], List.nodup_singleton _⟩

/-- The digest still holds the signed columns after the edit. -/
theorem withdrawn_content :
    let final := run (mutateStep policySha256 sampleSigner) noRules [addTmpRule]
    (policyAdvanceCount final.events).toInt = 1 ∧ enabledContent withdrawn = enabledContent final.rules := by
  intro final
  have binds := policyVersion_binds policySha256 sampleSigner sampleOperator noRules ⟨[], rfl⟩
    (fun row present => nomatch present) [addTmpRule]
  have called : changedCalls policySha256 sampleSigner noRules [addTmpRule] = 1 := by decide +kernel
  simp only [called] at binds
  exact ⟨binds.1, (binds.2.2 withdrawn (by decide) (by decide +kernel) (by decide +kernel)).1⟩

/-- Before the first advance the check passes every edit, and afterwards it passes an edit that makes
the engine drop a rule. -/
theorem edits_pass_unseen :
    let final := run (mutateStep policySha256 sampleSigner) noRules [addTmpRule]
    (verifyPolicyDigestAdvisory policySha256 ⟨tmpRules, noRules.events⟩ = true ∧
        loadedContent sampleOperator noRules.rules "filesystem_write" = .ok [] ∧
        loadedContent sampleOperator tmpRules "filesystem_write" =
          .ok [("R001", tmpMatcher, "refuse", "no /tmp writes", "_global")]) ∧
      CollisionFree policySha256
        (policyInputs policySha256 final.rules withdrawn (policyAdvanceCount final.events)) ∧
      verifyPolicyDigestAdvisory policySha256 ⟨withdrawn, final.events⟩ = true ∧
      loadedContent sampleOperator final.rules "filesystem_write" =
        .ok [("R001", tmpMatcher, "refuse", "no /tmp writes", "_global")] ∧
      loadedContent sampleOperator withdrawn "filesystem_write" = .ok [] :=
  ⟨⟨by decide +kernel, by decide +kernel, by decide +kernel⟩, by decide +kernel, by decide +kernel,
    by decide +kernel, by decide +kernel⟩

end Samples
end AiMemory.Rules
