import AiMemory.Rules.Engine

/-
This file decides when only the rules with a valid operator signature decide.
-/

namespace AiMemory.Rules
open AiMemory.Crdt AiMemory.Library AiMemory.Machine

/-- The columns of a row hold values of the types that the loading reads. -/
structure StoredRule.WellTyped (row : StoredRule) : Prop where
  texts : ∀ column ∈ [row.id, row.kind, row.matcher, row.severity, row.reason, row.namespace, row.createdBy,
    row.attestLevel], ∃ text, column = .text (utf8 text)
  numbers : ∀ column ∈ [row.createdAt, row.enabled], ∃ number, column = .integer number
  signature : row.signature = .null ∨ ∃ bytes, row.signature = .blob bytes

/-- An enabled row carries a valid operator signature over its signed columns, whatever its creation time holds. -/
def OperatorSigned (key : VerifyingKey) (row : StoredRule) : Prop :=
  row.enabled = .integer 1 ∧ ∃ rule, rowToRule { row with createdAt := .integer 0 } = .ok rule ∧
    rule.attestLevel = attestOperatorSigned ∧ verifyRuleSignature rule key = true

/-- The decision of a fresh engine on an action, or the error of its loading. -/
def loadAndEvaluate (surroundings : Surroundings) (key : VerifyingKey) (table : StoredRules) (action : AgentAction) :
    Except RuleLoadError Decision :=
  (RuleEngine.loadForAction (some key) table action).map fun engine => engine.evaluate surroundings action

section Decoding

variable {key : VerifyingKey} {row : StoredRule} {rule : Rule}

/-- A row decodes exactly when its columns are well typed. -/
theorem wellTyped_iff : row.WellTyped ↔ ∃ rule, rowToRule row = .ok rule := by
  constructor
  · rintro ⟨texts, numbers, signature⟩
    simp only [List.forall_mem_cons, List.not_mem_nil, false_imp_iff, implies_true, and_true] at texts numbers
    obtain ⟨⟨id, isId⟩, ⟨kind, isKind⟩, ⟨matcher, isMatcher⟩, ⟨severity, isSeverity⟩, ⟨reason, isReason⟩,
      ⟨scope, isScope⟩, ⟨creator, isCreator⟩, attest, isAttest⟩ := texts
    obtain ⟨⟨created, isCreated⟩, enabled, isEnabled⟩ := numbers
    obtain ⟨bytes, isSignature⟩ : ∃ bytes : Option Bytes, row.signature = bytes.elim .null .blob := by
      rcases signature with null | ⟨bytes, blob⟩
      · exact ⟨none, null⟩
      · exact ⟨some bytes, blob⟩
    refine ⟨⟨id, kind, matcher, severity, reason, scope, creator, created, enabled ≠ 0, bytes, attest⟩,
      rowToRule_ok.mpr ⟨enabled, rfl, ?_⟩⟩
    cases row
    simp_all [Rule.stored]
  · rintro ⟨rule, decoded⟩
    obtain ⟨enabled, _, rfl⟩ := rowToRule_ok.mp decoded
    refine ⟨by simp [Rule.stored], by simp [Rule.stored], ?_⟩
    cases signed : rule.signature with
    | none => exact .inl (by simp [Rule.stored, signed])
    | some bytes => exact .inr ⟨bytes, by simp [Rule.stored, signed]⟩

/-- The gate reads the signed columns of a row that decodes. -/
theorem operatorSigned_iff (decoded : rowToRule row = .ok rule) :
    OperatorSigned key row ↔ row.enabled = .integer 1 ∧ enforcedRulePasses rule (some key) = true := by
  obtain ⟨enabled, flag, rfl⟩ := rowToRule_ok.mp decoded
  have undated : rowToRule { rule.stored enabled with createdAt := .integer 0 } = .ok { rule with createdAt := 0 } :=
    rowToRule_ok.mpr ⟨enabled, flag, rfl⟩
  simp only [OperatorSigned, undated, Except.ok.injEq, exists_eq_left', enforcedRulePasses, Bool.and_eq_true,
    decide_eq_true_eq]
  rfl

end Decoding

section Loading

variable {key : VerifyingKey} {kind : String} {rows : List StoredRule} {loaded : List Rule}

/-- The query selects the enabled rows of the kind. -/
theorem mem_selectEnabled {row : StoredRule} : row ∈ selectEnabled rows kind ↔ row ∈ rows ∧ row.Selected kind := by
  rw [selectEnabled, List.mem_insertionSort, List.mem_filter, decide_eq_true_eq]

/-- A load succeeds exactly when every selected row is decoded, and then it keeps the signed rules. -/
theorem listEnabledByKind_ok {operatorPubkey : Option VerifyingKey} :
    listEnabledByKind operatorPubkey rows kind = .ok loaded ↔
      ∃ rules, List.Forall₂ (fun row rule => rowToRule row = .ok rule) (selectEnabled rows kind) rules ∧
        loaded = rules.filter fun rule => enforcedRulePasses rule operatorPubkey := by
  simp only [listEnabledByKind, bind_eq_ok, mapError_eq_ok, mapM_eq_ok]
  apply exists_congr
  intro rules
  exact and_congr_right' ⟨fun done => (Except.ok.inj done).symm, fun same => congrArg Except.ok same.symm⟩

/-- The loading of a kind succeeds exactly when every selected row is well typed. -/
theorem exists_listEnabledByKind_ok {operatorPubkey : Option VerifyingKey} :
    (∃ loaded, listEnabledByKind operatorPubkey rows kind = .ok loaded) ↔
      ∀ row ∈ rows, row.Selected kind → row.WellTyped := by
  have decodes := @exists_mapM_eq_ok _ _ _ rowToRule (selectEnabled rows kind)
  simp only [mapM_eq_ok, mem_selectEnabled, ← wellTyped_iff, and_imp] at decodes
  rw [← decodes]
  simp only [listEnabledByKind_ok]
  constructor
  · rintro ⟨_, rules, converted, _⟩
    exact ⟨rules, converted⟩
  · rintro ⟨rules, converted⟩
    exact ⟨_, rules, converted, rfl⟩

/-- The loading keeps the rules of the signed rows of the kind. -/
theorem mem_listEnabledByKind (ok : listEnabledByKind (some key) rows kind = .ok loaded) {rule : Rule} :
    rule ∈ loaded ↔ ∃ row ∈ rows, row.kind = .text (utf8 kind) ∧ OperatorSigned key row ∧ rowToRule row = .ok rule := by
  obtain ⟨rules, converted, rfl⟩ := listEnabledByKind_ok.mp ok
  rw [List.mem_filter, mem_of_converted converted]
  constructor
  · rintro ⟨⟨row, selected, decoded⟩, passes⟩
    obtain ⟨stored, sameKind, enabled⟩ := mem_selectEnabled.mp selected
    exact ⟨row, stored, sameKind, (operatorSigned_iff decoded).mpr ⟨enabled, passes⟩, decoded⟩
  · rintro ⟨row, stored, sameKind, signed, decoded⟩
    obtain ⟨enabled, passes⟩ := (operatorSigned_iff decoded).mp signed
    exact ⟨⟨row, mem_selectEnabled.mpr ⟨stored, sameKind, enabled⟩, decoded⟩, passes⟩

/-- The identifier of a rule, as the database orders it. -/
def Rule.idKey (rule : Rule) : Lex (Nat × List Nat) := (SqlValue.text (utf8 rule.id)).key

theorem SqlValue.key_text_injective {first second : Bytes} (same : (text first).key = (text second).key) :
    first = second := by
  have bytes := (Prod.mk.inj (toLex.injective same)).2
  exact List.map_injective_iff.mpr (fun _ _ => UInt8.toNat_inj.mp) bytes

/-- The decoded rules have the identifiers of their rows. -/
theorem converted_ids {rules : List Rule}
    (converted : List.Forall₂ (fun row rule => rowToRule row = .ok rule) rows rules) :
    rules.map (fun rule => SqlValue.text (utf8 rule.id)) = rows.map StoredRule.id := by
  induction converted with
  | nil => rfl
  | cons decoded _ ih =>
      obtain ⟨enabled, _, rfl⟩ := rowToRule_ok.mp decoded
      rw [List.map_cons, List.map_cons, ih]
      rfl

/-- The loaded rules stand in the order of their identifiers, which are distinct. -/
theorem listEnabledByKind_sorted {table : StoredRules} {operatorPubkey : Option VerifyingKey}
    (ok : listEnabledByKind operatorPubkey table.rows kind = .ok loaded) :
    (loaded.map Rule.idKey).Nodup ∧ loaded.Pairwise fun first second => first.idKey ≤ second.idKey := by
  obtain ⟨rules, converted, rfl⟩ := listEnabledByKind_ok.mp ok
  have ids := converted_ids converted
  have distinct : (rules.map fun rule => SqlValue.text (utf8 rule.id)).Nodup := by
    have texts : (rules.map fun rule => SqlValue.text (utf8 rule.id)).filter (· ≠ .null) =
        rules.map fun rule => SqlValue.text (utf8 rule.id) := by
      apply List.filter_eq_self.mpr
      intro id present
      obtain ⟨rule, _, rfl⟩ := List.mem_map.mp present
      rfl
    rw [← texts, ids]
    have arranged := (List.perm_insertionSort (fun first second : StoredRule => first.id.key ≤ second.id.key)
      (table.rows.filter fun row => row.Selected kind)).map StoredRule.id
    rw [selectEnabled, (arranged.filter _).nodup_iff]
    exact table.distinct.sublist ((List.filter_sublist.map StoredRule.id).filter _)
  have keys : rules.map Rule.idKey = (rules.map fun rule => SqlValue.text (utf8 rule.id)).map SqlValue.key := by
    rw [List.map_map]
    rfl
  constructor
  · have distinctKeys : (rules.map Rule.idKey).Nodup := by
      rw [keys]
      apply distinct.map_on
      intro first firstPresent second secondPresent same
      obtain ⟨rule, _, rfl⟩ := List.mem_map.mp firstPresent
      obtain ⟨other, _, rfl⟩ := List.mem_map.mp secondPresent
      rw [SqlValue.key_text_injective same]
    exact distinctKeys.sublist (List.filter_sublist.map Rule.idKey)
  · have sorted := List.pairwise_map.mpr (insertionSort_sorted (fun row : StoredRule => row.id.key)
      (table.rows.filter fun row => row.Selected kind))
    have sameKeys : (selectEnabled table.rows kind).map (fun row => row.id.key) = rules.map Rule.idKey := by
      rw [keys, ids, List.map_map]
      rfl
    rw [selectEnabled] at sameKeys
    rw [sameKeys] at sorted
    exact (List.pairwise_map.mp sorted).filter _

/-- Tables with the same operator-signed rows load the same rules in the same order. -/
theorem listEnabledByKind_congr {first second : StoredRules} {others : List Rule}
    (same : ∀ row, OperatorSigned key row → (row ∈ first.rows ↔ row ∈ second.rows))
    (firstLoaded : listEnabledByKind (some key) first.rows kind = .ok loaded)
    (secondLoaded : listEnabledByKind (some key) second.rows kind = .ok others) : loaded = others := by
  have members : ∀ rule, rule ∈ loaded ↔ rule ∈ others := by
    intro rule
    rw [mem_listEnabledByKind firstLoaded, mem_listEnabledByKind secondLoaded]
    constructor
    · rintro ⟨row, stored, sameKind, signed, decoded⟩
      exact ⟨row, (same row signed).mp stored, sameKind, signed, decoded⟩
    · rintro ⟨row, stored, sameKind, signed, decoded⟩
      exact ⟨row, (same row signed).mpr stored, sameKind, signed, decoded⟩
  obtain ⟨distinct, sorted⟩ := listEnabledByKind_sorted firstLoaded
  obtain ⟨otherDistinct, otherSorted⟩ := listEnabledByKind_sorted secondLoaded
  exact eq_of_sorted distinct ((List.perm_ext_iff_of_nodup distinct.of_map otherDistinct.of_map).mpr members)
    sorted otherSorted

end Loading

section Scan

variable {surroundings : Surroundings} {action : AgentAction}

/-- A level blocks exactly when the severity does. -/
theorem level_blocks (rule : Rule) :
    (rule.level = .refuse ∨ rule.level = .escalate) ↔
      (rule.severity = "refuse" ∨ rule.severity = "escalate") := by
  unfold Rule.level Severity.fromStr
  split_ifs with refuse warn log escalate
  · simp [refuse]
  · simp [warn]
  · simp [log]
  · simp [escalate]
  · simp [refuse, escalate]

/-- The scan blocks exactly when some rule that matches refuses or escalates. -/
theorem evaluateFrom_isBlocking (rules : List Rule) (firstWarn : Option (String × String)) :
    (evaluateFrom surroundings action firstWarn rules).isBlocking = true ↔
      ∃ rule ∈ rules, matcherApplies surroundings rule action ∧
        (rule.severity = "refuse" ∨ rule.severity = "escalate") := by
  induction rules generalizing firstWarn with
  | nil => cases firstWarn <;> simp [evaluateFrom, Decision.isBlocking]
  | cons rule rest ih =>
      rw [List.exists_mem_cons_iff, ← level_blocks rule, evaluateFrom]
      by_cases applies : matcherApplies surroundings rule action
      · cases level : rule.level with
        | refuse => simp [applies, Decision.isBlocking]
        | escalate => simp [applies, Decision.isBlocking]
        | warn => simp [applies, ih]
        | log => simp [applies, ih]
      · simp [applies, ih]

end Scan

section Decision

variable {surroundings : Surroundings} {key : VerifyingKey} {action : AgentAction}

/-- A decision is the evaluation of the loaded rules. -/
theorem loadAndEvaluate_ok {table : StoredRules} {decision : Decision} :
    loadAndEvaluate surroundings key table action = .ok decision ↔
      ∃ loaded, listEnabledByKind (some key) table.rows action.kind = .ok loaded ∧
        (RuleEngine.mk loaded).evaluate surroundings action = decision := by
  simp only [loadAndEvaluate, RuleEngine.loadForAction, map_eq_ok, mapError_eq_ok]
  constructor
  · rintro ⟨_, ⟨loaded, ok, rfl⟩, decided⟩
    exact ⟨loaded, ok, decided⟩
  · rintro ⟨loaded, ok, decided⟩
    exact ⟨⟨loaded⟩, ⟨loaded, ok, rfl⟩, decided⟩

/-- A signed row blocks when its rule matches the action and refuses or escalates it. -/
def Blocks (surroundings : Surroundings) (key : VerifyingKey) (action : AgentAction) (row : StoredRule) : Prop :=
  OperatorSigned key row ∧ ∃ rule, rowToRule row = .ok rule ∧ matcherApplies surroundings rule action = true ∧
    (rule.severity = "refuse" ∨ rule.severity = "escalate")

/-- A decision is blocking exactly when a signed row blocks. -/
theorem isBlocking_iff {table : StoredRules} {decision : Decision}
    (decided : loadAndEvaluate surroundings key table action = .ok decision) :
    decision.isBlocking = true ↔ ∃ row ∈ table.rows, Blocks surroundings key action row := by
  obtain ⟨loaded, ok, rfl⟩ := loadAndEvaluate_ok.mp decided
  refine (evaluateFrom_isBlocking loaded none).trans ?_
  constructor
  · rintro ⟨rule, held, applies, blocks⟩
    obtain ⟨row, stored, _, signed, decoded⟩ := (mem_listEnabledByKind ok).mp held
    exact ⟨row, stored, signed, rule, decoded, applies, blocks⟩
  · rintro ⟨row, stored, signed, rule, decoded, applies, blocks⟩
    have sameKind : rule.kind = action.kind := by
      by_contra other
      simp [matcherApplies, other] at applies
    have kind : row.kind = .text (utf8 action.kind) := by
      obtain ⟨_, _, rfl⟩ := rowToRule_ok.mp decoded
      rw [Rule.stored, sameKind]
    exact ⟨rule, (mem_listEnabledByKind ok).mpr ⟨row, stored, kind, signed, decoded⟩, applies, blocks⟩

end Decision

/-- Two tables with the same operator-signed rows decide alike, only such rows block, and more such rows do not
unblock, exactly when every row that the two loadings select is well typed. -/
theorem evaluate_operatorSigned_iff (surroundings : Surroundings) (key : VerifyingKey) (action : AgentAction)
    (first second : StoredRules)
    (same : ∀ row, OperatorSigned key row → (row ∈ first.rows ↔ row ∈ second.rows)) :
    (∃ decision, loadAndEvaluate surroundings key first action = .ok decision ∧
      loadAndEvaluate surroundings key second action = .ok decision ∧
      (decision.isBlocking = true ↔ ∃ row ∈ first.rows, Blocks surroundings key action row) ∧
      ∀ more : StoredRules, (∀ row ∈ first.rows, OperatorSigned key row → row ∈ more.rows) →
        decision.isBlocking = true → ∀ after, loadAndEvaluate surroundings key more action = .ok after →
          after.isBlocking = true) ↔
    ∀ table ∈ [first, second], ∀ row ∈ table.rows, row.Selected action.kind → row.WellTyped := by
  simp only [List.forall_mem_cons, List.not_mem_nil, false_imp_iff, implies_true, and_true]
  rw [← @exists_listEnabledByKind_ok _ first.rows (some key), ← @exists_listEnabledByKind_ok _ second.rows (some key)]
  constructor
  · rintro ⟨decision, firstDecided, secondDecided, _⟩
    obtain ⟨loaded, ok, _⟩ := loadAndEvaluate_ok.mp firstDecided
    obtain ⟨others, otherOk, _⟩ := loadAndEvaluate_ok.mp secondDecided
    exact ⟨⟨loaded, ok⟩, others, otherOk⟩
  · rintro ⟨⟨loaded, ok⟩, others, otherOk⟩
    obtain rfl := listEnabledByKind_congr same ok otherOk
    have firstDecided := loadAndEvaluate_ok.mpr
      ⟨loaded, ok, (rfl : (RuleEngine.mk loaded).evaluate surroundings action = _)⟩
    refine ⟨_, firstDecided, loadAndEvaluate_ok.mpr ⟨loaded, otherOk, rfl⟩, isBlocking_iff firstDecided, ?_⟩
    intro more kept blocks after decided
    obtain ⟨row, stored, blocking⟩ := (isBlocking_iff firstDecided).mp blocks
    exact (isBlocking_iff decided).mpr ⟨row, kept row stored blocking.1, blocking⟩

section Samples

def tmpMatcher : String := "\x7b\"glob\":\"/tmp/**\"\x7d"

def tmpRule : Rule :=
  ⟨"R001", "filesystem_write", tmpMatcher, "refuse", "no /tmp writes", "_global", "operator", 0, true, none,
    attestOperatorSigned⟩

/-- The operator signed the canonical bytes of the rule. -/
def tmpSignature : SignatureBytes :=
  ⟨beBytes 32 0x2cc5cd38c6669d8bf91a369eda39e548796a4663b694746d50512e6cd760a75a ++
    beBytes 32 0x8ec88b74c289ce6db61082d9e6eea409dc50786f599a9343bc5b33b2b0e66a0b, by decide⟩

def sampleOperator : VerifyingKey where
  toBytes := digestOf 0x79b5562e8fe654f94078b112e8a98ba7901f853ae695bed7e0e3910bad049664
  verifyStrict message signature := message = canonicalBytesForSigning tmpRule ∧ signature = tmpSignature

def signedTmpRule : Rule := { tmpRule with signature := some tmpSignature.1 }

/-- Nobody signed the warning that another writer stored. -/
def strangerRule : Rule :=
  ⟨"R000", "filesystem_write", tmpMatcher, "warn", "allowed", "_global", "mallory", 0, true, none, "unsigned"⟩

/-- The other writer stored a text where the creation time belongs. -/
def brokenRow : StoredRule := { strangerRule.stored 1 with createdAt := .text (utf8 "yesterday") }

def sampleSurroundings : Surroundings where
  fromStr text := if text = tmpMatcher then some (Json.empty.insert "glob" (.string "/tmp/**")) else none
  diskFreeGibAtRoot := none

def tmpWrite : AgentAction := .filesystemWrite "/tmp/a" none

def tmpTable : StoredRules := ⟨[signedTmpRule.stored 1], by decide⟩

def strangerTable : StoredRules := ⟨[strangerRule.stored 1, signedTmpRule.stored 1], by decide⟩

def brokenTable : StoredRules := ⟨[brokenRow, signedTmpRule.stored 1], by decide⟩

/-- The attestation of an undated row decides that it is not signed. -/
theorem strangerRow_unsigned {row : StoredRule} (unattested : row.attestLevel = .text (utf8 "unsigned")) :
    ¬ OperatorSigned sampleOperator row := by
  rintro ⟨_, rule, decoded, attested, _⟩
  obtain ⟨enabled, _, stored⟩ := rowToRule_ok.mp decoded
  have levels : row.attestLevel = .text (utf8 rule.attestLevel) := congrArg StoredRule.attestLevel stored
  rw [unattested, attested] at levels
  exact absurd levels (by decide)

/-- A table with one more unsigned row has the same signed rows. -/
theorem sameSigned_tmpTable {row : StoredRule} (unattested : row.attestLevel = .text (utf8 "unsigned"))
    {table : StoredRules} (rows : table.rows = [row, signedTmpRule.stored 1]) (other : StoredRule)
    (signed : OperatorSigned sampleOperator other) : other ∈ tmpTable.rows ↔ other ∈ table.rows := by
  have apart : other ≠ row := by
    rintro rfl
    exact strangerRow_unsigned unattested signed
  simp [tmpTable, rows, apart]

/-- A stranger's row does not loosen the refusal of a signed one. -/
theorem strangerRow_ignored :
    ∃ decision, loadAndEvaluate sampleSurroundings sampleOperator tmpTable tmpWrite = .ok decision ∧
      loadAndEvaluate sampleSurroundings sampleOperator strangerTable tmpWrite = .ok decision ∧
      (decision.isBlocking = true ↔
        ∃ row ∈ tmpTable.rows, Blocks sampleSurroundings sampleOperator tmpWrite row) ∧
      ∀ more : StoredRules, (∀ row ∈ tmpTable.rows, OperatorSigned sampleOperator row → row ∈ more.rows) →
        decision.isBlocking = true → ∀ after,
          loadAndEvaluate sampleSurroundings sampleOperator more tmpWrite = .ok after → after.isBlocking = true := by
  refine (evaluate_operatorSigned_iff sampleSurroundings sampleOperator tmpWrite tmpTable strangerTable
    (sameSigned_tmpTable rfl rfl)).mpr ?_
  intro table listed row stored _
  have rules : row = signedTmpRule.stored 1 ∨ row = strangerRule.stored 1 := by
    rcases List.mem_pair.mp listed with rfl | rfl
    · exact .inl (List.mem_singleton.mp stored)
    · exact (List.mem_pair.mp stored).symm
  rcases rules with rfl | rfl
  · exact wellTyped_iff.mpr ⟨signedTmpRule, rowToRule_ok.mpr ⟨1, rfl, rfl⟩⟩
  · exact wellTyped_iff.mpr ⟨strangerRule, rowToRule_ok.mpr ⟨1, rfl, rfl⟩⟩

/-- One undecodable row that nobody signed leaves the engine without a decision. -/
theorem brokenRow_fails_loading :
    (∀ row, OperatorSigned sampleOperator row → (row ∈ tmpTable.rows ↔ row ∈ brokenTable.rows)) ∧
      loadAndEvaluate sampleSurroundings sampleOperator tmpTable tmpWrite = .ok (.refuse "R001" "no /tmp writes") ∧
      loadAndEvaluate sampleSurroundings sampleOperator brokenTable tmpWrite =
        .error ⟨["RuleEngine::load_for_action: list_enabled_by_kind(filesystem_write)",
          "rules_store::list_enabled_by_kind: row"], .invalidColumnType 7 "created_at" .text⟩ :=
  ⟨sameSigned_tmpTable rfl rfl, by decide +kernel, by decide +kernel⟩

end Samples
end AiMemory.Rules
