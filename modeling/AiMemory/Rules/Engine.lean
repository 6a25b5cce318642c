import AiMemory.Crdt.Json
import AiMemory.Library.JsonText
import AiMemory.Library.Run
import AiMemory.Library.SortOn
import AiMemory.Machine.Bytes
import AiMemory.Permissions.Glob
import Mathlib.Data.Prod.Lex
import Mathlib.Data.String.Basic

/-
This file embeds the stored governance rules with their load-time gate, the matchers and the engine over the loaded
rules.
-/

namespace AiMemory.Rules
open AiMemory.Crdt AiMemory.Library AiMemory.Machine AiMemory.Permissions

structure Rule where
  id : String
  kind : String
  matcher : String
  severity : String
  reason : String
  «namespace» : String
  createdBy : String
  createdAt : Int
  enabled : Bool
  signature : Option Bytes
  attestLevel : String
  deriving DecidableEq

section Columns

/-- The table is not strict, so a column may hold a value of another type than it declares. -/
inductive SqlValue where
  | null
  | integer (value : Int)
  | real (bits : UInt64)
  | text (bytes : Bytes)
  | blob (bytes : Bytes)
  deriving DecidableEq

inductive SqlType where
  | null | integer | real | text | blob
  deriving DecidableEq

def SqlValue.dataType : SqlValue → SqlType
  | null => .null
  | integer _ => .integer
  | real _ => .real
  | text _ => .text
  | blob _ => .blob

/-- The order of identifiers: a null comes first, texts and blobs follow in the order of their bytes, and a column of
texts never holds a number. -/
def SqlValue.key : SqlValue → Lex (Nat × List Nat)
  | null => toLex (0, [])
  | integer _ | real _ => toLex (1, [])
  | text bytes => toLex (2, bytes.map UInt8.toNat)
  | blob bytes => toLex (3, bytes.map UInt8.toNat)

inductive ColumnError where
  | invalidColumnType (index : Nat) (name : String) (found : SqlType)
  | fromSqlConversionFailure (index : Nat) (found : SqlType)
  deriving DecidableEq

/-- A row of the table as the database holds it. -/
structure StoredRule where
  id : SqlValue
  kind : SqlValue
  matcher : SqlValue
  severity : SqlValue
  reason : SqlValue
  «namespace» : SqlValue
  createdBy : SqlValue
  createdAt : SqlValue
  enabled : SqlValue
  signature : SqlValue
  attestLevel : SqlValue
  deriving DecidableEq

/-- The identifier is the primary key of the table, which admits any number of nulls. -/
structure StoredRules where
  rows : List StoredRule
  distinct : ((rows.map StoredRule.id).filter (· ≠ .null)).Nodup

def getText (index : Nat) (name : String) : SqlValue → Except ColumnError String
  | .text bytes =>
      (String.fromUTF8? ⟨bytes.toArray⟩).elim (.error (.fromSqlConversionFailure index .text)) .ok
  | value => .error (.invalidColumnType index name value.dataType)

def getInteger (index : Nat) (name : String) : SqlValue → Except ColumnError Int
  | .integer value => .ok value
  | value => .error (.invalidColumnType index name value.dataType)

def getOptionalBlob (index : Nat) (name : String) : SqlValue → Except ColumnError (Option Bytes)
  | .null => .ok none
  | .blob bytes => .ok (some bytes)
  | value => .error (.invalidColumnType index name value.dataType)

/-- The first column of another type fails the row. -/
def rowToRule (row : StoredRule) : Except ColumnError Rule := do
  let id ← getText 0 "id" row.id
  let kind ← getText 1 "kind" row.kind
  let matcher ← getText 2 "matcher" row.matcher
  let severity ← getText 3 "severity" row.severity
  let reason ← getText 4 "reason" row.reason
  let «namespace» ← getText 5 "namespace" row.namespace
  let createdBy ← getText 6 "created_by" row.createdBy
  let createdAt ← getInteger 7 "created_at" row.createdAt
  let enabled ← getInteger 8 "enabled" row.enabled
  let signature ← getOptionalBlob 9 "signature" row.signature
  let attestLevel ← getText 10 "attest_level" row.attestLevel
  return ⟨id, kind, matcher, severity, reason, «namespace», createdBy, createdAt, enabled ≠ 0, signature, attestLevel⟩

/-- The row that holds a rule with its flag. -/
def Rule.stored (rule : Rule) (enabled : Int) : StoredRule where
  id := .text (utf8 rule.id)
  kind := .text (utf8 rule.kind)
  matcher := .text (utf8 rule.matcher)
  severity := .text (utf8 rule.severity)
  reason := .text (utf8 rule.reason)
  «namespace» := .text (utf8 rule.namespace)
  createdBy := .text (utf8 rule.createdBy)
  createdAt := .integer rule.createdAt
  enabled := .integer enabled
  signature := rule.signature.elim .null .blob
  attestLevel := .text (utf8 rule.attestLevel)

/-- A column is read as text exactly when it holds the UTF-8 bytes of the text. -/
theorem getText_ok {index : Nat} {name text : String} {value : SqlValue} :
    getText index name value = .ok text ↔ value = .text (utf8 text) := by
  cases value with
  | text bytes =>
      rw [getText, elim_error_eq_ok, String.fromUTF8?, SqlValue.text.injEq]
      constructor
      · intro read
        split at read
        · obtain rfl := Option.some.inj read
          rfl
        · cases read
      · rintro rfl
        have same : (⟨(utf8 text).toArray⟩ : ByteArray) = text.toByteArray := by
          rw [utf8, Array.toArray_toList]
          rfl
        rw [same, dif_pos text.isValidUTF8]
        rfl
  | _ => simp [getText]

/-- A column is read as an integer exactly when it holds one. -/
theorem getInteger_ok {index : Nat} {name : String} {value : SqlValue} {number : Int} :
    getInteger index name value = .ok number ↔ value = .integer number := by
  cases value <;> simp [getInteger]

/-- An optional column is read as bytes exactly when it is NULL or a blob. -/
theorem getOptionalBlob_ok {index : Nat} {name : String} {value : SqlValue} {bytes : Option Bytes} :
    getOptionalBlob index name value = .ok bytes ↔ value = bytes.elim .null .blob := by
  cases value <;> cases bytes <;> simp [getOptionalBlob]

/-- A row decodes to the rule that it holds. -/
theorem rowToRule_ok {row : StoredRule} {rule : Rule} :
    rowToRule row = .ok rule ↔ ∃ enabled : Int, rule.enabled = decide (enabled ≠ 0) ∧ row = rule.stored enabled := by
  simp only [rowToRule, bind_eq_ok, getText_ok, getInteger_ok, getOptionalBlob_ok]
  constructor
  · rintro ⟨id, isId, kind, isKind, matcher, isMatcher, severity, isSeverity, reason, isReason, scope, isScope, creator,
      isCreator, created, isCreated, enabled, isEnabled, signature, isSignature, attest, isAttest, done⟩
    obtain rfl := Except.ok.inj done
    refine ⟨enabled, rfl, ?_⟩
    cases row
    simp_all [Rule.stored]
  · rintro ⟨enabled, flag, rfl⟩
    refine ⟨_, rfl, _, rfl, _, rfl, _, rfl, _, rfl, _, rfl, _, rfl, _, rfl, _, rfl, _, rfl, _, rfl, ?_⟩
    rw [← flag]
    rfl

end Columns

def attestOperatorSigned : String := "operator_signed"

section Signing

def jsonText (text : String) : Bytes := JsonText.string (utf8 text)

/-- A JSON text is a prefix code. -/
theorem jsonText_code : PrefixCode jsonText := JsonText.string_code.comp utf8_injective

/-- The serializer writes the members of an object in the order of their keys. -/
def signedMembers (rule : Rule) : List (Bytes × Bytes) :=
  [(utf8 "created_by", jsonText rule.createdBy), (utf8 "enabled", JsonText.bool rule.enabled),
    (utf8 "id", jsonText rule.id), (utf8 "kind", jsonText rule.kind),
    (utf8 "matcher", jsonText rule.matcher), (utf8 "namespace", jsonText rule.namespace),
    (utf8 "reason", jsonText rule.reason), (utf8 "severity", jsonText rule.severity)]

def canonicalBytesForSigning (rule : Rule) : Bytes := JsonText.object (signedMembers rule)

/-- The signature covers these columns. -/
def Rule.signed (rule : Rule) : String × Bool × String × String × String × String × String × String :=
  (rule.createdBy, rule.enabled, rule.id, rule.kind, rule.matcher, rule.namespace, rule.reason,
    rule.severity)

/-- The signed bytes can be read off the front of a longer text. -/
theorem canonicalBytesForSigning_code {first second : Rule} {firstRest secondRest : Bytes}
    (same : canonicalBytesForSigning first ++ firstRest =
      canonicalBytesForSigning second ++ secondRest) :
    first.signed = second.signed ∧ firstRest = secondRest := by
  unfold canonicalBytesForSigning signedMembers JsonText.object at same
  simp only [List.map_cons, List.map_nil, List.intersperse, List.flatten_cons, List.flatten_nil,
    List.append_nil, List.cons_append, List.append_assoc, List.cons.injEq, true_and,
    List.nil_append] at same
  obtain ⟨creators, same⟩ := jsonText_code _ _ _ _ (JsonText.member_cancel same)
  obtain ⟨flags, same⟩ := JsonText.bool_code _ _ _ _ (JsonText.member_cancel (List.tail_eq_of_cons_eq same))
  obtain ⟨ids, same⟩ := jsonText_code _ _ _ _ (JsonText.member_cancel (List.tail_eq_of_cons_eq same))
  obtain ⟨kinds, same⟩ := jsonText_code _ _ _ _ (JsonText.member_cancel (List.tail_eq_of_cons_eq same))
  obtain ⟨matchers, same⟩ := jsonText_code _ _ _ _ (JsonText.member_cancel (List.tail_eq_of_cons_eq same))
  obtain ⟨namespaces, same⟩ := jsonText_code _ _ _ _ (JsonText.member_cancel (List.tail_eq_of_cons_eq same))
  obtain ⟨reasons, same⟩ := jsonText_code _ _ _ _ (JsonText.member_cancel (List.tail_eq_of_cons_eq same))
  obtain ⟨severities, same⟩ := jsonText_code _ _ _ _ (JsonText.member_cancel (List.tail_eq_of_cons_eq same))
  simp only [Rule.signed, creators, flags, ids, kinds, matchers, namespaces, reasons, severities,
    List.tail_eq_of_cons_eq same, and_self]

/-- The gate reads a signature of exactly 64 bytes. -/
def verifyRuleSignature (rule : Rule) (operatorPubkey : VerifyingKey) : Bool :=
  match rule.signature with
  | none => false
  | some bytes =>
      match tryFromSlice bytes with
      | none => false
      | some signature => operatorPubkey.verifyStrict (canonicalBytesForSigning rule) signature

/-- Without an operator key every rule passes. -/
def enforcedRulePasses (rule : Rule) : Option VerifyingKey → Bool
  | some key => rule.attestLevel = attestOperatorSigned && verifyRuleSignature rule key
  | none => true

end Signing

/-- An error of the loading carries the contexts that it passed on its way out. -/
structure RuleLoadError where
  context : List String
  cause : ColumnError
  deriving DecidableEq

def RuleLoadError.within (text : String) (error : RuleLoadError) : RuleLoadError :=
  { error with context := text :: error.context }

/-- The query selects by kind and flag. -/
def StoredRule.Selected (kind : String) (row : StoredRule) : Prop :=
  row.kind = .text (utf8 kind) ∧ row.enabled = .integer 1

instance (kind : String) (row : StoredRule) : Decidable (row.Selected kind) := inferInstanceAs (Decidable (_ ∧ _))

/-- The selected rows come in the order of their identifiers. -/
def selectEnabled (rows : List StoredRule) (kind : String) : List StoredRule :=
  (rows.filter fun row => row.Selected kind).insertionSort fun first second => first.id.key ≤ second.id.key

/-- Every selected row is decoded before the gate looks at it. -/
def listEnabledByKind (operatorPubkey : Option VerifyingKey) (rows : List StoredRule) (kind : String) :
    Except RuleLoadError (List Rule) := do
  let rules ← ((selectEnabled rows kind).mapM rowToRule).mapError (⟨["rules_store::list_enabled_by_kind: row"], ·⟩)
  return rules.filter fun rule => enforcedRulePasses rule operatorPubkey

/-- A path is known by its lossy text. -/
inductive AgentAction where
  | bash (command : String) (cwd : Option String)
  | filesystemWrite (path : String) (byteEstimate : Option Nat)
  | networkRequest (host scheme : String)
  | processSpawn (binary : String) (args : List String)
  | custom (customKind : String) (payload : Json)
  | read (surface : String) («namespace» query : Option String)

def AgentAction.kind : AgentAction → String
  | .bash _ _ => "bash"
  | .filesystemWrite _ _ => "filesystem_write"
  | .networkRequest _ _ => "network_request"
  | .processSpawn _ _ => "process_spawn"
  | .custom _ _ => "custom"
  | .read _ _ _ => "read_action"

inductive Decision where
  | allow
  | refuse (ruleId reason : String)
  | warn (ruleId reason : String)
  | escalate (ruleId reason : String)
  deriving DecidableEq

def Decision.isBlocking : Decision → Bool
  | .refuse _ _ | .escalate _ _ => true
  | .allow | .warn _ _ => false

inductive Severity where
  | refuse | warn | log | escalate
  deriving DecidableEq

def Severity.fromStr (text : String) : Option Severity :=
  if text = "refuse" then some refuse
  else if text = "warn" then some warn
  else if text = "log" then some log
  else if text = "escalate" then some escalate
  else none

/-- The process parses JSON texts and probes the free space of the root volume. -/
structure Surroundings where
  fromStr : String → Option Json
  diskFreeGibAtRoot : Option Nat

section Matchers

def contains (text needle : String) : Bool := needle.toList <:+: text.toList

def strField (value : Json) (key : String) : Option String := (value.get key).bind Json.asStr

def asU64 : Json → Option Nat
  | .number (.posInt value) => some value
  | _ => none

def asBool : Json → Option Bool
  | .bool value => some value
  | _ => none

/-- The older name of the field is an alias. -/
def matchBash (matcher : Json) (command : String) : Bool :=
  match ((matcher.get "command_substring").or (matcher.get "command_regex")).bind Json.asStr with
  | none => false
  | some needle => contains command needle

def matchFilesystemWrite (matcher : Json) (path : String) : Bool :=
  match strField matcher "glob" with
  | none => false
  | some glob => globMatches glob path

def matchNetworkRequest (matcher : Json) (host : String) : Bool :=
  match strField matcher "host" with
  | none => false
  | some targetHost => globMatches targetHost host

/-- A failed probe matches no threshold. -/
def matchProcessSpawn (diskFreeGibAtRoot : Option Nat) (matcher : Json) (binary : String)
    (args : List String) : Bool :=
  match strField matcher "binary" with
  | none => false
  | some targetBinary =>
      if targetBinary ≠ binary then false
      else if (strField matcher "args_contain").any fun needle => !contains (" ".intercalate args) needle then
        false
      else
        match (matcher.get "disk_free_min_gib").bind asU64 with
        | some threshold => diskFreeGibAtRoot.any fun freeGib => freeGib < threshold
        | none => true

/-- An absent predicate does not constrain, and an absent payload field does not match. -/
def fieldMatches (matcher payload : Json) (predicate field : String) (holds : String → String → Bool) :
    Bool :=
  match strField matcher predicate with
  | none => true
  | some wanted => (strField payload field).any fun value => holds wanted value

def matchCustom (matcher : Json) (kind : String) (payload : Json) : Bool :=
  match strField matcher "kind" with
  | none => false
  | some targetKind =>
      targetKind = kind && fieldMatches matcher payload "namespace_glob" "namespace" globMatches &&
        fieldMatches matcher payload "tier" "tier" (fun wanted tier => wanted = tier) &&
        fieldMatches matcher payload "title_contains" "title" fun needle title => contains title needle

/-- A matcher without a narrowing field matches only under its blanket flag. -/
def matchRead (matcher : Json) (surface : String) («namespace» query : Option String) : Bool :=
  let surfaceGlob := strField matcher "surface"
  let namespaceGlob := strField matcher "namespace"
  let needle := strField matcher "query_substring"
  if surfaceGlob.any fun glob => !globMatches glob surface then false
  else if namespaceGlob.any fun glob => !«namespace».any (globMatches glob) then false
  else if needle.any fun needle => !query.any fun query => contains query needle then false
  else if surfaceGlob.isSome || namespaceGlob.isSome || needle.isSome then true
  else ((matcher.get "all").bind asBool).getD false

end Matchers

section Engine

variable (surroundings : Surroundings)

/-- A malformed matcher matches nothing. -/
def matcherApplies (rule : Rule) (action : AgentAction) : Bool :=
  if rule.kind ≠ action.kind then false
  else
    match surroundings.fromStr rule.matcher with
    | none => false
    | some matcher =>
        match action with
        | .bash command _ => matchBash matcher command
        | .filesystemWrite path _ => matchFilesystemWrite matcher path
        | .networkRequest host _ => matchNetworkRequest matcher host
        | .processSpawn binary args => matchProcessSpawn surroundings.diskFreeGibAtRoot matcher binary args
        | .custom customKind payload => matchCustom matcher customKind payload
        | .read surface «namespace» query => matchRead matcher surface «namespace» query

/-- An unknown severity only logs. -/
def Rule.level (rule : Rule) : Severity := (Severity.fromStr rule.severity).getD .log

def evaluateFrom (action : AgentAction) (firstWarn : Option (String × String)) : List Rule → Decision
  | [] =>
      match firstWarn with
      | some (ruleId, reason) => .warn ruleId reason
      | none => .allow
  | rule :: rest =>
      if matcherApplies surroundings rule action then
        match rule.level with
        | .refuse => .refuse rule.id rule.reason
        | .escalate => .escalate rule.id rule.reason
        | .warn => evaluateFrom action (firstWarn.or (some (rule.id, rule.reason))) rest
        | .log => evaluateFrom action firstWarn rest
      else evaluateFrom action firstWarn rest

structure RuleEngine where
  rules : List Rule

def RuleEngine.loadForAction (operatorPubkey : Option VerifyingKey) (table : StoredRules) (action : AgentAction) :
    Except RuleLoadError RuleEngine :=
  ((listEnabledByKind operatorPubkey table.rows action.kind).map RuleEngine.mk).mapError
    (·.within ("RuleEngine::load_for_action: list_enabled_by_kind(" ++ action.kind ++ ")"))

def RuleEngine.evaluate (engine : RuleEngine) (action : AgentAction) : Decision :=
  evaluateFrom surroundings action none engine.rules

end Engine

end AiMemory.Rules
