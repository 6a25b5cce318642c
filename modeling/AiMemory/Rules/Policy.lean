import AiMemory.Rules.Engine
import AiMemory.SignedEvents.Reachable

/-
This file embeds the signed mutations of the rules and the policy version that they advance.
-/

namespace AiMemory.Rules
open AiMemory.Machine AiMemory.Library AiMemory.SignedEvents

/-- A row whose columns hold the types that they declare; the schema lets the flag hold any number. -/
structure RuleRow where
  id : String
  kind : String
  matcher : String
  severity : String
  reason : String
  «namespace» : String
  createdBy : String
  createdAt : Int
  enabled : Int
  signature : Option Bytes
  attestLevel : String
  deriving DecidableEq

structure RuleTable where
  rows : List RuleRow
  distinct : (rows.map RuleRow.id).Nodup

def RuleRow.toRule (row : RuleRow) : Rule where
  id := row.id
  kind := row.kind
  matcher := row.matcher
  severity := row.severity
  reason := row.reason
  «namespace» := row.namespace
  createdBy := row.createdBy
  createdAt := row.createdAt
  enabled := row.enabled ≠ 0
  signature := row.signature
  attestLevel := row.attestLevel

/-- The row as the database holds it. -/
def RuleRow.stored (row : RuleRow) : StoredRule := row.toRule.stored row.enabled

/-- A row of the declared types decodes. -/
theorem rowToRule_stored (row : RuleRow) : rowToRule row.stored = .ok row.toRule :=
  rowToRule_ok.mpr ⟨row.enabled, rfl, rfl⟩

inductive MutationError where
  | insert (id message : String)
  | append (error : AppendError)
  deriving DecidableEq

structure PolicyStore where
  rules : RuleTable
  events : List EventRow

/-- The operator signs every audit row, and the process may hold a daemon key. -/
structure Operator where
  sign : Bytes → SignatureBytes
  agentId : Text
  trySignAuditPayload : Bytes → Option Blob

/-- An append draws an identifier and reads the clock. -/
structure Stamp where
  id : Text
  timestamp : Text

section Tables

def RuleRow.resign (row : RuleRow) (id : String) (enabled : Bool) (signature : SignatureBytes) : RuleRow :=
  if row.id = id then
    { row with
      enabled := if enabled then 1 else 0
      signature := some signature.1
      attestLevel := attestOperatorSigned }
  else row

@[simp] theorem RuleRow.id_resign (row : RuleRow) (id : String) (enabled : Bool)
    (signature : SignatureBytes) : (row.resign id enabled signature).id = row.id := by
  unfold resign
  split <;> rfl

namespace RuleTable

/-- The insertion checks the severity and the primary key. -/
def insert (table : RuleTable) (rule : Rule) : Except MutationError RuleTable :=
  if rule.severity ∉ ["refuse", "warn", "log", "escalate"] then
    .error (.insert rule.id "CHECK constraint failed: severity IN ('refuse', 'warn', 'log', 'escalate')")
  else if taken : ∃ row ∈ table.rows, row.id = rule.id then
    .error (.insert rule.id "UNIQUE constraint failed: governance_rules.id")
  else
    .ok {
      rows := table.rows ++ [{
        id := rule.id
        kind := rule.kind
        matcher := rule.matcher
        severity := rule.severity
        reason := rule.reason
        «namespace» := rule.namespace
        createdBy := rule.createdBy
        createdAt := rule.createdAt
        enabled := if rule.enabled then 1 else 0
        signature := rule.signature
        attestLevel := rule.attestLevel }]
      distinct := by
        rw [List.map_append, List.map_singleton]
        refine List.nodup_append.mpr ⟨table.distinct, List.nodup_singleton _, ?_⟩
        intro id present other only same
        obtain ⟨row, stored, rfl⟩ := List.mem_map.mp present
        exact taken ⟨row, stored, same.trans (List.mem_singleton.mp only)⟩ }

def delete (table : RuleTable) (id : String) : RuleTable where
  rows := table.rows.filter fun row => row.id ≠ id
  distinct := table.distinct.sublist (List.filter_sublist.map RuleRow.id)

/-- The update writes the flag, the signature and the attestation of one row. -/
def update (table : RuleTable) (id : String) (enabled : Bool) (signature : SignatureBytes) : RuleTable where
  rows := table.rows.map fun row => row.resign id enabled signature
  distinct := by
    rw [List.map_map]
    have kept : (RuleRow.id ∘ fun row : RuleRow => row.resign id enabled signature) = RuleRow.id := by
      funext row
      exact row.id_resign id enabled signature
    rw [kept]
    exact table.distinct

def get (table : RuleTable) (id : String) : Option Rule :=
  (table.rows.find? fun row => row.id = id).map RuleRow.toRule

/-- The listing reads every row in the order of the identifiers. -/
def list (table : RuleTable) : List Rule :=
  (table.rows.insertionSort fun first second => first.stored.id.key ≤ second.stored.id.key).map RuleRow.toRule

end RuleTable

end Tables

section Version

variable (sha256 : Bytes → Digest)

def policyAdvanced : Text := ⟨"governance.policy_version_advanced", by decide⟩

def ruleRemoved : Text := ⟨"governance.rule_removed", by decide⟩

def ruleEnabled : Text := ⟨"governance.rule_enabled", by decide⟩

def ruleDisabled : Text := ⟨"governance.rule_disabled", by decide⟩

/-- The digest covers the signed bytes of the enabled rules. -/
def policyInput (table : RuleTable) : Bytes :=
  (table.list.filter fun rule => rule.enabled).flatMap canonicalBytesForSigning

def computePolicyDigest (table : RuleTable) : Digest := sha256 (policyInput table)

def isAdvance (row : EventRow) : Bool := row.eventType = policyAdvanced

def policyAdvanceCount (events : List EventRow) : Int64 := Int64.ofNat (events.countP isAdvance)

def advanceSignableBytes (seq : Int64) (digest : Digest) : Bytes := i64BeBytes seq ++ digest.1

def payloadHash (bytes : Bytes) : Blob := Blob.ofDigest (sha256 bytes)

variable (operator : Operator)

/-- The operator signs the payload hash of the audit row. -/
def operatorEvent (stamp : Stamp) (eventType : Text) (hash : Blob) : SignedEvent where
  id := stamp.id
  agentId := operator.agentId
  eventType := eventType
  payloadHash := hash
  signature := some ⟨(operator.sign hash.bytes).1, by rw [(operator.sign hash.bytes).2]; decide⟩
  attestLevel := ⟨attestOperatorSigned, by decide⟩
  timestamp := stamp.timestamp
  prevHash := Blob.empty
  sequence := 0
  causeHash := none

def appendEvent (events : List EventRow) (event : SignedEvent) : Except MutationError (List EventRow) :=
  match appendSignedEventNoTx sha256 events ⟨event, operator.trySignAuditPayload⟩ with
  | .ok after => .ok after
  | .error error => .error (.append error)

def appendPolicyAdvanceNoTx (rules : RuleTable) (events : List EventRow) (stamp : Stamp) :
    Except MutationError (List EventRow) :=
  let digest := computePolicyDigest sha256 rules
  let seq := policyAdvanceCount events + 1
  appendEvent sha256 operator events
    (operatorEvent operator stamp policyAdvanced (payloadHash sha256 (advanceSignableBytes seq digest)))

end Version

section Mutations

variable (sha256 : Bytes → Digest) (operator : Operator) (store : PolicyStore)

def insertSigned (rule : Rule) (advance : Stamp) : Except MutationError (PolicyStore × Bool) := do
  let rules ← store.rules.insert rule
  let events ← appendPolicyAdvanceNoTx sha256 operator rules store.events advance
  return (⟨rules, events⟩, true)

/-- The signature commits to the flag that is written. -/
def setEnabledSigned (id : String) (enabled : Bool) (audit advance : Stamp) :
    Except MutationError (PolicyStore × Bool) :=
  match store.rules.get id with
  | none => .ok (store, false)
  | some stored => do
      let rule := { stored with enabled := enabled }
      let canonical := canonicalBytesForSigning rule
      let ruleSig := operator.sign canonical
      let eventType := if enabled then ruleEnabled else ruleDisabled
      let events ← appendEvent sha256 operator store.events
        (operatorEvent operator audit eventType (payloadHash sha256 canonical))
      let rules := store.rules.update id enabled ruleSig
      let events ← appendPolicyAdvanceNoTx sha256 operator rules events advance
      return (⟨rules, events⟩, true)

def removeSigned (id : String) (audit advance : Stamp) : Except MutationError (PolicyStore × Bool) :=
  match store.rules.get id with
  | none => .ok (store, false)
  | some rule => do
      let canonical := canonicalBytesForSigning rule
      let events ← appendEvent sha256 operator store.events
        (operatorEvent operator audit ruleRemoved (payloadHash sha256 canonical))
      let rules := store.rules.delete id
      let events ← appendPolicyAdvanceNoTx sha256 operator rules events advance
      return (⟨rules, events⟩, true)

inductive Mutation where
  | insertSigned (rule : Rule) (advance : Stamp)
  | setEnabledSigned (id : String) (enabled : Bool) (audit advance : Stamp)
  | removeSigned (id : String) (audit advance : Stamp)

def mutate : Mutation → Except MutationError (PolicyStore × Bool)
  | .insertSigned rule advance => insertSigned sha256 operator store rule advance
  | .setEnabledSigned id enabled audit advance =>
      setEnabledSigned sha256 operator store id enabled audit advance
  | .removeSigned id audit advance => removeSigned sha256 operator store id audit advance

/-- A failed call rolls its transaction back. -/
def mutateStep (mutation : Mutation) : PolicyStore :=
  match mutate sha256 operator store mutation with
  | .ok (after, _) => after
  | .error _ => store

/-- The call inserted, updated or deleted a row. -/
def changedRow (mutation : Mutation) : Bool :=
  match mutate sha256 operator store mutation with
  | .ok (_, changed) => changed
  | .error _ => false

end Mutations

/-- The calls of a run that changed a row. -/
def changedCalls (sha256 : Bytes → Digest) (operator : Operator) : PolicyStore → List Mutation → Nat
  | _, [] => 0
  | store, mutation :: rest =>
      (if changedRow sha256 operator store mutation then 1 else 0) +
        changedCalls sha256 operator (mutateStep sha256 operator store mutation) rest

section Advisory

/-- An absent sequence sorts below every number. -/
def sequenceLe : Option Int64 → Option Int64 → Bool
  | none, _ => true
  | some _, none => false
  | some first, some second => first ≤ second

def laterAdvance : Option EventRow → EventRow → Option EventRow
  | none, row => some row
  | some held, row => if sequenceLe held.sequence row.sequence then some row else some held

/-- The query reads the advance with the highest sequence. -/
def latestAdvance (events : List EventRow) : Option Blob :=
  ((events.filter isAdvance).foldl laterAdvance none).map fun row => row.payloadHash

/-- Without an advance there is nothing to compare with. -/
def verifyPolicyDigestAdvisory (sha256 : Bytes → Digest) (store : PolicyStore) : Bool :=
  let liveDigest := computePolicyDigest sha256 store.rules
  let seq := policyAdvanceCount store.events
  if seq = 0 then true
  else latestAdvance store.events = some (payloadHash sha256 (advanceSignableBytes seq liveDigest))

end Advisory
end AiMemory.Rules
