import AiMemory.Capability.Token
import AiMemory.Machine.Numbers
import AiMemory.Witness.HeadAnchor

/-
This file embeds the restore sanctions and the verdict on a rollback.
-/

namespace AiMemory.Witness
open AiMemory.Capability (SigningKey)
open AiMemory.Checkpoints AiMemory.Crdt AiMemory.ForensicLog AiMemory.Machine

def restoreSanctionDomain : String := "ai-memory/audit-restore-sanction/v1"

def restoreSanctionVersion : Int := 1

variable (env : Environment)

section Sanction

def restoreRecord (oldHead newHead now : Int) : SanctionedRestoreWire where
  dst := restoreSanctionDomain
  v := restoreSanctionVersion
  oldHead := oldHead
  newHead := newHead
  gap := saturatingSub oldHead newHead
  timestamp := now

def sanctionValue (record : SanctionedRestoreWire) (sig pubkey : String) : Json :=
  ((Json.empty.insert "record" (env.serde.sanctionToValue record)).insert "sig" (.string sig)).insert "pubkey"
    (.string pubkey)

/-- The operator signs the record, and the line carries the signature and the key beside it. -/
def signedSanction (operator : SigningKey) (record : SanctionedRestoreWire) : Json :=
  sanctionValue env record (Base64.encode (operator.sign (env.serde.sanctionToVec record)).1)
    (Base64.encode operator.verifyingKey.toBytes.1)

def signRestoreSanction (oldHead newHead now : Int) (operator : SigningKey) : String :=
  env.serde.valueToString (signedSanction env operator (restoreRecord oldHead newHead now))

/-- The key in the line is not read. -/
def sanctionOf (operator : VerifyingKey) (line : Line) : Option SanctionedRestoreWire :=
  line.bind fun text => if blank text then none else do
    let value ← env.serde.valueFromStr text
    let recordValue ← value.get "record"
    let wire ← env.serde.sanctionFromValue recordValue
    if wire.dst ≠ restoreSanctionDomain ∨ wire.v ≠ restoreSanctionVersion then none
    else do
      let sig ← (value.get "sig").bind Json.asStr
      let bytes ← Base64.decode sig
      let signature ← tryFromSlice bytes
      if operator.verifyStrict (env.serde.sanctionToVec wire) signature then some wire else none

/-- A sanction clears every head from its own new head on. -/
def SanctionedRestoreWire.covers (wire : SanctionedRestoreWire) (anchoredHead dbHead : Int) : Bool :=
  wire.oldHead = anchoredHead ∧ wire.newHead ≤ dbHead

def restoreSanctionClears (operator : Option VerifyingKey) (log : Option (List Line))
    (anchoredHead dbHead : Int) : Bool :=
  operator.any fun key => (log.getD []).any fun line =>
    (sanctionOf env key line).any fun wire => wire.covers anchoredHead dbHead

end Sanction

section Verdict

inductive RollbackCheck where
  | unknown
  | notDetected
  | evidence (anchoredHead dbHead : Int)
  | sanctioned (anchoredHead dbHead : Int)
  | missing
  deriving DecidableEq

def computeRollbackVerdict (dbHead : Int) (anchoredHead : Option Int) (sanctioned require : Bool) :
    RollbackCheck :=
  match anchoredHead with
  | none => if require then .missing else .unknown
  | some anchored =>
      if dbHead ≥ anchored then .notDetected
      else if sanctioned then .sanctioned anchored dbHead
      else .evidence anchored dbHead

/-- The custody mount holds the two logs, and the environment names the enrolled keys. -/
structure Mount where
  witnessKey : Option VerifyingKey
  operatorKey : Option VerifyingKey
  requireRollbackCheck : Bool
  headAnchors : Option (List Line)
  restoreSanctions : Option (List Line)

def computeRollbackVerdictForReport (mount : Mount) (dbHead : Int) : RollbackCheck :=
  let anchored := readHeadAnchorHighWater env mount.witnessKey mount.headAnchors
  let sanctioned := anchored.any fun anchor =>
    anchor > dbHead && restoreSanctionClears env mount.operatorKey mount.restoreSanctions anchor dbHead
  computeRollbackVerdict dbHead anchored sanctioned mount.requireRollbackCheck

/-- The ceremony signs the present head as the outcome of the restore, unless it is not below the mark. It
runs in a process of its own that does not require the check. -/
def runRestoreAttest (mount : Mount) (dbHead now : Int) (operator : SigningKey) : Mount :=
  match readHeadAnchorHighWater env mount.witnessKey mount.headAnchors with
  | none => mount
  | some oldHead =>
      if saturatingSub oldHead dbHead ≤ 0 then mount
      else
        { mount with
          restoreSanctions :=
            appendLine mount.restoreSanctions (signRestoreSanction env oldHead dbHead now operator) }

end Verdict

section Reading

variable {env} {operator : SigningKey} {record : SanctionedRestoreWire}

/-- The line of a sanction reads back as the value that was written. -/
structure SanctionReads (env : Environment) (operator : SigningKey) (record : SanctionedRestoreWire) :
    Prop where
  value : env.serde.valueFromStr (env.serde.valueToString (signedSanction env operator record)) =
    some (signedSanction env operator record)
  wire : env.serde.sanctionFromValue (env.serde.sanctionToValue record) = some record
  text : blank (env.serde.valueToString (signedSanction env operator record)) = false

theorem get_sanctionValue_record (sig pubkey : String) :
    (sanctionValue env record sig pubkey).get "record" = some (env.serde.sanctionToValue record) := by
  simp [sanctionValue, Json.insert, Json.empty]

theorem get_sanctionValue_sig (sig pubkey : String) :
    (sanctionValue env record sig pubkey).get "sig" = some (.string sig) := by
  simp [sanctionValue, Json.insert, Json.empty]

/-- A sanction that the operator signed counts. -/
theorem sanctionOf_signed (reads : SanctionReads env operator record)
    (domain : record.dst = restoreSanctionDomain) (version : record.v = restoreSanctionVersion) :
    sanctionOf env operator.verifyingKey
      (some (env.serde.valueToString (signedSanction env operator record))) = some record := by
  have signature : tryFromSlice (operator.sign (env.serde.sanctionToVec record)).1 =
      some (operator.sign (env.serde.sanctionToVec record)) := by
    simp [tryFromSlice, (operator.sign (env.serde.sanctionToVec record)).2]
  have accepted := operator.verifies (env.serde.sanctionToVec record)
  have sig : ((signedSanction env operator record).get "sig").bind Json.asStr =
      some (Base64.encode (operator.sign (env.serde.sanctionToVec record)).1) := by
    rw [signedSanction, get_sanctionValue_sig]
    rfl
  have stored : (signedSanction env operator record).get "record" =
      some (env.serde.sanctionToValue record) := get_sanctionValue_record _ _
  simp only [sanctionOf, Option.bind_some, reads.text, reads.value, reads.wire, stored, sig, domain, version,
    Base64.decode_encode, signature, accepted, Option.bind_eq_bind, ne_eq, not_true_eq_false, or_self,
    if_true, Bool.false_eq_true, if_false]

end Reading
end AiMemory.Witness
