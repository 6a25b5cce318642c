import AiMemory.AuditTrail.Verdicts
import AiMemory.SignedEvents.Chain

/-
This file embeds the report of the audit trail.
-/

namespace AiMemory.AuditTrail
open AiMemory.Checkpoints AiMemory.Machine AiMemory.SignedEvents AiMemory.Witness

/-- The heads of the revisions and the walks of the lineages are read as their own verifiers give them. -/
structure Database where
  signedEvents : List EventRow
  checkpoints : List Checkpoint
  revisionsHead : Int
  lineageOutcomes : List LineageWalkOutcome

/-- What the process finds outside the database. -/
structure Host where
  daemonVerifier : Option VerifyingKey
  roles : RoleKeys
  mount : Mount
  lastAuditWatermark : Option (Int × String)
  requireWitness : Bool
  requireCauseBinding : Bool
  requireRoleSeparation : Bool
  requireIdentityLineage : Bool

section Queries

def sequencesOf (rows : List EventRow) : List Int64 := rows.filterMap EventRow.sequence

/-- An empty table has the head 0. -/
def headSequence (rows : List EventRow) : Int := (((sequencesOf rows).map Int64.toInt).max?).getD 0

/-- The greatest sequence of a row before the window. -/
def sinceFloor (rows : List EventRow) (since : Option String) : Int64 :=
  since.elim 0 fun ts => ((sequencesOf (rows.filter fun row => row.timestamp.text < ts)).max?).getD 0

/-- An absent time is older than every time. -/
def olderTime : Option Int → Option Int → Bool
  | none, some _ => true
  | some first, some second => first < second
  | _, none => false

def newer (first second : Checkpoint) : Bool :=
  olderTime second.resolvedAt first.resolvedAt ∨
    second.resolvedAt = first.resolvedAt ∧ second.createdAt ≤ first.createdAt

def readLatestCheckpoint (checkpoints : List Checkpoint) («namespace» conditionType : String) :
    Option Checkpoint :=
  ((checkpoints.filter fun cp => cp.namespace = «namespace» ∧ cp.conditionType = conditionType).insertionSort
    fun first second => newer first second).head?

def readLatestWitnessCheckpoint (checkpoints : List Checkpoint) : Option Checkpoint :=
  readLatestCheckpoint checkpoints "_audit_witness" auditHeadWitness

structure GapScan where
  expected : Int64
  gaps : List (Int64 × Int64)

def gapStep (scan : GapScan) (sequence : Int64) : GapScan where
  expected := sequence + 1
  gaps := if scan.expected < sequence then scan.gaps ++ [(scan.expected, sequence - 1)] else scan.gaps

def sequenceGaps (rows : List EventRow) (floor : Int64) : List (Int64 × Int64) :=
  ((((sequencesOf rows).filter fun sequence => floor < sequence).insertionSort (· ≤ ·)).foldl gapStep
    ⟨floor + 1, []⟩).gaps

def rowsWithoutCause (rows : List EventRow) : Nat :=
  rows.countP fun row => row.causeHash.isNone ∧ row.sequence.isSome

end Queries

structure AuditTrailReport where
  totalEvents : Nat
  chainIntact : Bool
  firstBreakSequence : Option Int64
  sequenceGaps : List (Int64 × Int64)
  headSequence : Int
  since : Option String
  truncation : TruncationCheck
  witness : WitnessCheck
  causeBinding : CauseBinding
  signatureFailures : List Int64
  roleSeparation : RoleSeparationCheck
  lineage : LineageCheck
  rollback : RollbackCheck

def verifyAuditTrail (env : Witness.Environment) (host : Host) (db : Database) (since : Option String) :
    AuditTrailReport :=
  let head := headSequence db.signedEvents
  let floor := sinceFloor db.signedEvents since
  let report := verifyChain env.checkpoints.sha256 host.daemonVerifier host.roles.recorder db.signedEvents
    (if 0 < floor then some floor else none)
  { totalEvents := report.rowsChecked
    chainIntact := report.chainBreak.isNone
    firstBreakSequence := report.chainBreak
    sequenceGaps := sequenceGaps db.signedEvents floor
    headSequence := head
    since := since
    truncation := truncationCheck head host.lastAuditWatermark
    witness := computeWitnessVerdict env (readLatestWitnessCheckpoint db.checkpoints) host.mount.witnessKey
      head db.revisionsHead host.requireWitness
    causeBinding := computeCauseBindingVerdict (rowsWithoutCause db.signedEvents) host.requireCauseBinding
    signatureFailures := report.signatureFailures
    roleSeparation := computeRoleSeparationVerdict env.checkpoints
      (readLatestCheckpoint db.checkpoints "_governance_verdict" "governance_verdict")
      (readLatestCheckpoint db.checkpoints "_governance_enforcement" "governance_enforcement") host.roles
      report.roleSeparationFailures.length host.requireRoleSeparation
    lineage := computeLineageCheck db.lineageOutcomes host.requireIdentityLineage
    rollback := computeRollbackVerdictForReport env host.mount head }

namespace AuditTrailReport

def truncationDirty : TruncationCheck → Bool
  | .detected _ _ => true
  | _ => false

def witnessDirty : WitnessCheck → Bool
  | .detected _ _ _ | .forged _ | .missing => true
  | _ => false

def causeDirty : CauseBinding → Bool
  | .detected _ => true
  | _ => false

def roleDirty : RoleSeparationCheck → Bool
  | .forged _ | .misconfigured _ | .missing => true
  | _ => false

def lineageDirty : LineageCheck → Bool
  | .forged _ | .missing => true
  | _ => false

def rollbackDirty : RollbackCheck → Bool
  | .evidence _ _ | .missing => true
  | _ => false

def isClean (report : AuditTrailReport) : Bool :=
  report.chainIntact && report.sequenceGaps.isEmpty && !truncationDirty report.truncation &&
    !witnessDirty report.witness && !causeDirty report.causeBinding && !roleDirty report.roleSeparation &&
    !lineageDirty report.lineage && !rollbackDirty report.rollback

theorem chainIntact_of_isClean {report : AuditTrailReport} (clean : report.isClean = true) :
    report.chainIntact = true := by
  simp only [isClean, Bool.and_eq_true] at clean
  exact clean.1.1.1.1.1.1.1

end AuditTrailReport
end AiMemory.AuditTrail
