import AiMemory.Witness.RestoreSanction

/-
This file embeds the verdicts that the report of the audit trail is assembled from.
-/

namespace AiMemory.AuditTrail
open AiMemory.Checkpoints AiMemory.Lineage AiMemory.Machine AiMemory.Witness

inductive TruncationCheck where
  | unknown
  | notDetected
  | detected (anchoredHead dbHead : Int)
  deriving DecidableEq

/-- The watermark carries the hash of its head, which the check does not read. -/
def truncationCheck (headSequence : Int) : Option (Int × String) → TruncationCheck
  | none => .unknown
  | some (anchoredHead, _) =>
      if headSequence < anchoredHead then .detected anchoredHead headSequence else .notDetected

inductive WitnessCheck where
  | unknown
  | notDetected
  | detected (chain : String) (witnessHead dbHead : Int)
  | forged (detail : String)
  | missing
  deriving DecidableEq

def witnessChainSignedEvents : String := "signed_events"

def witnessChainMemoryRevisions : String := "memory_revisions"

/-- Without a usable anchor the verdict is withheld, or missing when a witness is required. -/
def withhold (requireWitness : Bool) : WitnessCheck := if requireWitness then .missing else .unknown

/-- The two heads of the witness are compared with the surviving heads by their sequences. -/
def compareHeads (dual : WitnessDualHead) (dbSignedHead dbRevisionsHead : Int) : WitnessCheck :=
  if dual.signedHeadSequence > dbSignedHead then
    .detected witnessChainSignedEvents dual.signedHeadSequence dbSignedHead
  else if dual.revisionsHeadSequence > dbRevisionsHead then
    .detected witnessChainMemoryRevisions dual.revisionsHeadSequence dbRevisionsHead
  else .notDetected

def computeWitnessVerdict (env : Witness.Environment) (latestWitness : Option Checkpoint)
    (enrolledPubkey : Option VerifyingKey) (dbSignedHead dbRevisionsHead : Int) (requireWitness : Bool) :
    WitnessCheck :=
  match latestWitness with
  | none => withhold requireWitness
  | some cp =>
      -- The pin comes before the signature is trusted.
      if enrolledPubkey.any fun expected => cp.resolverPubkey ≠ expected.toBytes.1 then
        .forged ("witness resolver_pubkey does not match the enrolled out-of-band " ++
          "witness pubkey (K1 pin) — anchor rejected")
      else if !verify env.checkpoints cp then
        if enrolledPubkey.isSome then .forged "witness checkpoint signature failed verification"
        else withhold requireWitness
      else if enrolledPubkey.isNone then withhold requireWitness
      else
        match parseWitnessDualHead env cp with
        | none => withhold requireWitness
        | some dual => compareHeads dual dbSignedHead dbRevisionsHead

inductive CauseBinding where
  | unknown
  | notDetected
  | detected (rowsWithoutCause : Nat)
  deriving DecidableEq

def computeCauseBindingVerdict (rowsWithoutCause : Nat) (require : Bool) : CauseBinding :=
  if rowsWithoutCause = 0 then .notDetected
  else if require then .detected rowsWithoutCause
  else .unknown

inductive RoleSeparationCheck where
  | unknown
  | notDetected
  | forged (detail : String)
  | misconfigured (detail : String)
  | missing
  deriving DecidableEq

/-- The pin and the signature of one role checkpoint are checked in this order. -/
def pinAndVerifyRoleCheckpoint (env : Lineage.Environment) (cp : Checkpoint) (expected : VerifyingKey)
    (role : String) : Option RoleSeparationCheck :=
  if cp.resolverPubkey ≠ expected.toBytes.1 then
    some (.forged (role ++ " resolver_pubkey does not match the enrolled out-of-band pubkey (K1 pin)"))
  else if !verify env cp then some (.forged (role ++ " checkpoint signature failed verification"))
  else none

structure RoleKeys where
  recorder : Option VerifyingKey
  judge : Option VerifyingKey
  stopper : Option VerifyingKey

/-- The first two roles that share a key are named. -/
def RoleKeys.sharedBy (keys : RoleKeys) : Option String :=
  ([(keys.recorder, keys.judge, "recorder == judge"), (keys.recorder, keys.stopper, "recorder == stopper"),
    (keys.judge, keys.stopper, "judge == stopper")].find? fun pair =>
      pair.1.any fun first => pair.2.1.any fun second => first.toBytes = second.toBytes).map
    fun pair => pair.2.2

def computeRoleSeparationVerdict (env : Lineage.Environment)
    (latestVerdict latestEnforcement : Option Checkpoint) (keys : RoleKeys) (recorderRowFailures : Nat)
    (require : Bool) : RoleSeparationCheck :=
  if keys.recorder.isNone ∧ keys.judge.isNone ∧ keys.stopper.isNone then
    if require then .missing else .unknown
  else
    match keys.sharedBy with
    | some label => .misconfigured ("enrolled role pubkeys are not pairwise-distinct (" ++ label ++ ")")
    | none =>
        if keys.recorder.isSome ∧ recorderRowFailures > 0 then
          .forged (toString recorderRowFailures ++ " governance row(s) failed recorder verification " ++
            "or were demoted from daemon_signed after recorder enrollment")
        else
          let judged := keys.judge.bind fun judge =>
            match latestVerdict with
            | some cp => pinAndVerifyRoleCheckpoint env cp judge "judge verdict"
            | none => if require then some .missing else none
          -- An enforcement is written only on a denial, so its absence is normal.
          let stopped := keys.stopper.bind fun stopper => latestEnforcement.bind fun cp =>
            pinAndVerifyRoleCheckpoint env cp stopper "stopper enforcement"
          (judged.or stopped).getD .notDetected

inductive LineageCheck where
  | unknown
  | notDetected
  | forged (detail : String)
  | revoked (fromSeq : UInt64) (detail : String)
  | missing
  deriving DecidableEq

structure LineageWalkOutcome where
  agentId : String
  failure : Option String
  revokedFromSeq : Option UInt64
  headCustodyClass : CustodyClass

def LineageWalkOutcome.forged (outcome : LineageWalkOutcome) : Option LineageCheck :=
  outcome.failure.map fun detail => .forged ("agent '" ++ outcome.agentId ++ "': " ++ detail)

def LineageWalkOutcome.revoked (outcome : LineageWalkOutcome) : Option LineageCheck :=
  outcome.revokedFromSeq.map fun fromSeq =>
    .revoked fromSeq ("agent '" ++ outcome.agentId ++ "': chain revoked — entries from witness sequence " ++
      toString fromSeq.toNat ++ " are SUSPECT (custody: " ++ outcome.headCustodyClass.asStr ++ ")")

/-- A failed walk of any agent comes before every revocation. -/
def computeLineageCheck (outcomes : List LineageWalkOutcome) (require : Bool) : LineageCheck :=
  if outcomes.isEmpty then if require then .missing else .unknown
  else
    ((outcomes.findSome? LineageWalkOutcome.forged).or (outcomes.findSome? LineageWalkOutcome.revoked)).getD
      .notDetected

/-- A witness that raises no alarm is pinned to the enrolled key, verifies and binds heads that survive. -/
theorem computeWitnessVerdict_notDetected {env : Witness.Environment} {latestWitness : Option Checkpoint}
    {enrolledPubkey : Option VerifyingKey} {dbSignedHead dbRevisionsHead : Int} {requireWitness : Bool}
    (passed : computeWitnessVerdict env latestWitness enrolledPubkey dbSignedHead dbRevisionsHead
      requireWitness = .notDetected) :
    ∃ cp dual enrolled, latestWitness = some cp ∧ enrolledPubkey = some enrolled ∧
      cp.resolverPubkey = enrolled.toBytes.1 ∧ verify env.checkpoints cp = true ∧
      parseWitnessDualHead env cp = some dual ∧ dual.signedHeadSequence ≤ dbSignedHead ∧
      dual.revisionsHeadSequence ≤ dbRevisionsHead := by
  have withheld : withhold requireWitness ≠ .notDetected := by cases requireWitness <;> simp [withhold]
  unfold computeWitnessVerdict at passed
  cases latest : latestWitness with
  | none =>
      rw [latest] at passed
      exact absurd passed withheld
  | some cp =>
      simp only [latest] at passed
      split at passed
      · cases passed
      · rename_i pinned
        split at passed
        · split at passed
          · cases passed
          · exact absurd passed withheld
        · rename_i verified
          cases enrolled : enrolledPubkey with
          | none =>
              rw [enrolled] at passed
              exact absurd passed withheld
          | some key =>
              rw [enrolled] at passed pinned
              cases parsed : parseWitnessDualHead env cp with
              | none =>
                  rw [parsed] at passed
                  exact absurd passed withheld
              | some dual =>
                  rw [parsed] at passed
                  have heads : compareHeads dual dbSignedHead dbRevisionsHead = .notDetected := passed
                  unfold compareHeads at heads
                  split at heads
                  · cases heads
                  · split at heads
                    · cases heads
                    · exact ⟨cp, dual, key, rfl, rfl, by simpa using pinned, by simpa using verified, parsed,
                        by omega, by omega⟩

end AiMemory.AuditTrail
