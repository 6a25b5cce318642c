import AiMemory.Lineage.Authority
import AiMemory.Lineage.Mint
import AiMemory.Machine.Numbers
import AiMemory.SignedEvents.Reachable

/-
This file embeds the tables in which the lineages are stored and everything that writes them.
-/

namespace AiMemory.Lineage
open AiMemory.Library AiMemory.Machine AiMemory.SignedEvents

section Rows

/-- A stored record has signed columns where the record has words. -/
structure LineageRow where
  agentId : String
  epoch : Int
  reason : String
  predecessorPubkey : String
  successorPubkey : String
  recoveryPubkey : Option String
  notBefore : String
  prevRecordHash : Bytes
  signature : Bytes
  custodyClass : Option String
  suspectedCompromiseFromSeq : Option Int
  guardianSetId : Option Bytes
  recoveryThreshold : Option Int
  deriving DecidableEq

/-- A word beyond the largest signed integer is stored as that integer. -/
def saturated (word : UInt64) : Int := min word.toNat i64Max

/-- A negative integer is read as zero. -/
def unsaturated (stored : Int) : UInt64 := UInt64.ofNat stored.toNat

def LineageReason.fromStr (slug : String) : Option LineageReason :=
  [genesis, rotation, recovery, revocation].find? fun reason => reason.asStr = slug

def CustodyClass.fromStr (slug : String) : Option CustodyClass :=
  [softwareFile, tpm2, pkcs11Hsm, secureEnclave, kms].find? fun custody => custody.asStr = slug

def CustodyClass.fromStored : Option String → Option CustodyClass
  | none => some softwareFile
  | some slug => fromStr slug

/-- The columns that an insertion binds. -/
def rowOf (record : LineageRecord) (signature : Bytes) : LineageRow where
  agentId := record.agentId
  epoch := record.epoch.toNat
  reason := record.reason.asStr
  predecessorPubkey := record.predecessorPubkeyB64
  successorPubkey := record.successorPubkeyB64
  recoveryPubkey := record.recoveryPubkeyB64
  notBefore := record.notBefore
  prevRecordHash := record.prevRecordHash
  signature
  custodyClass := some record.custodyClass.asStr
  suspectedCompromiseFromSeq := record.suspectedCompromiseFromSeq.map saturated
  guardianSetId := record.guardianSetId
  recoveryThreshold := record.recoveryThreshold.map saturated

/-- The reader refuses an unknown slug and a negative epoch. -/
def LineageRow.decode (row : LineageRow) : Except String (LineageRecord × Bytes) :=
  match LineageReason.fromStr row.reason with
  | none => .error ("unknown lineage reason '" ++ row.reason ++ "' for '" ++ row.agentId ++ "'")
  | some reason =>
      match CustodyClass.fromStored row.custodyClass with
      | none => .error ("unknown lineage custody_class '" ++ row.custodyClass.getD "" ++ "' for '" ++
          row.agentId ++ "'")
      | some custodyClass =>
          if row.epoch < 0 then .error "negative lineage epoch"
          else
            .ok
              ({ agentId := row.agentId
                 epoch := UInt64.ofNat row.epoch.toNat
                 reason
                 predecessorPubkeyB64 := row.predecessorPubkey
                 successorPubkeyB64 := row.successorPubkey
                 recoveryPubkeyB64 := row.recoveryPubkey
                 notBefore := row.notBefore
                 prevRecordHash := row.prevRecordHash
                 custodyClass
                 suspectedCompromiseFromSeq := row.suspectedCompromiseFromSeq.map unsaturated
                 guardianSetId := row.guardianSetId
                 recoveryThreshold := row.recoveryThreshold.map unsaturated }, row.signature)

end Rows

section Registry

/-- A registered agent may have a bound key. -/
structure AgentRegistration where
  agentId : String
  agentPubkey : Option String
  deriving DecidableEq

/-- The tables that a lineage is stored in; the agents are the rows of their namespace. -/
structure Registry where
  lineage : Slice LineageRow
  agents : List AgentRegistration
  signedEvents : List EventRow

variable (env : Environment) (policy : Option RecoveryPolicy)

def agentPubkey (registry : Registry) (agentId : String) : Option String :=
  (registry.agents.find? fun agent => agent.agentId = agentId).bind AgentRegistration.agentPubkey

def bindAgentPubkey (registry : Registry) (agentId pubkeyB64 : String) : Except String Registry :=
  if registry.agents.any fun agent => agent.agentId = agentId then
    .ok
      { registry with
        agents := registry.agents.map fun agent =>
          if agent.agentId = agentId then { agent with agentPubkey := some pubkeyB64 } else agent }
  else .error ("cannot bind pubkey: agent '" ++ agentId ++ "' is not registered (register it first)")

def decodeRows : List LineageRow → Except String (List (LineageRecord × Bytes))
  | [] => .ok []
  | row :: rows => do
      let entry ← row.decode
      let entries ← decodeRows rows
      return entry :: entries

/-- Every stored row is decoded into one entry. -/
theorem length_decodeRows {rows : List LineageRow} {entries : List (LineageRecord × Bytes)}
    (decoded : decodeRows rows = .ok entries) : entries.length = rows.length := by
  induction rows generalizing entries with
  | nil =>
      obtain rfl := Except.ok.inj decoded
      rfl
  | cons row rows ih =>
      obtain ⟨entry, _, decoded⟩ := bind_eq_ok.mp decoded
      obtain ⟨later, read, decoded⟩ := bind_eq_ok.mp decoded
      rw [← Except.ok.inj decoded, List.length_cons, List.length_cons, ih read]

/-- The rows of an agent in the order of their epochs. -/
def lineageRows (registry : Registry) (agentId : String) : List LineageRow :=
  (registry.lineage.items.filter fun row => row.agentId = agentId).insertionSort
    fun first second => first.epoch ≤ second.epoch

theorem length_lineageRows (registry : Registry) (agentId : String) :
    (lineageRows registry agentId).length < 2 ^ 63 := by
  rw [lineageRows, List.length_insertionSort]
  exact Nat.lt_of_le_of_lt (List.length_filter_le _ _) registry.lineage.short

def readLineage (registry : Registry) (agentId : String) : Except String (Slice (LineageRecord × Bytes)) :=
  match decoded : decodeRows (lineageRows registry agentId) with
  | .error error => .error error
  | .ok entries => .ok ⟨entries, by
      rw [length_decodeRows decoded]
      exact length_lineageRows registry agentId⟩

def lineageHead (registry : Registry) (agentId : String) : Except String (Option (LineageRecord × Bytes)) :=
  (readLineage registry agentId).map fun entries => entries.items.getLast?

def identityLineageEventTypes : List String :=
  ["identity.lineage.genesis", "identity.lineage.succession", "identity.lineage.recovery",
    "identity.lineage.revocation"]

def lineageWitnessEventType : LineageReason → Text
  | .genesis => ⟨"identity.lineage.genesis", by decide⟩
  | .rotation => ⟨"identity.lineage.succession", by decide⟩
  | .recovery => ⟨"identity.lineage.recovery", by decide⟩
  | .revocation => ⟨"identity.lineage.revocation", by decide⟩

def isWitness (agentId : String) (row : EventRow) : Bool :=
  row.agentId.text = agentId ∧ row.eventType.text ∈ identityLineageEventTypes

/-- An absent sequence sorts before the others. -/
def sequenceAtMost (first second : EventRow) : Bool :=
  match first.sequence, second.sequence with
  | none, _ => true
  | some _, none => false
  | some earlier, some later => earlier ≤ later

def lineageWitnessHashes (registry : Registry) (agentId : String) : List Bytes :=
  ((registry.signedEvents.filter (isWitness agentId)).insertionSort fun first second =>
    sequenceAtMost first second).map fun row => row.payloadHash.bytes

def verifyAgentLineage (registry : Registry) (agentId : String) :
    Except String (Except LineageError VerifiedLineage) := do
  let records ← readLineage registry agentId
  return verifyLineageWithRecovery env records (lineageWitnessHashes registry agentId)
    (agentPubkey registry agentId) policy

/-- An enrolled agent never falls back to its flat key. -/
def currentAuthoritativeKey (registry : Registry) (agentId : String) : Except String (Option VerifyingKey) := do
  let records ← readLineage registry agentId
  if records.items.isEmpty then
    match agentPubkey registry agentId with
    | none => return none
    | some bound =>
        match decodePublicBase64 env bound with
        | some key => return some key
        | none => throw "decoding bound agent_pubkey"
  else
    match verifyLineageWithRecovery env records (lineageWitnessHashes registry agentId)
        (agentPubkey registry agentId) policy with
    | .ok verified => return some verified.headKey
    | .error _ => return none

end Registry

section Appends

variable (env : Environment) (policy : Option RecoveryPolicy)

/-- A check that holds stops its function. -/
def bail (refused : Prop) [Decidable refused] (message : String) : Except String Unit :=
  if refused then .error message else .ok ()

def orError {Value : Type} (found : Option Value) (message : String) : Except String Value :=
  found.elim (.error message) .ok

/-- The texts of the errors that a refused append repeats. -/
def LineageError.text : LineageError → String
  | noGenesis => "lineage has no well-formed epoch-0 self-signed genesis record"
  | epochGap epoch => s!"epoch {epoch} is not contiguous with its predecessor"
  | predecessorMismatch epoch => s!"record at epoch {epoch} claims a predecessor the chain never authorized " ++
      "(or is a recovery record, whose verify path lands in v1.0)"
  | brokenLink epoch => s!"record at epoch {epoch} does not hash-link to its predecessor (tampered body)"
  | signatureInvalid epoch => s!"record at epoch {epoch} signature does not verify under its predecessor key"
  | nonMonotonicTime epoch => s!"record at epoch {epoch} not_before precedes its predecessor's (or is malformed)"
  | headKeyMismatch => "verified head key does not match the bound metadata.agent_pubkey"
  | witnessMismatch epoch => s!"record at epoch {epoch} has no matching append-only signed_events witness (C1)"
  | truncated records witnesses => s!"lineage truncation/rollback: {records} stored record(s) but {witnesses} " ++
      "append-only witness row(s) (C3)"
  | recoveryNotEnrolled epoch => s!"recovery record at epoch {epoch} cannot be verified — no recovery guardians " ++
      "are enrolled (set AI_MEMORY_RECOVERY_GUARDIAN_PUBKEYS)"
  | recoveryQuorumInvalid epoch => s!"recovery record at epoch {epoch} carries a malformed or unverifiable " ++
      "guardian-quorum attestation"
  | recoveryQuorumNotMet epoch distinct threshold => s!"recovery record at epoch {epoch} met only {distinct} of " ++
      s!"{threshold} distinct enrolled recovery guardians"

/-- The record has to succeed the head of its agent. -/
def checkHead (agentId : String) (head : Option (LineageRecord × Bytes)) (record : LineageRecord) :
    Except String Unit :=
  match head, record.reason with
  | none, .genesis => .ok ()
  | none, _ => .error ("no lineage enrolled for '" ++ agentId ++ "' — enroll a genesis record first")
  | some _, .genesis =>
      .error ("lineage for '" ++ agentId ++ "' already has a genesis record — append a rotation instead")
  | some (headRecord, _), _ =>
      if record.epoch ≠ headRecord.epoch + 1 then
        .error (s!"lineage epoch {record.epoch} does not succeed the head epoch {headRecord.epoch} for '" ++
          agentId ++ "'")
      else if record.predecessorPubkeyB64 ≠ headRecord.successorPubkeyB64 then
        .error ("lineage record predecessor is not the current head key for '" ++ agentId ++ "'")
      else
        match headRecord.recordHash env with
        | none => .error "CBOR encode SignableSuccession"
        | some hash =>
            if record.prevRecordHash ≠ hash.1 then
              .error ("lineage record prev_record_hash does not link to the head record for '" ++ agentId ++ "'")
            else .ok ()

def noGuardiansText : String :=
  "cannot mint a recovery record — no recovery guardians enrolled (set AI_MEMORY_RECOVERY_GUARDIAN_PUBKEYS)"

/-- A recovery needs its quorum and any other record the signature of its predecessor. -/
def checkAuthority (record : LineageRecord) (signature : Bytes) : Except String Unit :=
  if record.reason = .recovery then
    match policy with
    | none => .error noGuardiansText
    | some policy =>
        match verifyRecoveryRecord env record signature policy with
        | .ok _ => .ok ()
        | .error error => .error ("refusing to persist unverifiable recovery record: " ++ error.text)
  else
    match decodePublicBase64 env record.predecessorPubkeyB64 with
    | none => .error "decoding lineage predecessor pubkey"
    | some predecessor =>
        (verifySuccession env record signature predecessor).mapError fun error =>
          "refusing to persist unverifiable lineage record: " ++ error.text

/-- The primary key refuses a second record of one epoch. -/
def insertLineage (rows : Slice LineageRow) (row : LineageRow) : Except String (Slice LineageRow) :=
  if i64Max < row.epoch then .error "lineage epoch exceeds i64"
  else if rows.items.any fun stored => stored.agentId = row.agentId ∧ stored.epoch = row.epoch then
    .error "append_lineage_record: insert body (duplicate epoch is refused by the C5 PK)"
  else if room : (rows.items ++ [row]).length < 2 ^ 63 then .ok ⟨rows.items ++ [row], room⟩
  else .error "append_lineage_record: insert body (duplicate epoch is refused by the C5 PK)"

/-- What an append draws for its audit row. -/
structure WitnessStamp where
  id : Text
  timestamp : Text
  trySignAuditPayload : Bytes → Option Blob

def lineageWitness (agentId : Text) (record : LineageRecord) (signature : Blob) (hash : Digest)
    (stamp : WitnessStamp) : AppendCall where
  event :=
    { id := stamp.id
      agentId
      eventType := lineageWitnessEventType record.reason
      payloadHash := Blob.ofDigest hash
      signature := some signature
      attestLevel := ⟨"lineage_signed", by decide⟩
      timestamp := stamp.timestamp
      causeHash := none
      prevHash := Blob.empty
      sequence := 0 }
  trySignAuditPayload := stamp.trySignAuditPayload

/-- The body, the binding and the witness are stored together or not at all. -/
def appendLineageRecord (registry : Registry) (agentId : Text) (record : LineageRecord) (signature : Blob)
    (stamp : WitnessStamp) : Except String Registry := do
  bail (record.agentId ≠ agentId.text)
    ("lineage record agent_id '" ++ record.agentId ++ "' does not match '" ++ agentId.text ++ "'")
  bail (record.custodyClass ≠ .softwareFile)
    ("custody_class '" ++ record.custodyClass.asStr ++ "' cannot be minted by the OSS build — only '" ++
      custodyClassSoftwareFile ++ "' is mintable (hardware-attesting custody classes are RESERVED for a future build)")
  let head ← lineageHead registry agentId.text
  checkHead env agentId.text head record
  checkAuthority env policy record signature.bytes
  let input ← orError (record.signingInput env) "CBOR encode SignableSuccession"
  let lineage ← insertLineage registry.lineage (rowOf record signature.bytes)
  let bound ← bindAgentPubkey { registry with lineage := lineage } agentId.text record.successorPubkeyB64
  let signedEvents ← (appendSignedEventNoTx env.sha256 registry.signedEvents
    (lineageWitness agentId record signature (env.sha256 input) stamp)).mapError fun _ =>
      "append_lineage_record: witness append"
  return { bound with signedEvents := signedEvents }

end Appends

section Ceremonies

variable (env : Environment) (policy : Option RecoveryPolicy)

/-- A keypair that was loaded without its private half cannot sign. -/
structure LineageKeypair where
  agentId : String
  publicKey : VerifyingKey
  privateKey : Option (Bytes → SignatureBytes)
  publicBase64 : String

def signSuccession (keypair : LineageKeypair) (record : LineageRecord) : Except String Blob := do
  let sign ← orError keypair.privateKey
    ("LineageKeypair for " ++ keypair.agentId ++ " has no private key — cannot sign succession")
  let input ← orError (record.signingInput env) "CBOR encode SignableSuccession"
  return ⟨(sign input).1, by rw [(sign input).2]; decide⟩

/-- A key that does not decode is refused under the name of its field. -/
def requireKey (what : String) (text : Option String) : Except String Unit :=
  bail (∃ key ∈ text, (decodePublicBase64 env key).isNone) what

/-- A genesis anchors in the key that the registry already trusts. -/
def checkAnchor (registry : Registry) (agentId : String) (keypair : LineageKeypair) : Except String Unit :=
  match agentPubkey registry agentId with
  | none => .ok ()
  | some bound => do
      let boundKey ← orError (decodePublicBase64 env bound) "decoding bound agent_pubkey"
      bail (boundKey.toBytes ≠ keypair.publicKey.toBytes)
        ("bound agent_pubkey for '" ++ agentId ++ "' does not match the enrolling keypair — " ++
          "genesis must anchor in the key the registry already trusts")

def enrollLineage (registry : Registry) (agentId : Text) (keypair : LineageKeypair) (recoveryPubkeyB64 : Option String)
    (now : String) (stamp : WitnessStamp) : Except String Registry := do
  bail keypair.privateKey.isNone
    ("keypair for '" ++ agentId.text ++ "' is public-only — cannot self-sign a genesis")
  let head ← lineageHead registry agentId.text
  bail head.isSome ("lineage already enrolled for '" ++ agentId.text ++ "'")
  bail recoveryPubkeyB64.isNone
    ("a recovery_pubkey is REQUIRED to enroll a new lineage for '" ++ agentId.text ++ "' (#1949) — " ++
      "pass --recovery-pubkey so a stolen-and-lost key is recoverable")
  checkAnchor env registry agentId.text keypair
  requireKey env "decoding recovery pubkey" recoveryPubkeyB64
  let record := LineageRecord.genesis agentId.text keypair.publicBase64 recoveryPubkeyB64 now
  let signature ← signSuccession env keypair record
  appendLineageRecord env policy registry agentId record signature stamp

/-- The texts in which a rotation and a revocation differ. -/
structure HandoffTexts where
  absent : String
  publicOnly : String
  misplaced : String

/-- Only the head key signs a handoff, and an absent recovery key carries the one of the head forward. -/
def appendHandoff (texts : HandoffTexts) (mintFrom : LineageRecord → Option String → Option LineageRecord)
    (registry : Registry) (agentId : Text) (kOld : LineageKeypair) (successorPubkeyB64 : String)
    (recoveryPubkeyB64 : Option String) (stamp : WitnessStamp) : Except String Registry := do
  let found ← lineageHead registry agentId.text
  let head ← orError found ("no lineage enrolled for '" ++ agentId.text ++ "' — " ++ texts.absent)
  bail kOld.privateKey.isNone ("keypair for '" ++ agentId.text ++ "' is public-only — " ++ texts.publicOnly)
  let headKey ← orError (decodePublicBase64 env head.1.successorPubkeyB64) "decoding lineage head key"
  bail (headKey.toBytes ≠ kOld.publicKey.toBytes)
    ("signing keypair is not the current lineage head for '" ++ agentId.text ++ "' — only the " ++ texts.misplaced)
  requireKey env "decoding successor pubkey" (some successorPubkeyB64)
  requireKey env "decoding recovery pubkey" recoveryPubkeyB64
  let record ← orError (mintFrom head.1 (recoveryPubkeyB64.or head.1.recoveryPubkeyB64))
    "CBOR encode SignableSuccession"
  let signature ← signSuccession env kOld record
  appendLineageRecord env policy registry agentId record signature stamp

def appendSuccession (registry : Registry) (agentId : Text) (kOld : LineageKeypair) (successorPubkeyB64 : String)
    (recoveryPubkeyB64 : Option String) (now : String) (stamp : WitnessStamp) : Except String Registry :=
  appendHandoff env policy
    ⟨"run enroll-lineage first", "cannot sign a succession",
      "head key can hand the identity off (key-LOSS recovery lands in v1.0)"⟩
    (fun head recovery => head.rotation env successorPubkeyB64 recovery now)
    registry agentId kOld successorPubkeyB64 recoveryPubkeyB64 stamp

def appendRevocation (registry : Registry) (agentId : Text) (kOld : LineageKeypair) (successorPubkeyB64 : String)
    (suspectedCompromiseFromSeq : UInt64) (recoveryPubkeyB64 : Option String) (now : String) (stamp : WitnessStamp) :
    Except String Registry :=
  appendHandoff env policy
    ⟨"nothing to revoke", "cannot sign a revocation",
      "head key can sign a revocation this train (recovery-signed revocation lands in v1.0)"⟩
    (fun head recovery => head.revocation env successorPubkeyB64 suspectedCompromiseFromSeq recovery now)
    registry agentId kOld successorPubkeyB64 recoveryPubkeyB64 stamp

/-- A recovery commits to the guardians and to the threshold of its mint. -/
def LineageRecord.recovery (prev : LineageRecord) (successorPubkeyB64 : String)
    (suspectedCompromiseFromSeq : Option UInt64) (recoveryPubkeyB64 : Option String) (guardianSetId : Bytes)
    (recoveryThreshold : UInt64) (notBefore : String) : Option LineageRecord :=
  (prev.handoff env .recovery suspectedCompromiseFromSeq successorPubkeyB64 recoveryPubkeyB64 notBefore).map
    fun record =>
      { record with
        guardianSetId := some guardianSetId
        recoveryThreshold := some recoveryThreshold }

/-- The threshold of a policy is a machine word on the supported targets. -/
def mintRecoveryRecord (registry : Registry) (agentId successorPubkeyB64 : String)
    (suspectedCompromiseFromSeq : Option UInt64) (recoveryPubkeyB64 : Option String) (notBefore : String) :
    Except String LineageRecord := do
  let found ← lineageHead registry agentId
  let head ← orError found ("no lineage enrolled for '" ++ agentId ++ "' — nothing to recover")
  requireKey env "decoding recovery successor pubkey" (some successorPubkeyB64)
  requireKey env "decoding recovery pubkey" recoveryPubkeyB64
  let roster ← orError policy noGuardiansText
  let threshold ← orError roster.threshold
    ("cannot mint a recovery record — AI_MEMORY_RECOVERY_THRESHOLD is unset; " ++
      "set an explicit M-of-N threshold (a key-takeover primitive never defaults to 1)")
  orError
    (head.1.recovery env successorPubkeyB64 suspectedCompromiseFromSeq
      (recoveryPubkeyB64.or head.1.recoveryPubkeyB64) (guardianSetIdDigest env roster.guardians)
      (UInt64.ofNat threshold) notBefore)
    "CBOR encode SignableSuccession"

/-- An allocation holds the blob of the quorum. -/
def encodeRecoveryQuorum (quorum : List RecoveryAttestation) : Except String Blob :=
  let pairs := quorum.map fun attestation =>
    CborValue.array [.text attestation.guardianPubkeyB64, .bytes attestation.signature]
  match env.intoWriter (.array [.integer recoveryQuorumFormatV1, .array pairs]) with
  | none => .error "CBOR encode recovery quorum"
  | some written =>
      if short : written.length < 2 ^ 63 then .ok ⟨written, short⟩ else .error "CBOR encode recovery quorum"

def appendRecovery (registry : Registry) (agentId : Text) (successorPubkeyB64 : String)
    (quorum : List RecoveryAttestation) (suspectedCompromiseFromSeq : Option UInt64)
    (recoveryPubkeyB64 : Option String) (notBefore : String) (stamp : WitnessStamp) : Except String Registry := do
  let record ← mintRecoveryRecord env policy registry agentId.text successorPubkeyB64 suspectedCompromiseFromSeq
    recoveryPubkeyB64 notBefore
  let quorumBlob ← encodeRecoveryQuorum env quorum
  appendLineageRecord env policy registry agentId record quorumBlob stamp

end Ceremonies

section History

variable (env : Environment) (policy : Option RecoveryPolicy)

/-- A new registration replaces the columns of the old one and drops its key. -/
def registerAgent (registry : Registry) (agentId : String) : Registry :=
  { registry with
    agents := registry.agents.filter (fun agent => agent.agentId ≠ agentId) ++ [⟨agentId, none⟩] }

def revokeAgentPubkey (registry : Registry) (agentId : String) : Except String Registry :=
  if registry.agents.any fun agent => agent.agentId = agentId then
    .ok
      { registry with
        agents := registry.agents.map fun agent =>
          if agent.agentId = agentId then { agent with agentPubkey := none } else agent }
  else .error ("cannot revoke pubkey: agent '" ++ agentId ++ "' is not registered (register it first)")

/-- Everything that writes the tables of the lineages. -/
inductive RegistryCall where
  | register (agentId : String)
  | bind (agentId pubkeyB64 : String)
  | unbind (agentId : String)
  | event (call : AppendCall)
  | append (agentId : Text) (record : LineageRecord) (signature : Blob) (stamp : WitnessStamp)
  | enroll (agentId : Text) (keypair : LineageKeypair) (recoveryPubkeyB64 : Option String) (now : String)
      (stamp : WitnessStamp)
  | succeed (agentId : Text) (kOld : LineageKeypair) (successorPubkeyB64 : String)
      (recoveryPubkeyB64 : Option String) (now : String) (stamp : WitnessStamp)
  | revoke (agentId : Text) (kOld : LineageKeypair) (successorPubkeyB64 : String) (fromSeq : UInt64)
      (recoveryPubkeyB64 : Option String) (now : String) (stamp : WitnessStamp)
  | recover (agentId : Text) (successorPubkeyB64 : String) (quorum : List RecoveryAttestation)
      (fromSeq : Option UInt64) (recoveryPubkeyB64 : Option String) (notBefore : String) (stamp : WitnessStamp)

def performCall (registry : Registry) : RegistryCall → Except String Registry
  | .register agentId => .ok (registerAgent registry agentId)
  | .bind agentId pubkeyB64 => bindAgentPubkey registry agentId pubkeyB64
  | .unbind agentId => revokeAgentPubkey registry agentId
  | .event call => .ok { registry with signedEvents := appendStep env.sha256 registry.signedEvents call }
  | .append agentId record signature stamp => appendLineageRecord env policy registry agentId record signature stamp
  | .enroll agentId keypair recovery now stamp => enrollLineage env policy registry agentId keypair recovery now stamp
  | .succeed agentId kOld successor recovery now stamp =>
      appendSuccession env policy registry agentId kOld successor recovery now stamp
  | .revoke agentId kOld successor fromSeq recovery now stamp =>
      appendRevocation env policy registry agentId kOld successor fromSeq recovery now stamp
  | .recover agentId successor quorum fromSeq recovery notBefore stamp =>
      appendRecovery env policy registry agentId successor quorum fromSeq recovery notBefore stamp

/-- A refused call leaves the tables as they were. -/
def registryStep (registry : Registry) (call : RegistryCall) : Registry :=
  match performCall env policy registry call with
  | .ok after => after
  | .error _ => registry

end History

section Appended

variable {env : Environment} {policy : Option RecoveryPolicy} {registry after : Registry}

/-- What a stored record has passed. -/
structure Preflight (env : Environment) (policy : Option RecoveryPolicy) (registry : Registry) (agentId : String)
    (record : LineageRecord) (signature : Bytes) : Prop where
  agent : record.agentId = agentId
  software : record.custodyClass = .softwareFile
  head : ∃ head, lineageHead registry agentId = .ok head ∧ checkHead env agentId head record = .ok ()
  authority : checkAuthority env policy record signature = .ok ()
  fits : (rowOf record signature).epoch ≤ i64Max
  fresh : ∀ stored ∈ registry.lineage.items, stored.agentId = agentId →
    stored.epoch ≠ (rowOf record signature).epoch

theorem bail_ok {refused : Prop} [Decidable refused] {message : String} :
    bail refused message = .ok () ↔ ¬ refused := by
  rw [bail]
  split <;> simp [*]

theorem orError_ok {Value : Type} {found : Option Value} {message : String} {value : Value} :
    orError found message = .ok value ↔ found = some value := elim_error_eq_ok

/-- An insertion appends its row at the end. -/
theorem insertLineage_ok {rows stored : Slice LineageRow} {row : LineageRow}
    (inserted : insertLineage rows row = .ok stored) :
    stored.items = rows.items ++ [row] ∧ row.epoch ≤ i64Max ∧
      ∀ earlier ∈ rows.items, earlier.agentId = row.agentId → earlier.epoch ≠ row.epoch := by
  unfold insertLineage at inserted
  split at inserted
  · cases inserted
  rename_i fits
  split at inserted
  · cases inserted
  rename_i fresh
  split at inserted
  · obtain rfl := Except.ok.inj inserted
    refine ⟨rfl, Int.not_lt.mp fits, fun earlier present agent epoch => fresh ?_⟩
    exact List.any_eq_true.mpr ⟨earlier, present, decide_eq_true ⟨agent, epoch⟩⟩
  · cases inserted

/-- A binding changes no lineage and no event. -/
theorem bindAgentPubkey_ok {agentId pubkeyB64 : String}
    (bound : bindAgentPubkey registry agentId pubkeyB64 = .ok after) :
    after.lineage = registry.lineage ∧ after.signedEvents = registry.signedEvents ∧
      ∀ other, agentPubkey after other = if other = agentId then some pubkeyB64 else agentPubkey registry other := by
  unfold bindAgentPubkey at bound
  split at bound
  · rename_i registered
    obtain rfl := Except.ok.inj bound
    refine ⟨rfl, rfl, fun other => ?_⟩
    obtain ⟨agent, present, named⟩ := List.any_eq_true.mp registered
    have keeps : ∀ agent : AgentRegistration, (if agent.agentId = agentId then
        { agent with agentPubkey := some pubkeyB64 } else agent).agentId = agent.agentId := by
      intro agent
      split <;> rfl
    simp only [agentPubkey, List.find?_map, Function.comp_def, keeps, Option.bind_map]
    by_cases same : other = agentId
    · subst same
      rw [if_pos rfl]
      cases found : registry.agents.find? fun agent => agent.agentId = other with
      | none => exact absurd named (List.find?_eq_none.mp found agent present)
      | some first =>
          have here := List.find?_some found
          simp only [decide_eq_true_eq] at here
          simp [here]
    · rw [if_neg same]
      cases found : registry.agents.find? fun agent => agent.agentId = other with
      | none => rfl
      | some first =>
          have here := List.find?_some found
          simp only [decide_eq_true_eq] at here
          simp [here, same]
  · cases bound

/-- A stored record is the new last row of its agent, with its key bound and its witness appended. -/
theorem appendLineageRecord_ok {agentId : Text} {record : LineageRecord} {signature : Blob} {stamp : WitnessStamp}
    (appended : appendLineageRecord env policy registry agentId record signature stamp = .ok after) :
    Preflight env policy registry agentId.text record signature.bytes ∧
      after.lineage.items = registry.lineage.items ++ [rowOf record signature.bytes] ∧
      (∀ other, agentPubkey after other =
        if other = agentId.text then some record.successorPubkeyB64 else agentPubkey registry other) ∧
      ∃ hash row, record.witnessPayloadHash env = some hash ∧ after.signedEvents = registry.signedEvents ++ [row] ∧
        row.agentId = agentId ∧ row.eventType = lineageWitnessEventType record.reason ∧
        row.payloadHash.bytes = hash := by
  unfold appendLineageRecord at appended
  obtain ⟨_, agent, appended⟩ := bind_eq_ok.mp appended
  obtain ⟨_, software, appended⟩ := bind_eq_ok.mp appended
  obtain ⟨head, read, appended⟩ := bind_eq_ok.mp appended
  obtain ⟨_, succeeds, appended⟩ := bind_eq_ok.mp appended
  obtain ⟨_, authorized, appended⟩ := bind_eq_ok.mp appended
  obtain ⟨input, written, appended⟩ := bind_eq_ok.mp appended
  obtain ⟨lineage, inserted, appended⟩ := bind_eq_ok.mp appended
  obtain ⟨bound, binding, appended⟩ := bind_eq_ok.mp appended
  obtain ⟨signedEvents, witnessed, appended⟩ := bind_eq_ok.mp appended
  obtain rfl := Except.ok.inj appended
  obtain ⟨rows, fits, fresh⟩ := insertLineage_ok inserted
  obtain ⟨kept, _, pubkeys⟩ := bindAgentPubkey_ok binding
  have named : record.agentId = agentId.text := not_not.mp (bail_ok.mp agent)
  refine ⟨⟨named, not_not.mp (bail_ok.mp software), ⟨head, read, succeeds⟩, authorized, fits, ?_⟩, ?_, pubkeys, ?_⟩
  · intro stored present same
    exact fresh stored present (same.trans named.symm)
  · show bound.lineage.items = _
    rw [kept]
    exact rows
  · have stored := mapError_eq_ok.mp witnessed
    rw [appendSignedEventNoTx] at stored
    split at stored
    · cases stored
    · refine ⟨(env.sha256 input).1, _, ?_, (insertRow_ok stored).1, rfl, rfl, rfl⟩
      rw [LineageRecord.witnessPayloadHash, orError_ok.mp written, Option.map_some]

/-- A required key can be decoded. -/
theorem requireKey_ok {what text : String} (required : requireKey env what (some text) = .ok ()) :
    (decodePublicBase64 env text).isSome := by
  have refused := bail_ok.mp required
  rw [Option.isSome_iff_ne_none]
  simpa using refused

/-- An enrollment appends the first record of its agent. -/
theorem enrollLineage_ok {agentId : Text} {keypair : LineageKeypair} {recovery : Option String} {now : String}
    {stamp : WitnessStamp}
    (done : enrollLineage env policy registry agentId keypair recovery now stamp = .ok after) :
    ∃ signature, lineageHead registry agentId.text = .ok none ∧
      appendLineageRecord env policy registry agentId (.genesis agentId.text keypair.publicBase64 recovery now)
        signature stamp = .ok after := by
  obtain ⟨_, _, done⟩ := bind_eq_ok.mp done
  obtain ⟨head, read, done⟩ := bind_eq_ok.mp done
  obtain ⟨_, unenrolled, done⟩ := bind_eq_ok.mp done
  obtain ⟨_, _, done⟩ := bind_eq_ok.mp done
  obtain ⟨_, _, done⟩ := bind_eq_ok.mp done
  obtain ⟨_, _, done⟩ := bind_eq_ok.mp done
  obtain ⟨signature, _, appended⟩ := bind_eq_ok.mp done
  rw [Option.not_isSome_iff_eq_none.mp (bail_ok.mp unenrolled)] at read
  exact ⟨signature, read, appended⟩

/-- A successful handoff appends the record that it mints from the head. -/
theorem appendHandoff_ok {agentId : Text} {stamp : WitnessStamp} {texts : HandoffTexts}
    {mintFrom : LineageRecord → Option String → Option LineageRecord}
    {kOld : LineageKeypair} {successor : String} {recovery : Option String}
    (done : appendHandoff env policy texts mintFrom registry agentId kOld successor recovery stamp = .ok after) :
    ∃ head record signature, lineageHead registry agentId.text = .ok (some head) ∧
      mintFrom head.1 (recovery.or head.1.recoveryPubkeyB64) = some record ∧
      (decodePublicBase64 env successor).isSome ∧
      appendLineageRecord env policy registry agentId record signature stamp = .ok after := by
  obtain ⟨found, read, done⟩ := bind_eq_ok.mp done
  obtain ⟨head, present, done⟩ := bind_eq_ok.mp done
  obtain ⟨_, _, done⟩ := bind_eq_ok.mp done
  obtain ⟨_, _, done⟩ := bind_eq_ok.mp done
  obtain ⟨_, _, done⟩ := bind_eq_ok.mp done
  obtain ⟨_, decodes, done⟩ := bind_eq_ok.mp done
  obtain ⟨_, _, done⟩ := bind_eq_ok.mp done
  obtain ⟨record, minted, done⟩ := bind_eq_ok.mp done
  obtain ⟨signature, _, done⟩ := bind_eq_ok.mp done
  rw [orError_ok.mp present] at read
  exact ⟨head, record, signature, read, orError_ok.mp minted, requireKey_ok decodes, done⟩

/-- A minted recovery commits to a threshold of the policy. -/
theorem mintRecoveryRecord_ok {owner successor notBefore : String} {fromSeq : Option UInt64}
    {recovery : Option String} {record : LineageRecord}
    (done : mintRecoveryRecord env policy registry owner successor fromSeq recovery notBefore = .ok record) :
    ∃ head roster threshold handed, lineageHead registry owner = .ok (some head) ∧
      policy = some roster ∧ roster.threshold = some threshold ∧
      head.1.handoff env .recovery fromSeq successor (recovery.or head.1.recoveryPubkeyB64) notBefore = some handed ∧
      record =
        { handed with
          guardianSetId := some (guardianSetIdDigest env roster.guardians)
          recoveryThreshold := some (UInt64.ofNat threshold) } ∧
      (decodePublicBase64 env successor).isSome := by
  obtain ⟨found, read, done⟩ := bind_eq_ok.mp done
  obtain ⟨head, present, done⟩ := bind_eq_ok.mp done
  obtain ⟨_, decodes, done⟩ := bind_eq_ok.mp done
  obtain ⟨_, _, done⟩ := bind_eq_ok.mp done
  obtain ⟨roster, enrolled, done⟩ := bind_eq_ok.mp done
  obtain ⟨threshold, explicit, done⟩ := bind_eq_ok.mp done
  have minted := orError_ok.mp done
  rw [LineageRecord.recovery, Option.map_eq_some_iff] at minted
  obtain ⟨handed, handoff, committed⟩ := minted
  rw [orError_ok.mp present] at read
  exact ⟨head, roster, threshold, handed, read, orError_ok.mp enrolled, orError_ok.mp explicit, handoff,
    committed.symm, requireKey_ok decodes⟩

/-- A recovery is minted over the head and appended. -/
theorem appendRecovery_ok {agentId : Text} {successor notBefore : String} {quorum : List RecoveryAttestation}
    {fromSeq : Option UInt64} {recovery : Option String} {stamp : WitnessStamp}
    (done : appendRecovery env policy registry agentId successor quorum fromSeq recovery notBefore stamp =
      .ok after) :
    ∃ record blob, mintRecoveryRecord env policy registry agentId.text successor fromSeq recovery notBefore =
        .ok record ∧
      appendLineageRecord env policy registry agentId record blob stamp = .ok after := by
  obtain ⟨record, minted, done⟩ := bind_eq_ok.mp done
  obtain ⟨blob, _, appended⟩ := bind_eq_ok.mp done
  exact ⟨record, blob, minted, appended⟩

end Appended

end AiMemory.Lineage
