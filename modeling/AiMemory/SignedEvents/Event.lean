import AiMemory.Machine.Bytes

/-
This file embeds the audit events, their stored rows, the bytes that the chain and the keys commit to and the verdict
on the signature of one row.
-/

namespace AiMemory.SignedEvents
open AiMemory.Library AiMemory.Machine

inductive AttestLevel where
  | unsigned | selfSigned | peerAttested | signedByPeer | daemonSigned | recorderSigned | lineageSigned
  deriving DecidableEq, Repr

def AttestLevel.asStr : AttestLevel → String
  | unsigned => "unsigned"
  | selfSigned => "self_signed"
  | peerAttested => "peer_attested"
  | signedByPeer => "signed_by_peer"
  | daemonSigned => "daemon_signed"
  | recorderSigned => "recorder_signed"
  | lineageSigned => "lineage_signed"

/-- The caller supplies every column except the two columns of the chain. -/
@[ext] structure EventBody where
  id : Text
  agentId : Text
  eventType : Text
  payloadHash : Blob
  signature : Option Blob
  attestLevel : Text
  timestamp : Text
  causeHash : Option Blob
  deriving DecidableEq

@[ext] structure SignedEvent extends EventBody where
  prevHash : Blob
  sequence : Int64
  deriving DecidableEq

/-- The schema leaves both columns of the chain nullable. -/
@[ext] structure EventRow extends EventBody where
  prevHash : Option Blob
  sequence : Option Int64
  deriving DecidableEq

/-- The readers coalesce an absent sequence to zero and an absent hash to no bytes. -/
def EventRow.toEvent (row : EventRow) : SignedEvent :=
  { row with prevHash := row.prevHash.getD Blob.empty, sequence := row.sequence.getD 0 }

section Canonical

def canonicalChainBytes (event : SignedEvent) : Bytes :=
  lengthPrefixedText event.id ++ (lengthPrefixedText event.agentId ++
    (lengthPrefixedText event.eventType ++ (lengthPrefixed event.payloadHash ++
      (lengthPrefixed (event.signature.getD Blob.empty) ++ (lengthPrefixedText event.attestLevel ++
        (lengthPrefixedText event.timestamp ++ (i64BeBytes event.sequence ++
          optionalField event.causeHash)))))))

def EventRow.canonical (row : EventRow) : Bytes := canonicalChainBytes row.toEvent

/-- The chain commits to these columns, and it reads an absent signature as no bytes. -/
def SignedEvent.committed (event : SignedEvent) :
    Text × Text × Text × Blob × Blob × Text × Text × Int64 × Option Blob :=
  (event.id, event.agentId, event.eventType, event.payloadHash, event.signature.getD Blob.empty,
    event.attestLevel, event.timestamp, event.sequence, event.causeHash)

/-- The canonical bytes determine the committed columns. -/
theorem canonicalChainBytes_inj {first second : SignedEvent} :
    canonicalChainBytes first = canonicalChainBytes second ↔ first.committed = second.committed := by
  constructor
  · intro same
    unfold canonicalChainBytes at same
    obtain ⟨ids, same⟩ := lengthPrefixedText_code _ _ _ _ same
    obtain ⟨agents, same⟩ := lengthPrefixedText_code _ _ _ _ same
    obtain ⟨types, same⟩ := lengthPrefixedText_code _ _ _ _ same
    obtain ⟨payloads, same⟩ := lengthPrefixed_code _ _ _ _ same
    obtain ⟨signatures, same⟩ := lengthPrefixed_code _ _ _ _ same
    obtain ⟨levels, same⟩ := lengthPrefixedText_code _ _ _ _ same
    obtain ⟨timestamps, same⟩ := lengthPrefixedText_code _ _ _ _ same
    obtain ⟨sequences, same⟩ := i64BeBytes_code _ _ _ _ same
    have causes := optionalField_code.injective same
    simp only [SignedEvent.committed, ids, agents, types, payloads, signatures, levels, timestamps,
      sequences, causes]
  · intro same
    simp only [SignedEvent.committed, Prod.mk.injEq] at same
    simp only [canonicalChainBytes, same]

/-- The columns that the canonical bytes are meant to tell apart. -/
def SignedEvent.columns (event : SignedEvent) :
    Text × Text × Text × Blob × Option Blob × Text × Text × Int64 × Option Blob :=
  (event.id, event.agentId, event.eventType, event.payloadHash, event.signature, event.attestLevel,
    event.timestamp, event.sequence, event.causeHash)

/-- One event has no signature where the other has an empty one, and the other columns agree. -/
def BlankSignatures (first second : SignedEvent) : Prop :=
  second.columns = { first with signature := second.signature : SignedEvent }.columns ∧
    (first.signature = none ∧ second.signature = some Blob.empty ∨
      first.signature = some Blob.empty ∧ second.signature = none)

/-- Two events are written alike exactly when they differ in blank signatures only. -/
theorem blankSignatures_iff {first second : SignedEvent} (differ : first.columns ≠ second.columns) :
    BlankSignatures first second ↔ first.committed = second.committed := by
  constructor
  · rintro ⟨others, blank⟩
    simp only [SignedEvent.columns, Prod.mk.injEq] at others
    obtain ⟨ids, agents, types, payloads, _, levels, timestamps, sequences, causes⟩ := others
    have signatures : first.signature.getD Blob.empty = second.signature.getD Blob.empty := by
      rcases blank with ⟨absent, empty⟩ | ⟨empty, absent⟩ <;> rw [absent, empty] <;> rfl
    simp only [SignedEvent.committed, ids, agents, types, payloads, signatures, levels, timestamps,
      sequences, causes]
  · intro same
    simp only [SignedEvent.committed, Prod.mk.injEq] at same
    obtain ⟨ids, agents, types, payloads, signatures, levels, timestamps, sequences, causes⟩ := same
    have others : second.columns = { first with signature := second.signature : SignedEvent }.columns := by
      simp only [SignedEvent.columns, ids, agents, types, payloads, levels, timestamps, sequences, causes]
    refine ⟨others, ?_⟩
    have unequal : first.signature ≠ second.signature := fun same => differ (by
      rw [others, ← same])
    cases before : first.signature with
    | none =>
        cases after : second.signature with
        | none => exact absurd (before.trans after.symm) unequal
        | some signature =>
            rw [before, after, Option.getD_none, Option.getD_some] at signatures
            exact .inl ⟨rfl, congrArg some signatures.symm⟩
    | some signature =>
        cases after : second.signature with
        | none =>
            rw [before, after, Option.getD_none, Option.getD_some] at signatures
            exact .inr ⟨congrArg some signatures, rfl⟩
        | some other =>
            rw [before, after, Option.getD_some, Option.getD_some] at signatures
            exact absurd (by rw [before, after, signatures]) unequal

/-- Two different events have different canonical bytes unless only blank signatures tell them apart. -/
theorem canonicalChainBytes_separates_iff {first second : SignedEvent}
    (differ : first.columns ≠ second.columns) :
    canonicalChainBytes first ≠ canonicalChainBytes second ↔ ¬ BlankSignatures first second := by
  rw [ne_eq, canonicalChainBytes_inj, blankSignatures_iff differ]

end Canonical

section SigningInputs

variable (sha256 : Bytes → Digest)

def fieldSep : UInt8 := 0x1F

/-- A bound cause is folded into the digest, and a payload without a cause is signed verbatim. -/
def signingInputBytes (payloadHash : Blob) : Option Blob → Bytes
  | some cause => (sha256 (payloadHash.bytes ++ fieldSep :: cause.bytes)).1
  | none => payloadHash.bytes

def daemonRowSigDomain : Bytes := "ai-memory/signed-events/row-v1\x00".toUTF8.data.toList

/-- The daemon key signs the digest of these bytes. -/
def daemonRowPreimage (event : SignedEvent) : Bytes :=
  daemonRowSigDomain ++ (lengthPrefixedText event.id ++ (lengthPrefixedText event.agentId ++
    (lengthPrefixedText event.eventType ++ (lengthPrefixedText event.attestLevel ++
      (lengthPrefixedText event.timestamp ++ (i64BeBytes event.sequence ++
        (lengthPrefixed event.payloadHash ++ optionalField event.causeHash)))))))

def daemonRowSigningInput (event : SignedEvent) : Bytes := (sha256 (daemonRowPreimage event)).1

def domainRecorder : Bytes := "ai-memory:gov-recorder:v1\x1f".toUTF8.data.toList

def recorderSigningPreimage (payloadHash : Blob) (causeHash : Option Blob) : Bytes :=
  domainRecorder ++ signingInputBytes sha256 payloadHash causeHash

end SigningInputs

/-- The baseline event is unsigned and has no cause. -/
def SignedEvent.base (id agentId : Text) (sequence : Int64) : SignedEvent where
  id := id
  agentId := agentId
  eventType := ⟨"memory.store", by decide⟩
  payloadHash := ⟨[1], by decide⟩
  signature := none
  attestLevel := ⟨AttestLevel.unsigned.asStr, by decide⟩
  timestamp := ⟨"2026-06-16T10:00:00+00:00", by decide⟩
  prevHash := Blob.empty
  sequence := sequence
  causeHash := none

def alice : Text := ⟨"ai:alice", by decide⟩

def firstId : Text := ⟨"e1", by decide⟩

/-- Two events with different sequences have different canonical bytes. -/
theorem sequences_separated :
    canonicalChainBytes (SignedEvent.base firstId alice 1) ≠
      canonicalChainBytes (SignedEvent.base firstId alice 2) :=
  (canonicalChainBytes_separates_iff (by simp [SignedEvent.columns, SignedEvent.base])).mpr fun blank => by
    simp [BlankSignatures, SignedEvent.columns, SignedEvent.base] at blank

/-- An absent signature and an empty one give the same canonical bytes. -/
theorem blankSignature_collides :
    (SignedEvent.base firstId alice 1).columns ≠
        { SignedEvent.base firstId alice 1 with signature := some Blob.empty : SignedEvent }.columns ∧
      canonicalChainBytes (SignedEvent.base firstId alice 1) =
        canonicalChainBytes { SignedEvent.base firstId alice 1 with signature := some Blob.empty } :=
  ⟨by simp [SignedEvent.columns, SignedEvent.base], rfl⟩

/-- The daemon signature binds these columns. -/
def SignedEvent.identity (event : SignedEvent) :
    Text × Text × Text × Text × Text × Int64 × Blob × Option Blob :=
  (event.id, event.agentId, event.eventType, event.attestLevel, event.timestamp, event.sequence,
    event.payloadHash, event.causeHash)

/-- The signed bytes determine the bound columns. -/
theorem daemonRowPreimage_inj {first second : SignedEvent} :
    daemonRowPreimage first = daemonRowPreimage second ↔ first.identity = second.identity := by
  constructor
  · intro same
    unfold daemonRowPreimage at same
    have same := List.append_cancel_left same
    obtain ⟨ids, same⟩ := lengthPrefixedText_code _ _ _ _ same
    obtain ⟨agents, same⟩ := lengthPrefixedText_code _ _ _ _ same
    obtain ⟨types, same⟩ := lengthPrefixedText_code _ _ _ _ same
    obtain ⟨levels, same⟩ := lengthPrefixedText_code _ _ _ _ same
    obtain ⟨timestamps, same⟩ := lengthPrefixedText_code _ _ _ _ same
    obtain ⟨sequences, same⟩ := i64BeBytes_code _ _ _ _ same
    obtain ⟨payloads, same⟩ := lengthPrefixed_code _ _ _ _ same
    have causes := optionalField_code.injective same
    simp only [SignedEvent.identity, ids, agents, types, levels, timestamps, sequences, payloads,
      causes]
  · intro same
    simp only [SignedEvent.identity, Prod.mk.injEq] at same
    simp only [daemonRowPreimage, same]

structure RowSignatureVerdict where
  signatureFailure : Bool
  roleSeparationFailure : Bool
  deriving DecidableEq, Repr

def RowSignatureVerdict.clean : RowSignatureVerdict := ⟨false, false⟩

/-- The verdict fails the row when it fails either of its two roles. -/
def RowSignatureVerdict.Fails (verdict : RowSignatureVerdict) : Prop :=
  verdict.signatureFailure = true ∨ verdict.roleSeparationFailure = true

instance (verdict : RowSignatureVerdict) : Decidable verdict.Fails :=
  inferInstanceAs (Decidable (_ ∨ _))

def governanceCheckEventType : String := "governance.check"

variable (sha256 : Bytes → Digest)

/-- A recorder row needs a signature over the tagged pre-image. -/
def recorderRowVerifies (event : SignedEvent) (recorder : VerifyingKey) : Bool :=
  match event.signature with
  | some signature =>
      if signature.bytes ≠ [] then
        match tryFromSlice signature.bytes with
        | some signature =>
            recorder.verifyStrict
              (recorderSigningPreimage sha256 event.payloadHash event.causeHash) signature
        | none => false
      else false
  | none => false

/-- The daemon key accepts the identity digest or the payload alone. -/
def daemonRowFails (event : SignedEvent) (daemon : VerifyingKey) : Bool :=
  let missing := event.attestLevel.text != AttestLevel.unsigned.asStr
  match event.signature with
  | some signature =>
      if signature.bytes ≠ [] then
        match tryFromSlice signature.bytes with
        | some signature =>
            let idInput := daemonRowSigningInput sha256 event
            let payInput := signingInputBytes sha256 event.payloadHash event.causeHash
            !(daemon.verifyStrict idInput signature || daemon.verifyStrict payInput signature)
        | none => true
      else missing
  | none => missing

def classifyRowSignature (event : SignedEvent) (daemonVerifier recorderVerifier : Option VerifyingKey) :
    RowSignatureVerdict :=
  if event.attestLevel.text = AttestLevel.lineageSigned.asStr then .clean
  else if event.attestLevel.text = AttestLevel.recorderSigned.asStr then
    match recorderVerifier with
    | none => .clean
    | some recorder => ⟨false, !recorderRowVerifies sha256 event recorder⟩
  else if recorderVerifier.isSome ∧ event.attestLevel.text = AttestLevel.daemonSigned.asStr ∧
      event.eventType.text = governanceCheckEventType then ⟨false, true⟩
  else
    match daemonVerifier with
    | none => .clean
    | some daemon => ⟨daemonRowFails sha256 event daemon, false⟩

/-- The verifier leaves a row to another role when no recorder key is enrolled. -/
def SignedEvent.Delegated (event : SignedEvent) : Prop :=
  event.attestLevel.text = AttestLevel.lineageSigned.asStr ∨
    event.attestLevel.text = AttestLevel.recorderSigned.asStr

instance (event : SignedEvent) : Decidable event.Delegated := inferInstanceAs (Decidable (_ ∨ _))

/-- Without a recorder key, exactly the rows that stay with the daemon can fail. -/
theorem classifyRowSignature_fails (event : SignedEvent) (daemon : VerifyingKey) :
    (classifyRowSignature sha256 event (some daemon) none).Fails ↔
      ¬ event.Delegated ∧ daemonRowFails sha256 event daemon = true := by
  unfold classifyRowSignature SignedEvent.Delegated RowSignatureVerdict.Fails
  by_cases lineage : event.attestLevel.text = AttestLevel.lineageSigned.asStr
  · simp [lineage, RowSignatureVerdict.clean]
  · by_cases recorder : event.attestLevel.text = AttestLevel.recorderSigned.asStr
    · simp [recorder, RowSignatureVerdict.clean]
    · simp [lineage, recorder]

/-- A row with 64 signature bytes fails the daemon when both of its inputs do. -/
theorem daemonRowFails_of_signature {event : SignedEvent} {signature : Blob}
    (signed : event.signature = some signature) (exact : signature.bytes.length = 64)
    (daemon : VerifyingKey) :
    daemonRowFails sha256 event daemon = true ↔
      daemon.verifyStrict (daemonRowSigningInput sha256 event) ⟨signature.bytes, exact⟩ = false ∧
        daemon.verifyStrict (signingInputBytes sha256 event.payloadHash event.causeHash)
          ⟨signature.bytes, exact⟩ = false := by
  have present : signature.bytes ≠ [] := by
    intro empty
    simp [empty] at exact
  simp [daemonRowFails, signed, present, tryFromSlice, exact]

end AiMemory.SignedEvents
