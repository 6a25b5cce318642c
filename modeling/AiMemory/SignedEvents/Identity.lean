import AiMemory.SignedEvents.Reachable

/-
This file proves which rows a stored daemon signature vouches for.
-/

namespace AiMemory.SignedEvents
open AiMemory.Machine

def signatureBlob (signature : SignatureBytes) : Blob :=
  ⟨signature.1, by rw [signature.2]; decide⟩

/-- The installed daemon key signs every payload. -/
def installedKey (sign : Bytes → SignatureBytes) (payload : Bytes) : Option Blob :=
  some (signatureBlob (sign payload))

section Definitions

variable (sha256 : Bytes → Digest) (stored tampered : SignedEvent)

/-- The payload columns of the row spell out the message that the stored signature is over. -/
def RereadsSigned : Prop :=
  match tampered.causeHash with
  | none => tampered.payloadHash.bytes = daemonRowSigningInput sha256 stored
  | some cause => tampered.payloadHash.bytes ++ fieldSep :: cause.bytes = daemonRowPreimage stored

instance : (tampered : SignedEvent) → Decidable (RereadsSigned sha256 stored tampered)
  | ⟨⟨_, _, _, _, _, _, _, none⟩, _, _⟩ => inferInstanceAs (Decidable (_ = _))
  | ⟨⟨_, _, _, _, _, _, _, some _⟩, _, _⟩ => inferInstanceAs (Decidable (_ = _))

/-- The row leaves the daemon's role, or its payload stands in for the signed message. -/
def EvadesDaemon : Prop :=
  tampered.Delegated ∨
    if stored.signature.isSome then RereadsSigned sha256 stored tampered
    else tampered.attestLevel.text = AttestLevel.unsigned.asStr

instance : Decidable (EvadesDaemon sha256 stored tampered) := inferInstanceAs (Decidable (_ ∨ _))

/-- The verifier hashes these inputs for the two rows. -/
def rowInputs : List Bytes :=
  [daemonRowPreimage stored, daemonRowPreimage tampered] ++
    (tampered.causeHash.map fun cause => tampered.payloadHash.bytes ++ fieldSep :: cause.bytes).toList

end Definitions

variable {sha256 : Bytes → Digest}

/-- The payload input equals the signed message exactly when the payload columns spell it out. -/
theorem signingInputBytes_eq_iff {stored tampered : SignedEvent}
    (collisionFree : CollisionFree sha256 (rowInputs stored tampered)) :
    signingInputBytes sha256 tampered.payloadHash tampered.causeHash =
        daemonRowSigningInput sha256 stored ↔ RereadsSigned sha256 stored tampered := by
  unfold RereadsSigned
  cases bound : tampered.causeHash with
  | none => rfl
  | some cause =>
      simp only [signingInputBytes, daemonRowSigningInput]
      constructor
      · intro same
        exact collisionFree _ (by simp [rowInputs, bound]) _ (by simp [rowInputs]) (Subtype.ext same)
      · intro same
        rw [same]

/-- The identity digest separates two rows that differ in a bound column. -/
theorem daemonRowSigningInput_ne {stored tampered : SignedEvent}
    (collisionFree : CollisionFree sha256 (rowInputs stored tampered))
    (differs : tampered.identity ≠ stored.identity) :
    daemonRowSigningInput sha256 tampered ≠ daemonRowSigningInput sha256 stored := by
  intro same
  refine differs (daemonRowPreimage_inj.mp ?_)
  exact collisionFree _ (by simp [rowInputs]) _ (by simp [rowInputs]) (Subtype.ext same)

/-- An append leaves the identity of its event to the signed message. -/
theorem appendedRow_identity (call : AppendCall) (maxSeq : Int64) (prevHash : Digest) :
    (appendedRow sha256 call maxSeq prevHash).toEvent.identity =
      ({ call.event with sequence := maxSeq + 1 } : SignedEvent).identity := rfl

/-- A stored daemon row carries the signature over its own identity, or no signature at all. -/
theorem appendedRow_signature {sign : Bytes → SignatureBytes} {event : SignedEvent}
    (daemonSigned : event.attestLevel.text = AttestLevel.daemonSigned.asStr) (maxSeq : Int64)
    (prevHash : Digest) :
    let row := (appendedRow sha256 ⟨event, installedKey sign⟩ maxSeq prevHash).toEvent
    row.signature = none ∨
      row.signature = some (signatureBlob (sign (daemonRowSigningInput sha256 row))) := by
  intro row
  have message : daemonRowSigningInput sha256 row =
      daemonRowSigningInput sha256 { event with sequence := maxSeq + 1 } :=
    congrArg (fun bytes => (sha256 bytes).1) (daemonRowPreimage_inj.mpr (appendedRow_identity _ _ _))
  have signature : row.signature =
      appendedSignature sha256 ⟨event, installedKey sign⟩ (maxSeq + 1) := rfl
  rw [signature, message, appendedSignature]
  cases given : event.signature with
  | none => exact .inl (by simp)
  | some _ => exact .inr (by simp [daemonSigned, installedKey])

/-- The daemon rejects a row under its stored signature unless the payload rereads the message. -/
theorem daemonRowFails_iff {daemon : VerifyingKey} {stored tampered : SignedEvent}
    {signature : SignatureBytes} (signed : tampered.signature = some (signatureBlob signature))
    (accepts : ∀ message, daemon.verifyStrict message signature = true ↔
      message = daemonRowSigningInput sha256 stored)
    (differs : tampered.identity ≠ stored.identity)
    (collisionFree : CollisionFree sha256 (rowInputs stored tampered)) :
    daemonRowFails sha256 tampered daemon = true ↔ ¬ RereadsSigned sha256 stored tampered := by
  rw [daemonRowFails_of_signature sha256 signed signature.2, ← signingInputBytes_eq_iff collisionFree]
  have identityRejected :
      daemon.verifyStrict (daemonRowSigningInput sha256 tampered) signature = false := by
    rw [Bool.eq_false_iff, ne_eq, accepts]
    exact daemonRowSigningInput_ne collisionFree differs
  have payload :
      daemon.verifyStrict (signingInputBytes sha256 tampered.payloadHash tampered.causeHash) signature =
        false ↔ signingInputBytes sha256 tampered.payloadHash tampered.causeHash ≠
        daemonRowSigningInput sha256 stored := by
    rw [Bool.eq_false_iff, ne_eq, accepts]
  exact ⟨fun rejected => payload.mp rejected.2, fun distinct => ⟨identityRejected, payload.mpr distinct⟩⟩

/-- A daemon row without a signature fails exactly when it does not claim to be unsigned. -/
theorem daemonRowFails_unsigned_iff {event : SignedEvent} (absent : event.signature = none)
    (daemon : VerifyingKey) :
    daemonRowFails sha256 event daemon = true ↔
      event.attestLevel.text ≠ AttestLevel.unsigned.asStr := by
  simp [daemonRowFails, absent]

/-- A row with a stored daemon signature but another identity fails exactly when it does not evade
the daemon. -/
theorem classifyRowSignature_fails_iff (sha256 : Bytes → Digest) (daemon : VerifyingKey)
    (sign : Bytes → SignatureBytes) (rows : List EventRow) (event : SignedEvent) (row : EventRow)
    (appended : appendSignedEventNoTx sha256 rows ⟨event, installedKey sign⟩ = .ok (rows ++ [row]))
    (daemonSigned : event.attestLevel.text = AttestLevel.daemonSigned.asStr)
    (unforgeable : ∀ message,
      daemon.verifyStrict message (sign (daemonRowSigningInput sha256 row.toEvent)) = true ↔
        message = daemonRowSigningInput sha256 row.toEvent)
    (tampered : SignedEvent) (sameSignature : tampered.signature = row.signature)
    (differs : tampered.identity ≠ row.toEvent.identity)
    (collisionFree : CollisionFree sha256 (rowInputs row.toEvent tampered)) :
    (classifyRowSignature sha256 tampered (some daemon) none).Fails ↔
      ¬ EvadesDaemon sha256 row.toEvent tampered := by
  obtain ⟨maxSeq, prevHash, rfl⟩ : ∃ maxSeq prevHash,
      row = appendedRow sha256 ⟨event, installedKey sign⟩ maxSeq prevHash := by
    unfold appendSignedEventNoTx at appended
    split at appended
    · cases appended
    · rename_i maxSeq prevHash _
      obtain ⟨same, _⟩ := insertRow_ok appended
      exact ⟨maxSeq, prevHash, List.singleton_inj.mp (List.append_cancel_left same)⟩
  rw [classifyRowSignature_fails, EvadesDaemon, not_or]
  apply and_congr_right
  intro _
  rcases appendedRow_signature daemonSigned maxSeq prevHash with absent | signed
  · have missing := sameSignature.trans absent
    rw [daemonRowFails_unsigned_iff missing, absent]
    rfl
  · have present := sameSignature.trans signed
    rw [daemonRowFails_iff present unforgeable differs collisionFree, signed]
    rfl

section Samples

def daemonEvent (agentId : Text) (payloadHash signature : Blob) : SignedEvent :=
  { SignedEvent.base firstId agentId 1 with
    payloadHash := payloadHash
    signature := some signature
    attestLevel := ⟨AttestLevel.daemonSigned.asStr, by decide⟩ }

def samplePayload : Blob := (SignedEvent.base alice alice 1).payloadHash

/-- The caller's own signature is replaced at the append. -/
def aliceEvent : SignedEvent := daemonEvent alice samplePayload Blob.empty

/-- The daemon signed this digest of the identity of Alice's row. -/
def aliceDigest : Blob :=
  Blob.ofDigest (digestOf 0x52972cd649b9e5647189d580b0a8f85f2a210f1616a9ef5a46cb92c7d7b20ad6)

def aliceSignature : SignatureBytes :=
  ⟨beBytes 32 0xb39f4527d315a8c8f19b1c47a14651a0a557c26548df2f9f6e5dfefd1bbd070c ++
    beBytes 32 0x0d5f6e2181c7edb04c83e428b1aa19736a7e5d38c32870dd50a8738a5ba1e50a, by decide⟩

def mallory : Text := ⟨"ai:mallory", by decide⟩

def malloryRow (payloadHash : Blob) : SignedEvent :=
  daemonEvent mallory payloadHash (signatureBlob aliceSignature)

def identitySha256 : Bytes → Digest :=
  digestOfTable
    [(daemonRowPreimage aliceEvent,
        0x52972cd649b9e5647189d580b0a8f85f2a210f1616a9ef5a46cb92c7d7b20ad6),
      (daemonRowPreimage (malloryRow samplePayload),
        0xe76f40ccd52f4aa073705ab5508075603a0f82da8142d8e3c44ae7d82477dfa4),
      (daemonRowPreimage (malloryRow aliceDigest),
        0xde24b2ed40f425630b70585e9d4c09ac834480de48dc129f868ac0b8eee28abb)]

def sampleSign (_ : Bytes) : SignatureBytes := aliceSignature

def sampleKey : VerifyingKey where
  toBytes := digestOf 0x79b5562e8fe654f94078b112e8a98ba7901f853ae695bed7e0e3910bad049664
  verifyStrict message signature := message = aliceDigest.bytes ∧ signature = aliceSignature

def aliceRow : EventRow := appendedRow identitySha256 ⟨aliceEvent, installedKey sampleSign⟩ 0 zeroHash

theorem sampleKey_iff (message : Bytes) :
    sampleKey.verifyStrict message
        (sampleSign (daemonRowSigningInput identitySha256 aliceRow.toEvent)) = true ↔
      message = daemonRowSigningInput identitySha256 aliceRow.toEvent := by
  have digest : daemonRowSigningInput identitySha256 aliceRow.toEvent = aliceDigest.bytes := by
    decide +kernel
  simp [digest, sampleKey, sampleSign]

theorem malloryRow_identity_ne (payloadHash : Blob) :
    (malloryRow payloadHash).identity ≠ aliceRow.toEvent.identity := by
  intro same
  have agents : mallory = alice := congrArg (fun identity => identity.2.1) same
  exact absurd agents (by decide)

/-- A row under another agent fails with the stored signature. -/
theorem renamedAgent_fails :
    (classifyRowSignature identitySha256 (malloryRow samplePayload) (some sampleKey) none).Fails :=
  (classifyRowSignature_fails_iff identitySha256 sampleKey sampleSign [] aliceEvent aliceRow rfl rfl
    sampleKey_iff (malloryRow samplePayload) (by decide +kernel)
    (malloryRow_identity_ne _) (by decide +kernel)).mpr (by decide +kernel)

/-- The signed digest in the payload column lets another agent take over the stored signature. -/
theorem digestPayload_passes :
    appendSignedEventNoTx identitySha256 [] ⟨aliceEvent, installedKey sampleSign⟩ = .ok [aliceRow] ∧
      aliceEvent.attestLevel.text = AttestLevel.daemonSigned.asStr ∧
      (∀ message, sampleKey.verifyStrict message
          (sampleSign (daemonRowSigningInput identitySha256 aliceRow.toEvent)) = true ↔
        message = daemonRowSigningInput identitySha256 aliceRow.toEvent) ∧
      CollisionFree identitySha256 (rowInputs aliceRow.toEvent (malloryRow aliceDigest)) ∧
      (malloryRow aliceDigest).signature = aliceRow.signature ∧
      (malloryRow aliceDigest).identity ≠ aliceRow.toEvent.identity ∧
      ¬ (classifyRowSignature identitySha256 (malloryRow aliceDigest) (some sampleKey) none).Fails :=
  ⟨rfl, rfl, sampleKey_iff, by decide +kernel, by decide +kernel,
    malloryRow_identity_ne _, by decide +kernel⟩

end Samples
end AiMemory.SignedEvents
