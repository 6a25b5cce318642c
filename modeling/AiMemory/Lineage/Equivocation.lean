import AiMemory.CborArray.Signable
import AiMemory.SignedEvents.Tamper

/-
This file proves that an equivocation proof never accuses a subject that attests the heads of one chain and that
it exposes every subject that signed two heads for one position.
-/

namespace AiMemory.Lineage
open AiMemory.Machine AiMemory.Library AiMemory.CborArray AiMemory.SignedEvents

def peerHeadAttestationV1Domain : String := "ai-memory/peer-head-attestation-v1"
def equivocationProofV1Domain : String := "ai-memory/equivocation-proof/v1"

def equivocationProofElements : Nat := 4
def headAttestationEntryElements : Nat := 6

/-- One claim of a subject about its own head. -/
structure SignableHeadAttestation where
  subjectAgentId : Text
  epoch : UInt64
  headSequence : UInt64
  headHash : Blob
  signedAt : Text
  deriving DecidableEq

def SignableHeadAttestation.items (att : SignableHeadAttestation) : List CborItem :=
  [.text peerHeadAttestationV1Domain, .text att.subjectAgentId.text, .uint att.epoch,
    .uint att.headSequence, .bytes att.headHash.bytes, .text att.signedAt.text]

def canonicalCborHeadAttestation (att : SignableHeadAttestation) : Bytes := encode (.array att.items)

/-- The entry of a proof is an attestation with the signature over it. -/
structure HeadAttestationEntry where
  subjectAgentId : Text
  epoch : UInt64
  headSequence : UInt64
  headHash : Blob
  signedAt : Text
  signature : Blob
  deriving DecidableEq

def HeadAttestationEntry.asSignable (entry : HeadAttestationEntry) : SignableHeadAttestation :=
  ⟨entry.subjectAgentId, entry.epoch, entry.headSequence, entry.headHash, entry.signedAt⟩

def HeadAttestationEntry.fromSigned (att : SignableHeadAttestation) (signature : Blob) : HeadAttestationEntry :=
  ⟨att.subjectAgentId, att.epoch, att.headSequence, att.headHash, att.signedAt, signature⟩

structure EquivocationProof where
  subjectPubkey : Digest
  attestationA : HeadAttestationEntry
  attestationB : HeadAttestationEntry
  deriving DecidableEq

inductive EpochView where
  | confirmed | unresolvable
  deriving DecidableEq

inductive EquivocationVerdict where
  | equivocation | indeterminate
  deriving DecidableEq

inductive EquivocationError where
  | malformed (detail : String)
  | badPubkey
  | malformedSignature
  | signatureInvalid
  | subjectMismatch
  | epochMismatch
  | sequenceMismatch
  | sameHash
  deriving DecidableEq

section Verify

variable (verifyingKeyFromBytes : Digest → Option VerifyingKey)

def verifyHeadAttestation (subjectPubkey : VerifyingKey) (att : SignableHeadAttestation)
    (signature : Blob) : Except EquivocationError Unit :=
  match tryFromSlice signature.bytes with
  | none => .error .malformedSignature
  | some signature =>
      if subjectPubkey.verifyStrict (canonicalCborHeadAttestation att) signature then .ok ()
      else .error .signatureInvalid

/-- Both signatures are checked before the pair is compared, and the lineage view is asked last. -/
def EquivocationProof.verifyWithLineage (proof : EquivocationProof) (resolver : Text → UInt64 → EpochView) :
    Except EquivocationError EquivocationVerdict :=
  match verifyingKeyFromBytes proof.subjectPubkey with
  | none => .error .badPubkey
  | some subject => do
      verifyHeadAttestation subject proof.attestationA.asSignable proof.attestationA.signature
      verifyHeadAttestation subject proof.attestationB.asSignable proof.attestationB.signature
      if proof.attestationA.subjectAgentId ≠ proof.attestationB.subjectAgentId then .error .subjectMismatch
      else if proof.attestationA.epoch ≠ proof.attestationB.epoch then .error .epochMismatch
      else if proof.attestationA.headSequence ≠ proof.attestationB.headSequence then .error .sequenceMismatch
      else if proof.attestationA.headHash = proof.attestationB.headHash then .error .sameHash
      else
        match resolver proof.attestationA.subjectAgentId proof.attestationA.epoch with
        | .confirmed => .ok .equivocation
        | .unresolvable => .ok .indeterminate

end Verify

section Transport

/-- These are the values of the CBOR reader that the envelope reads, and it refuses all the others alike. -/
inductive EnvelopeValue where
  | integer (value : Int)
  | text (value : Text)
  | bytes (value : Blob)
  | array (items : List EnvelopeValue)
  | other

def EquivocationProof.new (subjectPubkey : Digest) (attA : SignableHeadAttestation) (sigA : Blob)
    (attB : SignableHeadAttestation) (sigB : Blob) : EquivocationProof :=
  ⟨subjectPubkey, .fromSigned attA sigA, .fromSigned attB sigB⟩

def entryItem (entry : HeadAttestationEntry) : CborItem :=
  .array [.text entry.subjectAgentId.text, .uint entry.epoch, .uint entry.headSequence,
    .bytes entry.headHash.bytes, .text entry.signedAt.text, .bytes entry.signature.bytes]

def EquivocationProof.toBytes (proof : EquivocationProof) : Bytes :=
  encode (.array [.text equivocationProofV1Domain, .bytes proof.subjectPubkey.1,
    entryItem proof.attestationA, entryItem proof.attestationB])

namespace EnvelopeValue

def asArray (value : EnvelopeValue) (count : Nat) (what : String) :
    Except EquivocationError (List EnvelopeValue) :=
  match value with
  | .array items =>
      if items.length = count then .ok items
      else .error (.malformed s!"{what}: expected {count} elements, got {items.length}")
  | _ => .error (.malformed s!"{what}: not an array")

def expectDomain (value : EnvelopeValue) (expected : String) : Except EquivocationError Unit :=
  let refused := Except.error (.malformed s!"element [0] is not the `{expected}` domain tag")
  match value with
  | .text tag => if tag.text = expected then .ok () else refused
  | _ => refused

def asText (value : EnvelopeValue) (what : String) : Except EquivocationError Text :=
  match value with
  | .text found => .ok found
  | _ => .error (.malformed s!"{what}: not text")

def asBytes (value : EnvelopeValue) (what : String) : Except EquivocationError Blob :=
  match value with
  | .bytes found => .ok found
  | _ => .error (.malformed s!"{what}: not bytes")

def asUint (value : EnvelopeValue) (what : String) : Except EquivocationError UInt64 :=
  match value with
  | .integer number =>
      if 0 ≤ number ∧ number < 2 ^ 64 then .ok (UInt64.ofNat number.toNat)
      else .error (.malformed s!"{what}: not a u64")
  | _ => .error (.malformed s!"{what}: not an integer")

end EnvelopeValue

/-- The item that stands at a position of an array. -/
def elementAt (items : List EnvelopeValue) (position : Nat) : EnvelopeValue := items.getD position .other

def decodeEntry (value : EnvelopeValue) (what : String) : Except EquivocationError HeadAttestationEntry := do
  let items ← value.asArray headAttestationEntryElements what
  let subjectAgentId ← (elementAt items 0).asText "entry subject id"
  let epoch ← (elementAt items 1).asUint "entry epoch"
  let headSequence ← (elementAt items 2).asUint "entry head seq"
  let headHash ← (elementAt items 3).asBytes "entry head hash"
  let signedAt ← (elementAt items 4).asText "entry signed at"
  let signature ← (elementAt items 5).asBytes "entry signature"
  return ⟨subjectAgentId, epoch, headSequence, headHash, signedAt, signature⟩

/-- The envelope is parsed without any trust in its fields. -/
def EquivocationProof.fromBytes (fromReader : Bytes → Except String EnvelopeValue) (bytes : Bytes) :
    Except EquivocationError EquivocationProof := do
  let value ← (fromReader bytes).mapError fun error => .malformed s!"not decodable CBOR: {error}"
  let top ← value.asArray equivocationProofElements "proof envelope"
  (elementAt top 0).expectDomain equivocationProofV1Domain
  let pubkeyBytes ← (elementAt top 1).asBytes "subject_pubkey"
  if width : pubkeyBytes.bytes.length = 32 then do
    let attestationA ← decodeEntry (elementAt top 2) "attestation_a"
    let attestationB ← decodeEntry (elementAt top 3) "attestation_b"
    return ⟨⟨pubkeyBytes.bytes, width⟩, attestationA, attestationB⟩
  else .error .badPubkey

end Transport

section Heads

variable (sha256 : Bytes → Digest)

/-- A subject keeps its event chain and the attestations that it signed. -/
structure Subject where
  rows : List EventRow
  signed : List SignableHeadAttestation

/-- A subject appends an event or signs the head that it reads from its chain. -/
inductive SubjectStep where
  | append (call : AppendCall)
  | attest (epoch : UInt64) (signedAt : Text)

/-- An attestation names the sequence and the hash of the head. -/
def headAttestation (agentId : Text) (epoch : UInt64) (signedAt : Text) (head : Int64 × Digest) :
    SignableHeadAttestation :=
  ⟨agentId, epoch, head.1.toUInt64, Blob.ofDigest head.2, signedAt⟩

def subjectStep (agentId : Text) (subject : Subject) : SubjectStep → Subject
  | .append call => { subject with rows := appendStep sha256 subject.rows call }
  | .attest epoch signedAt =>
      match readChainHead sha256 subject.rows with
      | .ok head => { subject with signed := subject.signed ++ [headAttestation agentId epoch signedAt head] }
      | .error _ => subject

/-- The attestation names the head of an earlier state of the chain. -/
def AttestsHead (rows : List EventRow) (att : SignableHeadAttestation) : Prop :=
  ∃ count ≤ rows.length, (att.headSequence.toInt64 + 1, att.headHash.bytes) =
    tip (SignedEvent.nextLink sha256) firstLink ((rows.take count).map EventRow.toEvent)

/-- The chain is whole and every attestation names one of its heads. -/
structure HonestSubject (subject : Subject) : Prop where
  appended : Appended sha256 subject.rows
  heads : ∀ att ∈ subject.signed, AttestsHead sha256 subject.rows att

variable {sha256}

/-- A longer chain keeps its earlier heads. -/
theorem AttestsHead.append {rows : List EventRow} {att : SignableHeadAttestation}
    (attests : AttestsHead sha256 rows att) (later : List EventRow) : AttestsHead sha256 (rows ++ later) att := by
  obtain ⟨count, bound, head⟩ := attests
  refine ⟨count, ?_, ?_⟩
  · rw [List.length_append]
    omega
  · rw [List.take_append_of_le_length bound]
    exact head

/-- One sequence of a chain has one head. -/
theorem AttestsHead.unique {rows : List EventRow} {first second : SignableHeadAttestation}
    (appended : Appended sha256 rows) (attests : AttestsHead sha256 rows first)
    (attestsToo : AttestsHead sha256 rows second) (sequence : first.headSequence = second.headSequence) :
    first.headHash = second.headHash := by
  obtain ⟨count, bound, head⟩ := attests
  obtain ⟨other, otherBound, otherHead⟩ := attestsToo
  have room := appended.room
  have numbered : ∀ length ≤ rows.length,
      (tip (SignedEvent.nextLink sha256) firstLink ((rows.take length).map EventRow.toEvent)).1 =
        1 + Int64.ofNat length := by
    intro length fits
    have linked := appended.chained
    rw [← List.take_append_drop length rows, List.map_append, Chained, linked_append] at linked
    rw [tip_sequence linked.1, List.length_map, List.length_take, Nat.min_eq_left fits]
    rfl
  have counts : Int64.ofNat count = Int64.ofNat other := by
    have same : (1 : Int64) + Int64.ofNat count = 1 + Int64.ofNat other := by
      rw [← numbered count bound, ← numbered other otherBound, ← head, ← otherHead, sequence]
    exact (Int64.add_right_inj 1).mp same
  have equal : count = other := by
    rcases Nat.lt_trichotomy count other with below | same | above
    · exact absurd counts (Int64.ne_of_lt (int64_ofNat_lt below (by omega)))
    · exact same
    · exact absurd counts.symm (Int64.ne_of_lt (int64_ofNat_lt above (by omega)))
  rw [equal, ← otherHead] at head
  exact Blob.ext (congrArg Prod.snd head)

/-- An append stores at most one row and stores it at the end. -/
theorem appendStep_eq (rows : List EventRow) (call : AppendCall) :
    ∃ later, appendStep sha256 rows call = rows ++ later := by
  rw [appendStep]
  split
  · rename_i after appended
    rw [appendSignedEventNoTx] at appended
    split at appended
    · cases appended
    · exact ⟨_, (insertRow_ok appended).1⟩
  · exact ⟨[], (List.append_nil rows).symm⟩

/-- A step keeps the subject honest. -/
theorem HonestSubject.step {agentId : Text} {subject : Subject} (honest : HonestSubject sha256 subject)
    (step : SubjectStep) : HonestSubject sha256 (subjectStep sha256 agentId subject step) := by
  cases step with
  | append call =>
      refine ⟨honest.appended.step call, fun att signed => ?_⟩
      obtain ⟨later, stored⟩ := @appendStep_eq sha256 subject.rows call
      rw [subjectStep, stored]
      exact (honest.heads att signed).append later
  | attest epoch signedAt =>
      obtain ⟨maxSeq, prevHash, read, head⟩ := honest.appended.readChainHead_eq
      rw [subjectStep, read]
      refine ⟨honest.appended, fun att signed => ?_⟩
      rcases List.mem_append.mp signed with earlier | latest
      · exact honest.heads att earlier
      · obtain rfl := List.mem_singleton.mp latest
        refine ⟨subject.rows.length, Nat.le_refl _, ?_⟩
        rw [List.take_length, ← head]
        rfl

end Heads

section Accusation

/-- A message of the array profile that starts with another domain tag. -/
def ForeignMessage (message : Bytes) : Prop :=
  ∃ tag items, tag ≠ peerHeadAttestationV1Domain ∧ (CborItem.array (.text tag :: items)).Fits ∧
    message = encode (.array (.text tag :: items))

/-- The items of an attestation fit the encoder. -/
theorem SignableHeadAttestation.fits (att : SignableHeadAttestation) : (CborItem.array att.items).Fits := by
  have tag : (CborItem.text peerHeadAttestationV1Domain).Fits := .text (by decide)
  apply CborItem.Fits.array (by simp [items])
  simp [items, tag, fits_text, fits_bytes, CborItem.Fits.uint]

/-- An attestation is bound by its bytes in all of its fields. -/
theorem canonicalCborHeadAttestation_injective : Function.Injective canonicalCborHeadAttestation := by
  intro first second same
  have items := items_eq first.fits second.fits same
  simp only [SignableHeadAttestation.items, List.cons.injEq, CborItem.text.injEq, CborItem.bytes.injEq,
    CborItem.uint.injEq, and_true, true_and] at items
  obtain ⟨subject, epoch, sequence, hash, signedAt⟩ := items
  cases first
  cases second
  rw [SignableHeadAttestation.mk.injEq]
  exact ⟨Text.ext_text subject, epoch, sequence, Blob.ext hash, Text.ext_text signedAt⟩

/-- No message of another domain is an attestation. -/
theorem not_foreign (att : SignableHeadAttestation) : ¬ ForeignMessage (canonicalCborHeadAttestation att) := by
  rintro ⟨tag, items, other, fits, same⟩
  have heads := items_eq att.fits fits same
  exact other (CborItem.text.inj (List.cons.inj heads).1).symm

/-- A verified attestation was signed by its key. -/
theorem verifyHeadAttestation_ok {key : VerifyingKey} {att : SignableHeadAttestation} {signature : Blob}
    (accepted : verifyHeadAttestation key att signature = .ok ()) :
    ∃ bytes, key.verifyStrict (canonicalCborHeadAttestation att) bytes = true := by
  rw [verifyHeadAttestation] at accepted
  split at accepted
  · cases accepted
  · rename_i bytes _
    split at accepted
    · exact ⟨bytes, ‹_›⟩
    · cases accepted

/-- A signature that the key accepts is verified. -/
theorem verifyHeadAttestation_signed {key : VerifyingKey} {att : SignableHeadAttestation} {bytes : SignatureBytes}
    (short : bytes.1.length < 2 ^ 63) (signed : key.verifyStrict (canonicalCborHeadAttestation att) bytes = true) :
    verifyHeadAttestation key att ⟨bytes.1, short⟩ = .ok () := by
  have whole : tryFromSlice bytes.1 = some bytes := dif_pos bytes.2
  rw [verifyHeadAttestation, whole]
  exact if_pos signed

/-- The pair is a conflict when the key signed two heads for one position of one subject. -/
structure Conflict (key : VerifyingKey) (proof : EquivocationProof) : Prop where
  signedA : verifyHeadAttestation key proof.attestationA.asSignable proof.attestationA.signature = .ok ()
  signedB : verifyHeadAttestation key proof.attestationB.asSignable proof.attestationB.signature = .ok ()
  subject : proof.attestationA.subjectAgentId = proof.attestationB.subjectAgentId
  epoch : proof.attestationA.epoch = proof.attestationB.epoch
  sequence : proof.attestationA.headSequence = proof.attestationB.headSequence
  hash : proof.attestationA.headHash ≠ proof.attestationB.headHash

/-- A lineage view that cannot confirm the epoch withholds the accusation. -/
def EpochView.verdict : EpochView → EquivocationVerdict
  | confirmed => .equivocation
  | unresolvable => .indeterminate

/-- The verifier reaches a verdict exactly on a conflict, and the lineage view alone chooses the verdict. -/
theorem verifyWithLineage_ok_iff {verifyingKeyFromBytes : Digest → Option VerifyingKey}
    {proof : EquivocationProof} {resolver : Text → UInt64 → EpochView} {verdict : EquivocationVerdict} :
    proof.verifyWithLineage verifyingKeyFromBytes resolver = .ok verdict ↔
      ∃ key, verifyingKeyFromBytes proof.subjectPubkey = some key ∧ Conflict key proof ∧
        verdict = (resolver proof.attestationA.subjectAgentId proof.attestationA.epoch).verdict := by
  rw [EquivocationProof.verifyWithLineage]
  cases decoded : verifyingKeyFromBytes proof.subjectPubkey with
  | none => simp
  | some key =>
      simp only [bind_eq_ok, Option.some.injEq, exists_eq_left']
      constructor
      · rintro ⟨_, signedA, _, signedB, compared⟩
        split at compared
        · cases compared
        split at compared
        · cases compared
        split at compared
        · cases compared
        split at compared
        · cases compared
        rename_i subject epoch sequence hash
        refine ⟨⟨signedA, signedB, not_not.mp subject, not_not.mp epoch, not_not.mp sequence, hash⟩, ?_⟩
        split at compared <;> rename_i view <;> rw [view] <;> exact (Except.ok.inj compared).symm
      · rintro ⟨conflict, rfl⟩
        refine ⟨(), conflict.signedA, (), conflict.signedB, ?_⟩
        rw [if_neg (not_not.mpr conflict.subject), if_neg (not_not.mpr conflict.epoch),
          if_neg (not_not.mpr conflict.sequence), if_neg conflict.hash]
        cases resolver proof.attestationA.subjectAgentId proof.attestationA.epoch <;> rfl

variable {sha256 : Bytes → Digest} {verifyingKeyFromBytes : Digest → Option VerifyingKey}

/-- A subject that attests only the heads of its chain is never accused, whatever else its key signs. -/
theorem honest_never_accused {agentId : Text} {steps : List SubjectStep} {subject : Subject} {key : VerifyingKey}
    (history : run (subjectStep sha256 agentId) ⟨[], []⟩ steps = subject)
    (unforged : ∀ message signature, key.verifyStrict message signature = true →
      (∃ att ∈ subject.signed, message = canonicalCborHeadAttestation att) ∨ ForeignMessage message)
    (proof : EquivocationProof) (decoded : verifyingKeyFromBytes proof.subjectPubkey = some key)
    (resolver : Text → UInt64 → EpochView) :
    ∃ error, proof.verifyWithLineage verifyingKeyFromBytes resolver = .error error := by
  cases verified : proof.verifyWithLineage verifyingKeyFromBytes resolver with
  | error error => exact ⟨error, rfl⟩
  | ok verdict =>
      have honest : HonestSubject sha256 subject := by
        rw [← history]
        exact run_invariant_always (fun _ step honest => honest.step step) steps
          ⟨⟨by simp, trivial⟩, by simp⟩
      obtain ⟨known, found, conflict, _⟩ := verifyWithLineage_ok_iff.mp verified
      obtain rfl := Option.some.inj (decoded.symm.trans found)
      have attested : ∀ att signature, verifyHeadAttestation key att signature = .ok () →
          AttestsHead sha256 subject.rows att := by
        intro att signature accepted
        obtain ⟨bytes, strict⟩ := verifyHeadAttestation_ok accepted
        rcases unforged _ _ strict with ⟨signed, present, same⟩ | foreign
        · rw [canonicalCborHeadAttestation_injective same]
          exact honest.heads signed present
        · exact absurd foreign (not_foreign att)
      exact absurd ((attested _ _ conflict.signedA).unique honest.appended
        (attested _ _ conflict.signedB) conflict.sequence) conflict.hash

section Samples

def headsSignedAt : Text := ⟨"2026-07-11T00:00:00Z", by decide⟩

/-- The subject signs its head after each of two events. -/
def attestingSteps : List SubjectStep :=
  sampleCalls.flatMap fun call => [.append call, .attest 3 headsSignedAt]

def attestingSubject : Subject := run (subjectStep sampleSha256 alice) ⟨[], []⟩ attestingSteps

/-- The key accepts only the attestations that the subject signed. -/
def attestingKey : VerifyingKey where
  toBytes := digestOf 1
  verifyStrict message _ := decide (∃ att ∈ attestingSubject.signed, message = canonicalCborHeadAttestation att)

/-- The accuser invents two heads for the second sequence. -/
def inventedProof (key : VerifyingKey) : EquivocationProof :=
  .new key.toBytes (headAttestation alice 3 headsSignedAt (2, digestOf 7)) ⟨List.replicate 64 0, by decide⟩
    (headAttestation alice 3 headsSignedAt (2, digestOf 8)) ⟨List.replicate 64 0, by decide⟩

/-- The invented pair does not accuse the subject. -/
theorem inventedProof_refused :
    ∃ error, (inventedProof attestingKey).verifyWithLineage (fun _ => some attestingKey)
      (fun _ _ => .confirmed) = .error error :=
  honest_never_accused (rfl : run (subjectStep sampleSha256 alice) ⟨[], []⟩ attestingSteps = attestingSubject)
    (fun _ _ accepted => .inl (of_decide_eq_true accepted)) (inventedProof attestingKey) rfl fun _ _ => .confirmed

end Samples
end Accusation

section Reader

/-- The reader follows this many nested arrays. -/
def readerDepth : Nat := 256

/-- The value that the reader makes of an item of the profile, within a depth of nested arrays. -/
def ReadsAs : Nat → CborItem → EnvelopeValue → Prop
  | _, .uint word, .integer number => number = word.toNat
  | _, .nint argument, .integer number => number = -1 - argument.toNat
  | _, .text text, .text value => value.text = text
  | _, .bytes bytes, .bytes value => value.bytes = bytes
  | depth + 1, .array items, .array values => items.length < 2 ^ 64 ∧ List.Forall₂ (ReadsAs depth) items values
  | _, _, _ => False

/-- The reader decodes the encoding of every item of the profile. -/
def ReadsProfile (fromReader : Bytes → Except String EnvelopeValue) : Prop :=
  ∀ item value, ReadsAs readerDepth item value → fromReader (encode item) = .ok value

/-- The head at the front of the bytes has a major type and an argument. -/
def takeHead : Bytes → Option ((UInt8 × Nat) × Bytes)
  | [] => none
  | first :: rest =>
      let info := first &&& 31
      let width := headWidth info
      some ((first >>> majorShift, headArg info (leValue (rest.take width).reverse)), rest.drop width)

def takePayload (length : Nat) (buf : Bytes) : Option (Bytes × Bytes) :=
  if length ≤ buf.length then some (buf.take length, buf.drop length) else none

def takeMany {Value : Type} (take : Bytes → Option (Value × Bytes)) :
    Nat → Bytes → Option (List Value × Bytes)
  | 0, buf => some ([], buf)
  | count + 1, buf => do
      let (first, rest) ← take buf
      let (others, rest) ← takeMany take count rest
      return (first :: others, rest)

def textValue (payload : Bytes) : Option EnvelopeValue := do
  let text ← String.fromUTF8? ⟨payload.toArray⟩
  if short : text.toUTF8.data.toList.length < 2 ^ 63 then some (.text ⟨text, short⟩) else none

def bytesValue (payload : Bytes) : Option EnvelopeValue :=
  if short : payload.length < 2 ^ 63 then some (.bytes ⟨payload, short⟩) else none

/-- The item at the front of the bytes, as the reader decodes it within a depth of nested arrays. -/
def takeItem : Nat → Bytes → Option (EnvelopeValue × Bytes)
  | depth, buf => do
      let ((major, arg), rest) ← takeHead buf
      if major = mtUint then return (.integer arg, rest)
      else if major = mtNint then return (.integer (-1 - arg), rest)
      else if major = mtBytes then
        let (payload, rest) ← takePayload arg rest
        return (← bytesValue payload, rest)
      else if major = mtText then
        let (payload, rest) ← takePayload arg rest
        return (← textValue payload, rest)
      else if major = mtArray then
        match depth with
        | 0 => none
        | depth + 1 =>
            let (values, rest) ← takeMany (takeItem depth) arg rest
            return (.array values, rest)
      else none

def profileReader (bytes : Bytes) : Except String EnvelopeValue :=
  (takeItem readerDepth bytes).elim (.error "unexpected end of file") fun (value, _) => .ok value

/-- A number is read back from its big-endian bytes. -/
theorem leValue_reverse_beBytes (width value : Nat) :
    leValue (beBytes width value).reverse = value % 256 ^ width := by
  induction width generalizing value with
  | zero => simp [beBytes, leValue, Nat.mod_one]
  | succ width ih =>
      have low : (UInt8.ofNat value).toNat = value % 256 := UInt8.toNat_ofNat'
      rw [beBytes, List.reverse_append, List.reverse_singleton, List.singleton_append, leValue, ih, low,
        Nat.pow_succ', Nat.mod_mul]

/-- The head of an item is read back. -/
theorem takeHead_encodeHead {major : UInt8} (small : major < 8) (arg : UInt64) (rest : Bytes) :
    takeHead (encodeHead major arg ++ rest) = some ((major, arg.toNat), rest) := by
  have parts := firstByte_parts major.toNat small (headInfo arg).toNat (headInfo_lt arg)
  simp only [UInt8.ofNat_toNat] at parts
  have width := length_beBytes (headWidth (headInfo arg)) arg.toNat
  rw [encodeHead_eq, List.cons_append, takeHead, parts.1, parts.2, List.take_left' width, List.drop_left' width,
    leValue_reverse_beBytes, headArg_headInfo]

/-- A sized payload is read where it stands. -/
theorem takePayload_lenArg {payload : Bytes} (short : payload.length < 2 ^ 64) (rest : Bytes) :
    takePayload (lenArg payload.length).toNat (payload ++ rest) = some (payload, rest) := by
  have length : (lenArg payload.length).toNat = payload.length := UInt64.toNat_ofNat_of_lt' short
  rw [length, takePayload, if_pos (by simp), List.take_left, List.drop_left]

theorem textValue_asBytes (value : Text) : textValue (asBytes value.text) = some (.text value) := by
  have read : String.fromUTF8? ⟨(asBytes value.text).toArray⟩ = some value.text := by
    have same : (⟨(asBytes value.text).toArray⟩ : ByteArray) = value.text.toByteArray := by
      rw [asBytes, Array.toArray_toList]
      rfl
    rw [same, String.fromUTF8?, dif_pos value.text.isValidUTF8]
    rfl
  rw [textValue, read]
  exact dif_pos value.short

/-- The items of an array are read back one by one. -/
theorem takeMany_encodeEach {depth : Nat} {items : List CborItem} {values : List EnvelopeValue}
    (inner : ∀ item value, ReadsAs depth item value →
      ∀ rest, takeItem depth (encode item ++ rest) = some (value, rest))
    (each : List.Forall₂ (ReadsAs depth) items values) (rest : Bytes) :
    takeMany (takeItem depth) items.length (encodeEach items ++ rest) = some (values, rest) := by
  induction each with
  | nil => rfl
  | cons first _ ih =>
      rw [encodeEach, List.append_assoc, List.length_cons, takeMany, inner _ _ first, Option.bind_eq_bind,
        Option.bind_some]
      dsimp only
      rw [ih]
      rfl

/-- A number, a text or a byte string is decoded at every depth. -/
theorem takeItem_scalar {depth : Nat} {item : CborItem} {value : EnvelopeValue} (reads : ReadsAs depth item value)
    (scalar : ∀ items, item ≠ .array items) (rest : Bytes) :
    takeItem depth (encode item ++ rest) = some (value, rest) := by
  cases item with
  | uint word =>
      cases value <;> simp only [ReadsAs] at reads
      subst reads
      rw [encode, takeItem, takeHead_encodeHead (by decide)]
      rfl
  | nint argument =>
      cases value <;> simp only [ReadsAs] at reads
      subst reads
      rw [encode, takeItem, takeHead_encodeHead (by decide)]
      rfl
  | text text =>
      cases value <;> simp only [ReadsAs] at reads
      rename_i value
      subst reads
      have short : (asBytes value.text).length < 2 ^ 64 := Nat.lt_trans value.short (by decide)
      rw [encode, List.append_assoc, takeItem, takeHead_encodeHead (by decide)]
      have payload := takePayload_lenArg short rest
      have decoded := textValue_asBytes value
      simp [mtUint, mtNint, mtBytes, mtText, payload, decoded]
  | bytes bytes =>
      cases value <;> simp only [ReadsAs] at reads
      rename_i value
      subst reads
      have short : value.bytes.length < 2 ^ 64 := Nat.lt_trans value.short (by decide)
      rw [encode, List.append_assoc, takeItem, takeHead_encodeHead (by decide)]
      have payload := takePayload_lenArg short rest
      have decoded : bytesValue value.bytes = some (.bytes value) := dif_pos value.short
      simp [mtUint, mtNint, mtBytes, payload, decoded]
  | array items => exact absurd rfl (scalar items)

/-- The reader decodes the item at the front of the bytes. -/
theorem takeItem_encode (depth : Nat) : ∀ item value, ReadsAs depth item value →
    ∀ rest, takeItem depth (encode item ++ rest) = some (value, rest) := by
  induction depth with
  | zero =>
      intro item value reads rest
      apply takeItem_scalar reads
      rintro items rfl
      cases value <;> simp only [ReadsAs] at reads
  | succ depth ih =>
      intro item value reads rest
      by_cases scalar : ∀ items, item ≠ .array items
      · exact takeItem_scalar reads scalar rest
      · push Not at scalar
        obtain ⟨items, rfl⟩ := scalar
        cases value <;> simp only [ReadsAs] at reads
        rename_i values
        obtain ⟨short, each⟩ := reads
        have count : (lenArg items.length).toNat = items.length := UInt64.toNat_ofNat_of_lt' short
        rw [encode, List.append_assoc, takeItem, takeHead_encodeHead (by decide), count]
        have values := takeMany_encodeEach ih each rest
        simp [mtUint, mtNint, mtBytes, mtText, mtArray, values]

/-- The sample reader reads every item of the profile. -/
theorem profileReader_readsProfile : ReadsProfile profileReader := by
  intro item value reads
  have taken := takeItem_encode readerDepth item value reads []
  rw [List.append_nil] at taken
  rw [profileReader, taken]
  rfl

end Reader

section Exposure

def HeadAttestationEntry.items (entry : HeadAttestationEntry) : List EnvelopeValue :=
  [.text entry.subjectAgentId, .integer entry.epoch.toNat, .integer entry.headSequence.toNat,
    .bytes entry.headHash, .text entry.signedAt, .bytes entry.signature]

def HeadAttestationEntry.value (entry : HeadAttestationEntry) : EnvelopeValue := .array entry.items

/-- The reader sees the items that the encoder wrote. -/
def EquivocationProof.items (proof : EquivocationProof) : List EnvelopeValue :=
  [.text ⟨equivocationProofV1Domain, by decide⟩, .bytes (Blob.ofDigest proof.subjectPubkey),
    proof.attestationA.value, proof.attestationB.value]

def EquivocationProof.value (proof : EquivocationProof) : EnvelopeValue := .array proof.items

/-- An entry of a proof is read back. -/
theorem readsAs_entryItem (entry : HeadAttestationEntry) (depth : Nat) :
    ReadsAs (depth + 1) (entryItem entry) entry.value := by
  simp [entryItem, HeadAttestationEntry.value, HeadAttestationEntry.items, ReadsAs]

/-- The bytes of a proof decode to its fields. -/
theorem fromReader_toBytes {fromReader : Bytes → Except String EnvelopeValue} (profile : ReadsProfile fromReader)
    (proof : EquivocationProof) : fromReader proof.toBytes = .ok proof.value := by
  apply profile
  simp [EquivocationProof.value, EquivocationProof.items, ReadsAs, readerDepth, readsAs_entryItem, Blob.ofDigest]

theorem asArray_array (items : List EnvelopeValue) (what : String) :
    (EnvelopeValue.array items).asArray items.length what = .ok items := by
  simp [EnvelopeValue.asArray]

@[simp] theorem asUint_toNat (word : UInt64) (what : String) :
    (EnvelopeValue.integer word.toNat).asUint what = .ok word := by
  have bound : (word.toNat : Int) < 2 ^ 64 := by
    have below := word.toNat_lt
    omega
  have range : 0 ≤ (word.toNat : Int) ∧ (word.toNat : Int) < 2 ^ 64 := ⟨Int.natCast_nonneg _, bound⟩
  simp only [EnvelopeValue.asUint, if_pos range, Int.toNat_natCast, UInt64.ofNat_toNat]

theorem ok_bind {Value Result : Type} (value : Value) (rest : Value → Except EquivocationError Result) :
    (Except.ok value >>= rest) = rest value := rfl

/-- An entry reads back with all of its fields. -/
theorem decodeEntry_value (entry : HeadAttestationEntry) (what : String) :
    decodeEntry entry.value what = .ok entry := by
  have counted : headAttestationEntryElements = entry.items.length := rfl
  have subject : ∀ what, (elementAt entry.items 0).asText what = .ok entry.subjectAgentId := fun _ => rfl
  have epoch : ∀ what, (elementAt entry.items 1).asUint what = .ok entry.epoch := asUint_toNat _
  have sequence : ∀ what, (elementAt entry.items 2).asUint what = .ok entry.headSequence := asUint_toNat _
  have hash : ∀ what, (elementAt entry.items 3).asBytes what = .ok entry.headHash := fun _ => rfl
  have signedAt : ∀ what, (elementAt entry.items 4).asText what = .ok entry.signedAt := fun _ => rfl
  have signature : ∀ what, (elementAt entry.items 5).asBytes what = .ok entry.signature := fun _ => rfl
  rw [decodeEntry, HeadAttestationEntry.value, counted, asArray_array, ok_bind, subject, ok_bind, epoch, ok_bind,
    sequence, ok_bind, hash, ok_bind, signedAt, ok_bind, signature, ok_bind]
  rfl

variable {fromReader : Bytes → Except String EnvelopeValue}

/-- A proof reads back from its bytes. -/
theorem fromBytes_toBytes (profile : ReadsProfile fromReader) (proof : EquivocationProof) :
    EquivocationProof.fromBytes fromReader proof.toBytes = .ok proof := by
  have counted : equivocationProofElements = proof.items.length := rfl
  have tagged : (elementAt proof.items 0).expectDomain equivocationProofV1Domain = .ok () := rfl
  have pubkey : ∀ what, (elementAt proof.items 1).asBytes what = .ok (Blob.ofDigest proof.subjectPubkey) :=
    fun _ => rfl
  have first : ∀ what, decodeEntry (elementAt proof.items 2) what = .ok proof.attestationA := decodeEntry_value _
  have second : ∀ what, decodeEntry (elementAt proof.items 3) what = .ok proof.attestationB := decodeEntry_value _
  have width : (Blob.ofDigest proof.subjectPubkey).bytes.length = 32 := proof.subjectPubkey.2
  rw [EquivocationProof.fromBytes, fromReader_toBytes profile, Except.mapError, ok_bind, EquivocationProof.value,
    counted, asArray_array, ok_bind, tagged, ok_bind, pubkey, ok_bind, dif_pos width, first, ok_bind, second, ok_bind]
  rfl

/-- A transported pair convicts exactly when its key signed two heads for one position. -/
theorem transported_verdict_iff (profile : ReadsProfile fromReader)
    (verifyingKeyFromBytes : Digest → Option VerifyingKey) (proof : EquivocationProof)
    (resolver : Text → UInt64 → EpochView) (verdict : EquivocationVerdict) :
    (EquivocationProof.fromBytes fromReader proof.toBytes).bind
        (fun received => received.verifyWithLineage verifyingKeyFromBytes resolver) = .ok verdict ↔
      ∃ key, verifyingKeyFromBytes proof.subjectPubkey = some key ∧ Conflict key proof ∧
        verdict = (resolver proof.attestationA.subjectAgentId proof.attestationA.epoch).verdict := by
  rw [fromBytes_toBytes profile]
  exact verifyWithLineage_ok_iff

/-- Two heads of one subject for its second sequence. -/
def doubledHead (number : Nat) : SignableHeadAttestation := headAttestation alice 3 headsSignedAt (2, digestOf number)

def doubledSignature (byte : UInt8) : SignatureBytes := ⟨List.replicate 64 byte, List.length_replicate⟩

def doubledProof : EquivocationProof :=
  .new (digestOf 1) (doubledHead 7) ⟨(doubledSignature 7).1, by decide⟩ (doubledHead 8)
    ⟨(doubledSignature 8).1, by decide⟩

/-- The key signed the two heads and nothing else. -/
def doubleKey : VerifyingKey where
  toBytes := digestOf 1
  verifyStrict message signature :=
    decide ((message, signature) = (canonicalCborHeadAttestation (doubledHead 7), doubledSignature 7) ∨
      (message, signature) = (canonicalCborHeadAttestation (doubledHead 8), doubledSignature 8))

/-- A lineage view that does not know the epoch withholds the accusation. -/
theorem transported_verdict_withheld :
    (EquivocationProof.fromBytes profileReader doubledProof.toBytes).bind
      (fun received => received.verifyWithLineage (fun _ => some doubleKey) fun _ _ => .unresolvable) =
        .ok .indeterminate := by
  have signedA := @verifyHeadAttestation_signed doubleKey (doubledHead 7) (doubledSignature 7) (by decide)
    (by simp [doubleKey])
  have signedB := @verifyHeadAttestation_signed doubleKey (doubledHead 8) (doubledSignature 8) (by decide)
    (by simp [doubleKey])
  refine (transported_verdict_iff profileReader_readsProfile _ _ _ _).mpr ⟨doubleKey, rfl, ?_, rfl⟩
  exact ⟨signedA, signedB, rfl, rfl, rfl, by decide⟩

end Exposure

end AiMemory.Lineage
