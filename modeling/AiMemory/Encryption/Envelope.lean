import AiMemory.Library.Run
import AiMemory.Machine.Bytes

/-
This file embeds the envelopes that hold the content of a row at rest.
-/

namespace AiMemory.Encryption
open AiMemory.Library AiMemory.Machine

def envelopeVersion : UInt8 := 0x02
def recordEnvelopeVersion : UInt8 := 0x03
def erasedEnvelopeVersion : UInt8 := 0x04

def pubkeyLen : Nat := 32
def nonceLen : Nat := 12
def tagLen : Nat := 16

def recordInnerAad : Bytes := [recordEnvelopeVersion]

def hkdfInfo : Bytes := utf8 "ai-memory/v0.7.0/e2e-content/chacha20poly1305-key/v2"

abbrev NonceBytes := {bytes : Bytes // bytes.length = nonceLen}

inductive EncryptionError where
  | noAgentId
  | noKeypair
  | encryptFailed
  | wrappedTooLong
  | tooShort
  | unknownVersion
  | erased
  | decryptFailed
  | wrongDekLength
  | notUtf8
  deriving DecidableEq, Repr

/-- The libraries supply the curve, the key derivation and the cipher. The keystore gives each agent one secret key
for good, or fails. -/
structure Primitives where
  encryptionEnabled : Bool
  publicKey : Digest → Digest
  diffieHellman : Digest → Digest → Digest
  hkdfSha256 : Digest → Bytes → Digest
  chachaEncrypt : Digest → NonceBytes → Bytes → Bytes → Option Bytes
  chachaDecrypt : Digest → NonceBytes → Bytes → Bytes → Option Bytes
  getOrCreateKeypair : String → Option Digest

/-- What one sealing draws at random. -/
structure SealingCoins where
  dek : Digest
  innerNonce : NonceBytes
  ephemeralSecret : Digest
  wrapNonce : NonceBytes

structure Envelope where
  ephemeralPub : Digest
  nonce : NonceBytes
  ciphertext : Bytes
  deriving DecidableEq

namespace Envelope

def toBytes (envelope : Envelope) : Bytes :=
  envelopeVersion :: (envelope.ephemeralPub.1 ++ (envelope.nonce.1 ++ envelope.ciphertext))

def fromBytes (bytes : Bytes) : Except EncryptionError Envelope :=
  if short : bytes.length < 1 + pubkeyLen + nonceLen + tagLen then .error .tooShort
  else if bytes.head? ≠ some envelopeVersion then .error .unknownVersion
  else .ok {
    ephemeralPub := ⟨(bytes.drop 1).take pubkeyLen, by
      rw [List.length_take, List.length_drop]
      simp only [pubkeyLen, nonceLen, tagLen] at *
      omega⟩
    nonce := ⟨(bytes.drop (1 + pubkeyLen)).take nonceLen, by
      rw [List.length_take, List.length_drop]
      simp only [pubkeyLen, nonceLen, tagLen] at *
      omega⟩
    ciphertext := bytes.drop (1 + pubkeyLen + nonceLen) }

/-- The envelope is as long as its parts. -/
theorem length_toBytes (envelope : Envelope) :
    envelope.toBytes.length = 1 + pubkeyLen + nonceLen + envelope.ciphertext.length := by
  rw [toBytes, List.length_cons, List.length_append, List.length_append, envelope.ephemeralPub.2,
    envelope.nonce.2]
  simp only [pubkeyLen, nonceLen]
  omega

/-- A written envelope reads back. -/
theorem fromBytes_toBytes (envelope : Envelope) (tagged : tagLen ≤ envelope.ciphertext.length) :
    fromBytes envelope.toBytes = .ok envelope := by
  have long : ¬ envelope.toBytes.length < 1 + pubkeyLen + nonceLen + tagLen := by
    rw [length_toBytes]
    omega
  have parts : envelope.toBytes.drop 1 =
      envelope.ephemeralPub.1 ++ (envelope.nonce.1 ++ envelope.ciphertext) := rfl
  have afterPub : envelope.toBytes.drop (1 + pubkeyLen) = envelope.nonce.1 ++ envelope.ciphertext := by
    rw [← List.drop_drop, parts]
    exact List.drop_left' envelope.ephemeralPub.2
  have afterNonce : envelope.toBytes.drop (1 + pubkeyLen + nonceLen) = envelope.ciphertext := by
    rw [← List.drop_drop, afterPub]
    exact List.drop_left' envelope.nonce.2
  rw [fromBytes, dif_neg long, if_neg (by simp [toBytes])]
  simp only [parts, afterPub, afterNonce]
  congr 2
  · exact Subtype.ext (List.take_left' envelope.ephemeralPub.2)
  · exact Subtype.ext (List.take_left' envelope.nonce.2)

end Envelope

section Text

def fromUtf8 (bytes : Bytes) : Option String := String.fromUTF8? ⟨bytes.toArray⟩

/-- A text is read back from its UTF-8 bytes. -/
theorem fromUtf8_utf8 (text : String) : fromUtf8 (utf8 text) = some text := by
  have same : (⟨(utf8 text).toArray⟩ : ByteArray) = text.toByteArray := by
    rw [utf8, Array.toArray_toList]
    rfl
  rw [fromUtf8, same, String.fromUTF8?, dif_pos text.isValidUTF8]
  rfl

def fromBeBytes (high low : UInt8) : Nat := 256 * high.toNat + low.toNat

/-- A number below 2^16 is read back from two bytes. -/
theorem beBytes_two {number : Nat} (short : number < 2 ^ 16) :
    ∃ high low, beBytes 2 number = [high, low] ∧ fromBeBytes high low = number := by
  refine ⟨UInt8.ofNat (number / 256), UInt8.ofNat number, rfl, ?_⟩
  rw [fromBeBytes, UInt8.toNat_ofNat', UInt8.toNat_ofNat']
  omega

end Text

section Sealing

variable (env : Primitives)

def envelopeAad (ephemeralPub : Digest) : Bytes := envelopeVersion :: ephemeralPub.1

/-- The shared secret of the curve is never used raw. -/
def deriveAeadKey (shared : Digest) : Digest := env.hkdfSha256 shared hkdfInfo

def encryptBytes (coins : SealingCoins) (plaintext : Bytes) (recipientPk : Digest) :
    Except EncryptionError Envelope :=
  let ephemeralPub := env.publicKey coins.ephemeralSecret
  let key := deriveAeadKey env (env.diffieHellman coins.ephemeralSecret recipientPk)
  match env.chachaEncrypt key coins.wrapNonce (envelopeAad ephemeralPub) plaintext with
  | none => .error .encryptFailed
  | some ciphertext => .ok ⟨ephemeralPub, coins.wrapNonce, ciphertext⟩

def decryptBytes (envelope : Envelope) (mySk : Digest) : Except EncryptionError Bytes :=
  let key := deriveAeadKey env (env.diffieHellman mySk envelope.ephemeralPub)
  match env.chachaDecrypt key envelope.nonce (envelopeAad envelope.ephemeralPub) envelope.ciphertext with
  | none => .error .decryptFailed
  | some plaintext => .ok plaintext

/-- The key of the record is wrapped for the recipient and stands in the same bytes as the content. -/
def recordBytes (wrapped : Bytes) (innerNonce : NonceBytes) (innerCt : Bytes) : Bytes :=
  recordEnvelopeVersion :: (beBytes 2 wrapped.length ++ (wrapped ++ (innerNonce.1 ++ innerCt)))

def sealContentPerRecord (coins : SealingCoins) (content : String) (recipientPk : Digest) :
    Except EncryptionError Bytes :=
  match env.chachaEncrypt coins.dek coins.innerNonce recordInnerAad (utf8 content) with
  | none => .error .encryptFailed
  | some innerCt => do
      let wrapped ← encryptBytes env coins coins.dek.1 recipientPk
      if wrapped.toBytes.length < 2 ^ 16 then
        .ok (recordBytes wrapped.toBytes coins.innerNonce innerCt)
      else .error .wrappedTooLong

/-- An empty content stays as it is; any other content leaves the empty placeholder in its column. -/
def sealContent (coins : SealingCoins) (content agentId : String) :
    Except EncryptionError (Option (Bytes × String)) :=
  if env.encryptionEnabled = false ∨ content = "" then .ok none
  else if agentId = "" then .error .noAgentId
  else
    match env.getOrCreateKeypair agentId with
    | none => .error .noKeypair
    | some secret => (sealContentPerRecord env coins content (env.publicKey secret)).map fun bytes =>
        some (bytes, "")

def unwrapRecordKey (wrapped : Bytes) (mySk : Digest) : Except EncryptionError Bytes := do
  let envelope ← Envelope.fromBytes wrapped
  decryptBytes env envelope mySk

def keypairOf (agentId : String) : Except EncryptionError Digest :=
  (env.getOrCreateKeypair agentId).elim (.error .noKeypair) .ok

/-- The content of a record under its unwrapped key. -/
def openInner (dek : Bytes) (innerNonce : NonceBytes) (innerCt : Bytes) : Except EncryptionError String :=
  if exact : dek.length = 32 then
    match env.chachaDecrypt ⟨dek, exact⟩ innerNonce recordInnerAad innerCt with
    | none => .error .decryptFailed
    | some plaintext => (fromUtf8 plaintext).elim (.error .notUtf8) .ok
  else .error .wrongDekLength

def openContentPerRecord (envelopeBytes : Bytes) (agentId : String) : Except EncryptionError String :=
  match envelopeBytes with
  | _ :: high :: low :: rest =>
      let wrappedLen := fromBeBytes high low
      if short : rest.length < wrappedLen + nonceLen + tagLen then .error .tooShort
      else do
        let innerNonce : NonceBytes := ⟨(rest.drop wrappedLen).take nonceLen, by
          rw [List.length_take, List.length_drop]
          simp only [nonceLen, tagLen] at *
          omega⟩
        let secret ← keypairOf env agentId
        let dek ← unwrapRecordKey env (rest.take wrappedLen) secret
        openInner env dek innerNonce (rest.drop (wrappedLen + nonceLen))
  | _ => .error .tooShort

/-- The first byte names the scheme. -/
def openContent (envelopeBytes : Bytes) (agentId : String) : Except EncryptionError String :=
  if envelopeBytes.head? = some erasedEnvelopeVersion then .error .erased
  else if envelopeBytes.head? = some recordEnvelopeVersion then openContentPerRecord env envelopeBytes agentId
  else do
    let envelope ← Envelope.fromBytes envelopeBytes
    let secret ← keypairOf env agentId
    let plaintext ← decryptBytes env envelope secret
    (fromUtf8 plaintext).elim (.error .notUtf8) .ok

end Sealing

section Sound

variable {env : Primitives} {coins : SealingCoins} {content agentId placeholder : String} {bytes : Bytes}

/-- The key that wraps for one agent under one ephemeral secret. -/
def wrapKey (env : Primitives) (ephemeralSecret secret : Digest) : Digest :=
  deriveAeadKey env (env.diffieHellman ephemeralSecret (env.publicKey secret))

/-- The cipher opens what it seals, and both ends of an exchange agree. -/
structure Primitives.Correct (env : Primitives) : Prop where
  opens : ∀ key nonce aad msg ciphertext, env.chachaEncrypt key nonce aad msg = some ciphertext →
    env.chachaDecrypt key nonce aad ciphertext = some msg
  tags : ∀ key nonce aad msg ciphertext, env.chachaEncrypt key nonce aad msg = some ciphertext →
    ciphertext.length = msg.length + tagLen
  agrees : ∀ agentId, ∀ secret ∈ env.getOrCreateKeypair agentId, ∀ ephemeral,
    env.diffieHellman secret (env.publicKey ephemeral) = env.diffieHellman ephemeral (env.publicKey secret)

/-- What is wrapped for one agent opens under the key of no other agent. -/
def Primitives.Separates (env : Primitives) : Prop :=
  ∀ agentId otherId, ∀ secret ∈ env.getOrCreateKeypair agentId, ∀ other ∈ env.getOrCreateKeypair otherId,
    ∀ ephemeral nonce msg ciphertext,
      env.chachaEncrypt (wrapKey env ephemeral secret) nonce (envelopeAad (env.publicKey ephemeral)) msg =
          some ciphertext →
        (env.chachaDecrypt (deriveAeadKey env (env.diffieHellman other (env.publicKey ephemeral))) nonce
          (envelopeAad (env.publicKey ephemeral)) ciphertext).isSome → otherId = agentId

/-- A sealing wraps a key for the agent, and the wrapped key and the content both have their tags. -/
theorem sealContent_ok
    (ok : sealContent env coins content agentId = .ok (some (bytes, placeholder))) :
    placeholder = "" ∧ ∃ secret ∈ env.getOrCreateKeypair agentId, ∃ wrappedCt innerCt,
      env.chachaEncrypt (wrapKey env coins.ephemeralSecret secret) coins.wrapNonce
          (envelopeAad (env.publicKey coins.ephemeralSecret)) coins.dek.1 = some wrappedCt ∧
        env.chachaEncrypt coins.dek coins.innerNonce recordInnerAad (utf8 content) = some innerCt ∧
        bytes = recordBytes
          (Envelope.toBytes ⟨env.publicKey coins.ephemeralSecret, coins.wrapNonce, wrappedCt⟩) coins.innerNonce
          innerCt := by
  unfold sealContent at ok
  split_ifs at ok
  · cases ok
  split at ok
  · contradiction
  · rename_i secret resolved
    obtain ⟨sealed, sealedOk, same⟩ := map_eq_ok.mp ok
    obtain ⟨rfl, rfl⟩ := Prod.mk.inj (Option.some.inj same)
    unfold sealContentPerRecord at sealedOk
    split at sealedOk
    · contradiction
    · rename_i innerCt inner
      obtain ⟨wrapped, wrappedOk, assembled⟩ := bind_eq_ok.mp sealedOk
      unfold encryptBytes at wrappedOk
      dsimp only at wrappedOk
      split at wrappedOk
      · contradiction
      · rename_i wrappedCt outer
        obtain rfl := Except.ok.inj wrappedOk
        split_ifs at assembled
        obtain rfl := Except.ok.inj assembled
        exact ⟨rfl, secret, resolved, wrappedCt, innerCt, outer, inner, rfl⟩

/-- A content stays in the clear when the encryption is off or the content is empty. -/
theorem plain_of_sealContent (ok : sealContent env coins content agentId = .ok none) :
    env.encryptionEnabled = false ∨ content = "" := by
  unfold sealContent at ok
  split_ifs at ok with plain
  · exact plain
  · split at ok
    · contradiction
    · obtain ⟨_, _, isSome⟩ := map_eq_ok.mp ok
      cases isSome

/-- A record opens by its wrapped key and the key by the wrapping envelope. -/
theorem openContent_recordBytes {envelope : Envelope} {innerNonce : NonceBytes} {innerCt : Bytes}
    (wrapTagged : tagLen ≤ envelope.ciphertext.length) (short : envelope.toBytes.length < 2 ^ 16)
    (innerTagged : tagLen ≤ innerCt.length) :
    openContent env (recordBytes envelope.toBytes innerNonce innerCt) agentId =
      (keypairOf env agentId >>= fun secret => decryptBytes env envelope secret >>= fun dek =>
        openInner env dek innerNonce innerCt) := by
  obtain ⟨high, low, digits, value⟩ := beBytes_two short
  have wrapped : (envelope.toBytes ++ (innerNonce.1 ++ innerCt)).take envelope.toBytes.length =
      envelope.toBytes := List.take_left
  have after : (envelope.toBytes ++ (innerNonce.1 ++ innerCt)).drop envelope.toBytes.length =
      innerNonce.1 ++ innerCt := List.drop_left
  have afterNonce : (envelope.toBytes ++ (innerNonce.1 ++ innerCt)).drop (envelope.toBytes.length + nonceLen) =
      innerCt := by
    rw [← List.drop_drop, after]
    exact List.drop_left' innerNonce.2
  have long : ¬ (envelope.toBytes ++ (innerNonce.1 ++ innerCt)).length <
      envelope.toBytes.length + nonceLen + tagLen := by
    rw [List.length_append, List.length_append, innerNonce.2]
    omega
  have shape : recordBytes envelope.toBytes innerNonce innerCt =
      recordEnvelopeVersion :: high :: low :: (envelope.toBytes ++ (innerNonce.1 ++ innerCt)) := by
    rw [recordBytes, digits]
    rfl
  have alive : recordEnvelopeVersion ≠ erasedEnvelopeVersion := by decide
  rw [shape, openContent, List.head?_cons, if_neg (by simpa using alive), if_pos rfl, openContentPerRecord]
  simp only [value, wrapped, after, afterNonce, List.take_left' innerNonce.2]
  rw [dif_neg long]
  simp only [unwrapRecordKey, Envelope.fromBytes_toBytes envelope wrapTagged]
  rfl

/-- A sealed record opens for an agent as its wrapped key does. -/
theorem openContent_sealed {otherId : String} (correct : env.Correct)
    (ok : sealContent env coins content agentId = .ok (some (bytes, placeholder))) :
    ∃ secret ∈ env.getOrCreateKeypair agentId, ∃ wrapped : Envelope,
      wrapped.ephemeralPub = env.publicKey coins.ephemeralSecret ∧
        env.chachaEncrypt (wrapKey env coins.ephemeralSecret secret) wrapped.nonce
            (envelopeAad (env.publicKey coins.ephemeralSecret)) coins.dek.1 = some wrapped.ciphertext ∧
          ∃ innerCt, env.chachaDecrypt coins.dek coins.innerNonce recordInnerAad innerCt = some (utf8 content) ∧
            openContent env bytes otherId = (keypairOf env otherId >>= fun other =>
              decryptBytes env wrapped other >>= fun dek => openInner env dek coins.innerNonce innerCt) := by
  obtain ⟨_, secret, resolved, wrappedCt, innerCt, outer, inner, rfl⟩ := sealContent_ok ok
  have wrapLength := correct.tags _ _ _ _ _ outer
  have innerLength := correct.tags _ _ _ _ _ inner
  rw [coins.dek.2] at wrapLength
  refine ⟨secret, resolved, ⟨_, coins.wrapNonce, wrappedCt⟩, rfl, outer, innerCt,
    correct.opens _ _ _ _ _ inner, openContent_recordBytes ?_ ?_ ?_⟩
  · exact wrapLength ▸ Nat.le_add_left _ _
  · rw [Envelope.length_toBytes, wrapLength]
    decide
  · exact innerLength ▸ Nat.le_add_left _ _

/-- The agent of a sealing opens it. -/
theorem openContent_own (correct : env.Correct)
    (ok : sealContent env coins content agentId = .ok (some (bytes, placeholder))) :
    openContent env bytes agentId = .ok content := by
  obtain ⟨secret, resolved, wrapped, ephemeral, outer, innerCt, inner, opened⟩ :=
    @openContent_sealed env coins content agentId placeholder bytes agentId correct ok
  have unwrapped : decryptBytes env wrapped secret = .ok coins.dek.1 := by
    rw [decryptBytes, ephemeral, correct.agrees agentId secret resolved]
    rw [← wrapKey, correct.opens _ _ _ _ _ outer]
  have found : env.getOrCreateKeypair agentId = some secret := resolved
  have isKey : keypairOf env agentId = .ok secret := by rw [keypairOf, found]; rfl
  have opensInner : openInner env coins.dek.1 coins.innerNonce innerCt = .ok content := by
    rw [openInner, dif_pos coins.dek.2]
    rw [inner]
    dsimp only
    rw [fromUtf8_utf8]
    rfl
  rw [opened, isKey]
  exact bind_eq_ok.mpr ⟨secret, rfl, bind_eq_ok.mpr ⟨_, unwrapped, opensInner⟩⟩

/-- No other agent opens it. -/
theorem eq_of_openContent {otherId text : String} (correct : env.Correct) (separates : env.Separates)
    (ok : sealContent env coins content agentId = .ok (some (bytes, placeholder)))
    (opened : openContent env bytes otherId = .ok text) : otherId = agentId := by
  obtain ⟨secret, resolved, wrapped, ephemeral, outer, innerCt, _, opens⟩ :=
    @openContent_sealed env coins content agentId placeholder bytes otherId correct ok
  rw [opens] at opened
  obtain ⟨other, isKey, unwrapping⟩ := bind_eq_ok.mp opened
  obtain ⟨dek, unwrapped, _⟩ := bind_eq_ok.mp unwrapping
  have found : env.getOrCreateKeypair otherId = some other := elim_error_eq_ok.mp isKey
  unfold decryptBytes at unwrapped
  rw [ephemeral] at unwrapped
  refine separates agentId otherId secret resolved other found _ _ _ _ outer ?_
  dsimp only at unwrapped
  split at unwrapped
  · contradiction
  · rename_i plaintext decrypted
    rw [decrypted]
    rfl

end Sound
end AiMemory.Encryption
