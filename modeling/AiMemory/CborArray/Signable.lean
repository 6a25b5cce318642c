import AiMemory.CborArray.Encode

/-
This file proves that the signed record arrays bind every field and their domain.
-/

namespace AiMemory.CborArray
open AiMemory.Machine AiMemory.Library

def writeV2Domain : String := "ai-memory/write/v2"
def ingestionV1Domain : String := "ingestion-v1"

def presenceAbsent : UInt64 := 0
def presencePresent : UInt64 := 1

/-- An optional element is an array of one or two items. -/
def presence : Option CborItem → CborItem
  | none => .array [.uint presenceAbsent]
  | some value => .array [.uint presencePresent, value]

/-- The hash families have frozen codec values. -/
inductive HashCodec where
  | sha2_256
  | blake3
  deriving DecidableEq

def HashCodec.codec : HashCodec → UInt64
  | .sha2_256 => 0x12
  | .blake3 => 0x1e

/-- The varint writes seven bits in each byte and marks every byte but the last. -/
def encodeLeb128 (value : UInt64) : Bytes :=
  let low := value.toUInt8 &&& 0x7f
  let rest := value >>> 7
  if rest = 0 then [low] else (low ||| 0x80) :: encodeLeb128 rest
termination_by value.toNat
decreasing_by
  rename_i more
  have shifted : (value >>> 7).toNat = value.toNat / 128 := by
    simp [UInt64.toNat_shiftRight, Nat.shiftRight_eq_div_pow]
  have positive : (value >>> 7).toNat ≠ 0 := fun zero => more (UInt64.toNat_inj.mp zero)
  omega

def multihashDigestLen : Nat := 32

/-- A content digest names its hash family. -/
structure Multihash where
  codec : HashCodec
  digest : Digest

def Multihash.toBytes (hash : Multihash) : Bytes :=
  encodeLeb128 hash.codec.codec ++ encodeLeb128 (lenArg multihashDigestLen) ++ hash.digest.1

def suiteEd25519Sha256 : UInt64 := 0

/-- The signed identity surface of a memory write. -/
structure SignableWriteV2 where
  agentId : Text
  «namespace» : Text
  title : Text
  kind : Text
  createdAt : Text
  contentDigest : Multihash
  instanceKeyId : Blob
  modelVersionRef : Blob
  sessionId : Option Text
  suiteTag : UInt64

def SignableWriteV2.items (write : SignableWriteV2) : List CborItem :=
  [.text writeV2Domain, .text write.agentId.text, .text write.namespace.text,
    .text write.title.text, .text write.kind.text, .text write.createdAt.text,
    .bytes write.contentDigest.toBytes, .bytes write.instanceKeyId.bytes,
    .bytes write.modelVersionRef.bytes,
    presence (write.sessionId.map fun session => .text session.text), .uint write.suiteTag]

def canonicalCborWriteV2 (write : SignableWriteV2) : Bytes := encode (.array write.items)

/-- The signed identity surface of a batch of learning. -/
structure SignableIngestionV1 where
  recordSetRoot : Blob
  preCheckpointRef : Blob
  postCheckpointRef : Blob
  instanceId : Blob
  timestamp : Text

def SignableIngestionV1.items (event : SignableIngestionV1) : List CborItem :=
  [.text ingestionV1Domain, .bytes event.recordSetRoot.bytes, .bytes event.preCheckpointRef.bytes,
    .bytes event.postCheckpointRef.bytes, .bytes event.instanceId.bytes, .text event.timestamp.text]

def canonicalCborIngestionV1 (event : SignableIngestionV1) : Bytes := encode (.array event.items)

theorem fits_text (field : Text) : (CborItem.text field.text).Fits :=
  .text (Nat.lt_trans field.short (by decide))

theorem fits_bytes (field : Blob) : (CborItem.bytes field.bytes).Fits :=
  .bytes (Nat.lt_trans field.short (by decide))

theorem Text.ext_text {first second : Text} (same : first.text = second.text) : first = second := by
  cases first
  cases second
  simpa using same

theorem presence_fits {value : Option CborItem} (each : ∀ item ∈ value, item.Fits) :
    (presence value).Fits := by
  cases value with
  | none => exact .array (by decide) (by simp [CborItem.Fits.uint])
  | some item => exact .array (by simp) (by simp [CborItem.Fits.uint, each item rfl])

theorem presence_injective : Function.Injective presence := by
  intro first second same
  cases first <;> cases second <;> simp_all [presence]

/-- A value below 128 is its own varint. -/
theorem encodeLeb128_of_low {value : UInt64} (low : value.toUInt8 &&& 0x7f = value.toUInt8)
    (short : value >>> 7 = 0) : encodeLeb128 value = [value.toUInt8] := by
  unfold encodeLeb128
  simp only [low, short, if_true]

theorem HashCodec.codec_injective {first second : HashCodec}
    (same : first.codec.toUInt8 = second.codec.toUInt8) : first = second := by
  cases first <;> cases second
  · rfl
  · exact absurd same (by decide)
  · exact absurd same (by decide)
  · rfl

/-- Both varints of a multihash have one byte. -/
theorem Multihash.toBytes_eq (hash : Multihash) :
    hash.toBytes = hash.codec.codec.toUInt8 :: 32 :: hash.digest.1 := by
  have codec : encodeLeb128 hash.codec.codec = [hash.codec.codec.toUInt8] := by
    cases hash.codec <;> exact encodeLeb128_of_low (by decide) (by decide)
  have length : encodeLeb128 (lenArg multihashDigestLen) = [32] :=
    encodeLeb128_of_low (by decide) (by decide)
  rw [toBytes, codec, length]
  rfl

theorem Multihash.toBytes_injective : Function.Injective Multihash.toBytes := by
  rintro ⟨codec, digest⟩ ⟨otherCodec, otherDigest⟩ same
  rw [toBytes_eq, toBytes_eq, List.cons.injEq, List.cons.injEq] at same
  obtain ⟨codecs, _, digests⟩ := same
  obtain rfl := HashCodec.codec_injective codecs
  obtain rfl := Subtype.ext digests
  rfl

theorem Multihash.fits (hash : Multihash) : (CborItem.bytes hash.toBytes).Fits := by
  refine .bytes ?_
  rw [hash.toBytes_eq, List.length_cons, List.length_cons, hash.digest.2]
  decide

/-- Every item of a signable write fits the encoder. -/
theorem SignableWriteV2.fits (write : SignableWriteV2) : (CborItem.array write.items).Fits := by
  refine .array (by simp [items]) ?_
  have session : (presence (write.sessionId.map fun session => .text session.text)).Fits := by
    apply presence_fits
    intro item present
    obtain ⟨field, _, rfl⟩ := Option.map_eq_some_iff.mp present
    exact fits_text field
  simp only [items, List.forall_mem_cons]
  exact ⟨.text (by decide), fits_text _, fits_text _, fits_text _, fits_text _, fits_text _,
    write.contentDigest.fits, fits_bytes _, fits_bytes _, session, .uint _, List.forall_mem_nil _⟩

/-- Every item of a signable ingestion fits the encoder. -/
theorem SignableIngestionV1.fits (event : SignableIngestionV1) : (CborItem.array event.items).Fits := by
  refine .array (by simp [items]) ?_
  simp only [items, List.forall_mem_cons]
  exact ⟨.text (by decide), fits_bytes _, fits_bytes _, fits_bytes _, fits_bytes _, fits_text _,
    List.forall_mem_nil _⟩

/-- Items that fit and share their bytes are one item. -/
theorem items_eq {first second : List CborItem} (fits : (CborItem.array first).Fits)
    (otherFits : (CborItem.array second).Fits)
    (same : encode (.array first) = encode (.array second)) : first = second := by
  have items : (⟨.array first, fits⟩ : {item : CborItem // item.Fits}) = ⟨.array second, otherFits⟩ :=
    encode_prefixCode.injective same
  exact CborItem.array.inj (congrArg Subtype.val items)

theorem sessionItem_injective :
    Function.Injective fun session : Option Text => session.map fun session => CborItem.text session.text :=
  Option.map_injective fun _ _ same => Text.ext_text (CborItem.text.inj same)

/-- A write is bound by its bytes in all of its fields. -/
theorem canonicalCborWriteV2_injective : Function.Injective canonicalCborWriteV2 := by
  intro first second same
  have items := items_eq first.fits second.fits same
  simp only [SignableWriteV2.items, List.cons.injEq, CborItem.text.injEq, CborItem.bytes.injEq,
    CborItem.uint.injEq, presence_injective.eq_iff, and_true, true_and] at items
  obtain ⟨agentId, namespaces, title, kind, createdAt, digest, instanceKeyId, modelVersionRef, session,
    suiteTag⟩ := items
  cases first
  cases second
  rw [SignableWriteV2.mk.injEq]
  exact ⟨Text.ext_text agentId, Text.ext_text namespaces, Text.ext_text title, Text.ext_text kind,
    Text.ext_text createdAt, Multihash.toBytes_injective digest, Blob.ext instanceKeyId,
    Blob.ext modelVersionRef, sessionItem_injective session, suiteTag⟩

/-- The domain tag separates a write from an ingestion event. -/
theorem canonicalCborWriteV2_ne (write : SignableWriteV2) (event : SignableIngestionV1) :
    canonicalCborWriteV2 write ≠ canonicalCborIngestionV1 event := by
  intro same
  have items := items_eq write.fits event.fits same
  have tags : writeV2Domain = ingestionV1Domain :=
    CborItem.text.inj (List.cons.inj items).1
  exact absurd tags (by decide)

/-- The profile is uniquely decodable, so a signed record binds its fields and its domain. -/
theorem encode_uniquelyDecodable :
    (PrefixCode fun item : {item : CborItem // item.Fits} => encode item.1) ∧
      Function.Injective canonicalCborWriteV2 ∧
      ∀ write event, canonicalCborWriteV2 write ≠ canonicalCborIngestionV1 event :=
  ⟨encode_prefixCode, canonicalCborWriteV2_injective, canonicalCborWriteV2_ne⟩

end AiMemory.CborArray
