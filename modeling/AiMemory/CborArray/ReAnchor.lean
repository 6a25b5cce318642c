import AiMemory.CborArray.Signable
import AiMemory.Library.Run
import Mathlib.Data.List.Induction

/-
This file proves that the decoder of a re-anchor ceremony accepts exactly the bytes that the encoder writes.
-/

namespace AiMemory.CborArray
open AiMemory.Machine AiMemory.Library

section Encoding

def reAnchorV1Domain : String := "ai-memory/re-anchor/v1"
def reAnchorV1Elements : UInt64 := 5

/-- The ceremony hands the head of a chain over to the key of a new suite. -/
structure ReAnchorRecord where
  priorChainHeadHash : Bytes
  priorHeadSequence : UInt64
  newSuiteTag : UInt64
  anchoredAt : String
  deriving DecidableEq

def ReAnchorRecord.items (record : ReAnchorRecord) : List CborItem :=
  [.text reAnchorV1Domain, .bytes record.priorChainHeadHash, .uint record.priorHeadSequence,
    .uint record.newSuiteTag, .text record.anchoredAt]

def canonicalCborReAnchorV1 (record : ReAnchorRecord) : Bytes := encode (.array record.items)

end Encoding

section Decoding

inductive ReAnchorDecodeError where
  | truncated
  | reservedAdditionalInfo
  | nonMinimalInt
  | wrongMajorType
  | wrongElementCount
  | wrongDomainTag
  | invalidUtf8
  | trailingBytes
  deriving DecidableEq

/-- A position beyond the last machine word is beyond the end as well. -/
def readPayload (buf : Bytes) (pos : Nat) (len : UInt64) : Except ReAnchorDecodeError (Bytes × Nat) :=
  let stop := pos + len.toNat
  if stop < 2 ^ 64 ∧ stop ≤ buf.length then .ok ((buf.drop pos).take len.toNat, stop) else .error .truncated

/-- The bytes are the digits of a machine word, most significant first. -/
def wordOf (slice : Bytes) : UInt64 := slice.foldl (fun val byte => val <<< 8 ||| byte.toUInt64) 0

/-- A wide argument is refused when the next narrower form could write it. -/
def readWide (buf : Bytes) (pos : Nat) (width narrower : UInt64) : Except ReAnchorDecodeError (UInt64 × Nat) := do
  let (slice, stop) ← readPayload buf pos width
  if wordOf slice ≤ narrower then .error .nonMinimalInt else .ok (wordOf slice, stop)

/-- The low bits of a head are its argument or name the width of the argument behind it. -/
def readArg (buf : Bytes) (pos : Nat) (info : UInt8) : Except ReAnchorDecodeError (UInt64 × Nat) :=
  if info ≤ 23 then .ok (info.toUInt64, pos)
  else if info = 24 then readWide buf pos 1 argInlineMax
  else if info = 25 then readWide buf pos 2 0xff
  else if info = 26 then readWide buf pos 4 0xffff
  else if info = 27 then readWide buf pos 8 0xffffffff
  else .error .reservedAdditionalInfo

def readHead (buf : Bytes) (pos : Nat) : Except ReAnchorDecodeError ((UInt8 × UInt64) × Nat) :=
  match buf[pos]? with
  | none => .error .truncated
  | some head => do
      let (arg, stop) ← readArg buf (pos + 1) (head &&& 0x1f)
      return ((head >>> majorShift, arg), stop)

/-- The first failed check stops the decoder. -/
def require (holds : Prop) [Decidable holds] (error : ReAnchorDecodeError) : Except ReAnchorDecodeError Unit :=
  if holds then .ok () else .error error

def readUint (buf : Bytes) (pos : Nat) : Except ReAnchorDecodeError (UInt64 × Nat) := do
  let (head, pos) ← readHead buf pos
  require (head.1 = mtUint) .wrongMajorType
  return (head.2, pos)

/-- A sized element has a major type, a length and a payload. -/
def readSized (major : UInt8) (buf : Bytes) (pos : Nat) : Except ReAnchorDecodeError (Bytes × Nat) := do
  let (head, pos) ← readHead buf pos
  require (head.1 = major) .wrongMajorType
  readPayload buf pos head.2

def fromUtf8 (bytes : Bytes) : Except ReAnchorDecodeError String :=
  (String.fromUTF8? ⟨bytes.toArray⟩).elim (.error .invalidUtf8) .ok

/-- The decoder keeps any suite tag, since only the verifier judges it. -/
def decodeReAnchorV1 (buf : Blob) : Except ReAnchorDecodeError ReAnchorRecord := do
  let (head, pos) ← readHead buf.bytes 0
  require (head.1 = mtArray) .wrongMajorType
  require (head.2 = reAnchorV1Elements) .wrongElementCount
  let (domain, pos) ← readSized mtText buf.bytes pos
  require (domain = asBytes reAnchorV1Domain) .wrongDomainTag
  let (priorChainHeadHash, pos) ← readSized mtBytes buf.bytes pos
  let (priorHeadSequence, pos) ← readUint buf.bytes pos
  let (newSuiteTag, pos) ← readUint buf.bytes pos
  let (stamp, pos) ← readSized mtText buf.bytes pos
  let anchoredAt ← fromUtf8 stamp
  require (pos = buf.bytes.length) .trailingBytes
  return { priorChainHeadHash, priorHeadSequence, newSuiteTag, anchoredAt }

end Decoding

section Words

theorem toNat_shifted {val : UInt64} {byte : UInt8} (small : val.toNat < 2 ^ 56) :
    (val <<< 8 ||| byte.toUInt64).toNat = val.toNat * 256 + byte.toNat := by
  have low := byte.toNat_lt
  have shifted : (val <<< 8).toNat = 2 ^ 8 * val.toNat := by
    rw [UInt64.toNat_shiftLeft, Nat.shiftLeft_eq]
    simp only [UInt64.reduceToNat, Nat.reduceMod, Nat.reducePow]
    omega
  rw [UInt64.toNat_or, shifted, UInt8.toNat_toUInt64, ← Nat.two_pow_add_eq_or_of_lt low]
  omega

/-- One more byte shifts the word and takes the lowest place. -/
theorem wordOf_concat (slice : Bytes) (byte : UInt8) :
    wordOf (slice ++ [byte]) = wordOf slice <<< 8 ||| byte.toUInt64 := by
  rw [wordOf, List.foldl_append]
  rfl

/-- At most eight bytes are the digits of their word. -/
theorem digits_wordOf {slice : Bytes} (narrow : slice.length ≤ 8) :
    (wordOf slice).toNat < 256 ^ slice.length ∧ beBytes slice.length (wordOf slice).toNat = slice := by
  induction slice using List.reverseRecOn with
  | nil => exact ⟨by decide, rfl⟩
  | append_singleton slice byte ih =>
      rw [List.length_append, List.length_singleton] at narrow ⊢
      obtain ⟨small, digits⟩ := ih (by omega)
      have bound : 256 ^ slice.length ≤ 256 ^ 7 := Nat.pow_le_pow_right (by decide) (by omega)
      have low := byte.toNat_lt
      have word : (wordOf (slice ++ [byte])).toNat = (wordOf slice).toNat * 256 + byte.toNat := by
        rw [wordOf_concat, toNat_shifted (by omega)]
      constructor
      · rw [word, Nat.pow_succ]
        omega
      · have upper : ((wordOf slice).toNat * 256 + byte.toNat) / 256 = (wordOf slice).toNat := by omega
        have lower : UInt8.ofNat ((wordOf slice).toNat * 256 + byte.toNat) = byte := by
          apply UInt8.toNat_inj.mp
          rw [UInt8.toNat_ofNat']
          omega
        rw [word, beBytes, upper, digits, lower]

/-- The digits of a word that fits its bytes read back. -/
theorem wordOf_beBytes {width : Nat} {arg : UInt64} (narrow : width ≤ 8) (fits : arg.toNat < 256 ^ width) :
    wordOf (beBytes width arg.toNat) = arg := by
  have narrow : (beBytes width arg.toNat).length ≤ 8 := by rwa [length_beBytes]
  obtain ⟨small, digits⟩ := digits_wordOf narrow
  rw [length_beBytes] at small digits
  have same := beBytes_inj digits
  rw [Nat.mod_eq_of_lt small, Nat.mod_eq_of_lt fits] at same
  exact UInt64.toNat_inj.mp same

end Words

section Readers

variable {buf payload : Bytes} {pos next : Nat} {major : UInt8} {arg len : UInt64}

theorem require_ok {holds : Prop} [Decidable holds] {error : ReAnchorDecodeError} :
    require holds error = .ok () ↔ holds := by
  rw [require]
  split <;> simp [*]

/-- A payload is read where it stands. -/
theorem readPayload_ok (short : buf.length < 2 ^ 64) (inside : pos ≤ buf.length) :
    readPayload buf pos len = .ok (payload, next) ↔ payload.length = len.toNat ∧ Consumes buf pos payload next := by
  simp only [readPayload]
  constructor
  · intro read
    split at read
    · rename_i fits
      obtain ⟨rfl, rfl⟩ := Prod.mk.inj (Except.ok.inj read)
      have length : ((buf.drop pos).take len.toNat).length = len.toNat := by
        rw [List.length_take, List.length_drop]
        omega
      exact ⟨length, List.take_prefix _ _, by rw [length]⟩
    · cases read
  · rintro ⟨length, consumed⟩
    have stops := consumed.le_length inside
    obtain ⟨⟨rest, whole⟩, rfl⟩ := consumed
    rw [length] at stops ⊢
    rw [if_pos ⟨by omega, stops⟩, ← whole, ← length, List.take_left]

/-- A wide argument is read when it needs its width. -/
theorem readWide_ok {width narrower : UInt64} (short : buf.length < 2 ^ 64) (inside : pos ≤ buf.length)
    (narrow : width.toNat ≤ 8) :
    readWide buf pos width narrower = .ok (arg, next) ↔
      (narrower < arg ∧ arg.toNat < 256 ^ width.toNat) ∧ Consumes buf pos (beBytes width.toNat arg.toNat) next := by
  constructor
  · intro read
    obtain ⟨⟨slice, stop⟩, taken, read⟩ := bind_eq_ok.mp read
    obtain ⟨length, consumed⟩ := (readPayload_ok short inside).mp taken
    dsimp only at read
    split at read
    · cases read
    · rename_i wide
      obtain ⟨rfl, rfl⟩ := Prod.mk.inj (Except.ok.inj read)
      rw [← length] at narrow ⊢
      obtain ⟨small, digits⟩ := digits_wordOf narrow
      exact ⟨⟨UInt64.not_le.mp wide, small⟩, digits.symm ▸ consumed⟩
  · rintro ⟨⟨wide, small⟩, consumed⟩
    have taken : readPayload buf pos width = .ok (beBytes width.toNat arg.toNat, next) :=
      (readPayload_ok short inside).mpr ⟨length_beBytes _ _, consumed⟩
    refine bind_eq_ok.mpr ⟨_, taken, ?_⟩
    dsimp only
    rw [wordOf_beBytes narrow small]
    exact if_neg (UInt64.not_le.mpr wide)

/-- The low bits are the argument or name the shortest form that holds it. -/
theorem headInfo_cases (arg : UInt64) :
    arg.toNat ≤ 23 ∧ (headInfo arg).toNat = arg.toNat ∨
      23 < arg.toNat ∧ arg.toNat < 256 ^ 1 ∧ (headInfo arg).toNat = 24 ∨
      0xff < arg.toNat ∧ arg.toNat < 256 ^ 2 ∧ (headInfo arg).toNat = 25 ∨
      0xffff < arg.toNat ∧ arg.toNat < 256 ^ 4 ∧ (headInfo arg).toNat = 26 ∨
      0xffffffff < arg.toNat ∧ arg.toNat < 256 ^ 8 ∧ (headInfo arg).toNat = 27 := by
  have bound := arg.toNat_lt
  by_cases inlined : arg ≤ argInlineMax
  · have small : arg.toNat ≤ 23 := UInt64.le_iff_toNat_le.mp inlined
    rw [headInfo, if_pos inlined]
    exact .inl ⟨small, (toUInt8_inline inlined).2⟩
  · have large : 23 < arg.toNat := UInt64.lt_iff_toNat_lt.mp (UInt64.not_le.mp inlined)
    rw [headInfo, if_neg inlined]
    simp only [UInt64.le_iff_toNat_le, UInt64.reduceToNat]
    split
    · exact .inr (.inl ⟨large, by omega, rfl⟩)
    split
    · exact .inr (.inr (.inl ⟨by omega, by omega, rfl⟩))
    split
    · exact .inr (.inr (.inr (.inl ⟨by omega, by omega, rfl⟩)))
    · exact .inr (.inr (.inr (.inr ⟨by omega, by omega, rfl⟩)))

/-- The low bits of the wide forms, their widths and the largest argument of the next narrower form. -/
def wideForms : List (UInt8 × UInt64 × UInt64) :=
  [(24, 1, argInlineMax), (25, 2, 0xff), (26, 4, 0xffff), (27, 8, 0xffffffff)]

theorem headInfo_wide {info : UInt8} {width narrower : UInt64} (wide : (info, width, narrower) ∈ wideForms)
    (arg : UInt64) :
    (headInfo arg = info ↔ narrower < arg ∧ arg.toNat < 256 ^ width.toNat) ∧ headWidth info = width.toNat := by
  have forms := headInfo_cases arg
  simp only [wideForms, List.mem_cons, Prod.mk.injEq, List.not_mem_nil, or_false] at wide
  rw [← UInt8.toNat_inj, UInt64.lt_iff_toNat_lt]
  rcases wide with ⟨rfl, rfl, rfl⟩ | ⟨rfl, rfl, rfl⟩ | ⟨rfl, rfl, rfl⟩ | ⟨rfl, rfl, rfl⟩
  all_goals
    refine ⟨?_, rfl⟩
    simp only [argInlineMax, UInt64.reduceToNat, UInt8.reduceToNat]
    omega

/-- The argument behind the low bits is read where it stands in its shortest form. -/
theorem readArg_ok {info : UInt8} (short : buf.length < 2 ^ 64) (inside : pos ≤ buf.length) :
    readArg buf pos info = .ok (arg, next) ↔
      headInfo arg = info ∧ Consumes buf pos (beBytes (headWidth info) arg.toNat) next := by
  have forms := headInfo_cases arg
  have wide : ∀ {width narrower : UInt64}, (info, width, narrower) ∈ wideForms →
      (readWide buf pos width narrower = .ok (arg, next) ↔
        headInfo arg = info ∧ Consumes buf pos (beBytes (headWidth info) arg.toNat) next) := by
    intro width narrower listed
    obtain ⟨named, width_eq⟩ := headInfo_wide listed arg
    rw [named, width_eq, readWide_ok short inside]
    simp only [wideForms, List.mem_cons, Prod.mk.injEq, List.not_mem_nil, or_false] at listed
    rcases listed with ⟨_, rfl, _⟩ | ⟨_, rfl, _⟩ | ⟨_, rfl, _⟩ | ⟨_, rfl, _⟩ <;> decide
  unfold readArg
  split
  · rename_i inlined
    have small : info.toNat ≤ 23 := UInt8.le_iff_toNat_le.mp inlined
    rw [headWidth, if_pos inlined]
    constructor
    · intro read
      obtain ⟨rfl, rfl⟩ := Prod.mk.inj (Except.ok.inj read)
      rw [UInt8.toNat_toUInt64] at forms
      exact ⟨UInt8.toNat_inj.mp (by omega), List.nil_prefix, rfl⟩
    · rintro ⟨rfl, _, rfl⟩
      have same : (headInfo arg).toUInt64 = arg := UInt64.toNat_inj.mp (by rw [UInt8.toNat_toUInt64]; omega)
      rw [same]
  split
  · subst info
    exact wide (by decide)
  split
  · subst info
    exact wide (by decide)
  split
  · subst info
    exact wide (by decide)
  split
  · subst info
    exact wide (by decide)
  · rename_i inlined first second third fourth
    rw [← UInt8.toNat_inj] at first second third fourth
    simp only [UInt8.reduceToNat] at first second third fourth
    have large : ¬ info.toNat ≤ 23 := fun small => inlined (UInt8.le_iff_toNat_le.mpr small)
    constructor
    · intro refused
      cases refused
    · rintro ⟨rfl, _⟩
      omega

/-- A first byte is a major type above five low bits. -/
theorem firstByte_split : ∀ head < 256,
    (UInt8.ofNat head >>> majorShift) <<< majorShift ||| UInt8.ofNat head &&& 0x1f = UInt8.ofNat head ∧
      UInt8.ofNat head >>> majorShift < 8 := by
  decide +kernel

/-- A head is read where it stands. -/
theorem readHead_ok (short : buf.length < 2 ^ 64) :
    readHead buf pos = .ok ((major, arg), next) ↔ major < 8 ∧ Consumes buf pos (encodeHead major arg) next := by
  rw [encodeHead_eq, ← List.singleton_append, consumes_append]
  constructor
  · intro read
    unfold readHead at read
    split at read
    · cases read
    rename_i head stands
    obtain ⟨inside, present⟩ := List.getElem?_eq_some_iff.mp stands
    obtain ⟨⟨found, stop⟩, argued, done⟩ := bind_eq_ok.mp read
    obtain ⟨same, rfl⟩ := Prod.mk.inj (Except.ok.inj done)
    obtain ⟨rfl, rfl⟩ := Prod.mk.inj same
    obtain ⟨low, consumed⟩ := (readArg_ok short inside).mp argued
    obtain ⟨whole, small⟩ := firstByte_split head.toNat head.toNat_lt
    rw [UInt8.ofNat_toNat] at whole small
    rw [low, whole]
    refine ⟨small, pos + 1, ⟨?_, rfl⟩, consumed⟩
    rw [List.drop_eq_getElem_cons inside, present]
    exact ⟨_, rfl⟩
  · rintro ⟨small, middle, ⟨⟨rest, front⟩, rfl⟩, consumed⟩
    have inside : pos < buf.length := by
      by_contra beyond
      rw [List.drop_eq_nil_of_le (Nat.le_of_not_lt beyond)] at front
      cases front
    rw [List.drop_eq_getElem_cons inside, List.singleton_append] at front
    have stands : buf[pos]? = some (major <<< majorShift ||| headInfo arg) := by
      rw [List.getElem?_eq_getElem inside, (List.cons.inj front).1]
    obtain ⟨high, low⟩ := firstByte_parts major.toNat small (headInfo arg).toNat (headInfo_lt arg)
    rw [UInt8.ofNat_toNat, UInt8.ofNat_toNat] at high low
    have argued := (readArg_ok short inside).mpr ⟨rfl, consumed⟩
    unfold readHead
    rw [stands]
    dsimp only
    rw [high, low]
    exact bind_eq_ok.mpr ⟨_, argued, rfl⟩

/-- An unsigned integer is read exactly from its encoding. -/
theorem readUint_ok (short : buf.length < 2 ^ 64) :
    readUint buf pos = .ok (arg, next) ↔ Consumes buf pos (encode (.uint arg)) next := by
  rw [encode]
  constructor
  · intro read
    obtain ⟨⟨⟨major, found⟩, stop⟩, headed, read⟩ := bind_eq_ok.mp read
    obtain ⟨_, named, done⟩ := bind_eq_ok.mp read
    obtain ⟨rfl, rfl⟩ := Prod.mk.inj (Except.ok.inj done)
    obtain rfl : major = mtUint := require_ok.mp named
    exact ((readHead_ok short).mp headed).2
  · intro consumed
    have headed := (readHead_ok short).mpr ⟨by decide, consumed⟩
    exact bind_eq_ok.mpr ⟨_, headed, bind_eq_ok.mpr ⟨(), require_ok.mpr rfl, rfl⟩⟩

/-- A sized element is read where it stands. -/
theorem readSized_ok (short : buf.length < 2 ^ 64) (inside : pos ≤ buf.length) (small : major < 8) :
    readSized major buf pos = .ok (payload, next) ↔
      Consumes buf pos (encodeHead major (lenArg payload.length) ++ payload) next := by
  rw [consumes_append]
  constructor
  · intro read
    obtain ⟨⟨⟨found, len⟩, stop⟩, headed, read⟩ := bind_eq_ok.mp read
    obtain ⟨_, named, taken⟩ := bind_eq_ok.mp read
    obtain rfl : found = major := require_ok.mp named
    have head := ((readHead_ok short).mp headed).2
    obtain ⟨length, consumed⟩ := (readPayload_ok short (head.le_length inside)).mp taken
    refine ⟨stop, ?_, consumed⟩
    rw [length, lenArg, UInt64.ofNat_toNat]
    exact head
  · rintro ⟨stop, head, consumed⟩
    have headed := (readHead_ok short).mpr ⟨small, head⟩
    have stops := consumed.le_length (head.le_length inside)
    have length : payload.length = (lenArg payload.length).toNat := by
      have counted := consumed.2
      rw [lenArg, UInt64.toNat_ofNat_of_lt' (by simp only [UInt64.size]; omega)]
    have taken := (readPayload_ok short (head.le_length inside)).mpr ⟨length, consumed⟩
    exact bind_eq_ok.mpr ⟨_, headed, bind_eq_ok.mpr ⟨(), require_ok.mpr rfl, taken⟩⟩

theorem fromUtf8_ok {text : String} : fromUtf8 payload = .ok text ↔ payload = asBytes text := by
  rw [fromUtf8, elim_error_eq_ok, String.fromUTF8?]
  constructor
  · intro read
    split at read
    · obtain rfl := Option.some.inj read
      rfl
    · cases read
  · rintro rfl
    have same : (⟨(asBytes text).toArray⟩ : ByteArray) = text.toByteArray := by
      rw [asBytes, Array.toArray_toList]
      rfl
    rw [same, dif_pos text.isValidUTF8]
    rfl

end Readers

section Ceremony

/-- The elements of a ceremony stand one behind the other. -/
theorem consumes_reAnchor {buf : Bytes} {record : ReAnchorRecord} :
    Consumes buf 0 (canonicalCborReAnchorV1 record) buf.length ↔
      ∃ start domain hash sequence suite, Consumes buf 0 (encodeHead mtArray reAnchorV1Elements) start ∧
        Consumes buf start (encode (.text reAnchorV1Domain)) domain ∧
        Consumes buf domain (encode (.bytes record.priorChainHeadHash)) hash ∧
        Consumes buf hash (encode (.uint record.priorHeadSequence)) sequence ∧
        Consumes buf sequence (encode (.uint record.newSuiteTag)) suite ∧
        Consumes buf suite (encode (.text record.anchoredAt)) buf.length := by
  have elements : canonicalCborReAnchorV1 record = encodeHead mtArray reAnchorV1Elements ++
      (encode (.text reAnchorV1Domain) ++ (encode (.bytes record.priorChainHeadHash) ++
        (encode (.uint record.priorHeadSequence) ++ (encode (.uint record.newSuiteTag) ++
          encode (.text record.anchoredAt))))) := by
    have whole : encode (.array record.items) =
        encodeHead mtArray (lenArg record.items.length) ++ encodeEach record.items := by rw [encode]
    rw [canonicalCborReAnchorV1, whole, encodeEach_eq_flatMap]
    simp only [ReAnchorRecord.items, List.flatMap_cons, List.flatMap_nil, List.append_nil]
    rfl
  simp only [elements, consumes_append]
  constructor
  · rintro ⟨start, first, domain, second, hash, third, sequence, fourth, suite, fifth, sixth⟩
    exact ⟨start, domain, hash, sequence, suite, first, second, third, fourth, fifth, sixth⟩
  · rintro ⟨start, domain, hash, sequence, suite, first, second, third, fourth, fifth, sixth⟩
    exact ⟨start, first, domain, second, hash, third, sequence, fourth, suite, fifth, sixth⟩

/-- The decoder accepts a buffer as a record exactly when the buffer is the canonical encoding of the record. -/
theorem decodeReAnchorV1_canonical (buf : Blob) (record : ReAnchorRecord) :
    decodeReAnchorV1 buf = .ok record ↔ canonicalCborReAnchorV1 record = buf.bytes := by
  have short : buf.bytes.length < 2 ^ 64 := Nat.lt_trans buf.short (by decide)
  rw [← consumes_whole, consumes_reAnchor]
  constructor
  · intro decoded
    obtain ⟨⟨⟨major, count⟩, start⟩, headed, decoded⟩ := bind_eq_ok.mp decoded
    obtain ⟨_, isArray, decoded⟩ := bind_eq_ok.mp decoded
    obtain ⟨_, five, decoded⟩ := bind_eq_ok.mp decoded
    obtain ⟨⟨domain, afterDomain⟩, domainRead, decoded⟩ := bind_eq_ok.mp decoded
    obtain ⟨_, frozen, decoded⟩ := bind_eq_ok.mp decoded
    obtain ⟨⟨hash, afterHash⟩, hashRead, decoded⟩ := bind_eq_ok.mp decoded
    obtain ⟨⟨sequence, afterSequence⟩, sequenceRead, decoded⟩ := bind_eq_ok.mp decoded
    obtain ⟨⟨suite, afterSuite⟩, suiteRead, decoded⟩ := bind_eq_ok.mp decoded
    obtain ⟨⟨stamp, stop⟩, stampRead, decoded⟩ := bind_eq_ok.mp decoded
    obtain ⟨anchoredAt, isText, decoded⟩ := bind_eq_ok.mp decoded
    obtain ⟨_, whole, decoded⟩ := bind_eq_ok.mp decoded
    obtain rfl := Except.ok.inj decoded
    obtain rfl : major = mtArray := require_ok.mp isArray
    obtain rfl : count = reAnchorV1Elements := require_ok.mp five
    obtain rfl : domain = asBytes reAnchorV1Domain := require_ok.mp frozen
    obtain rfl : stop = buf.bytes.length := require_ok.mp whole
    obtain rfl := fromUtf8_ok.mp isText
    -- Every reader stays inside the buffer, so the next one may start where it stops.
    have first := ((readHead_ok short).mp headed).2
    have inFirst := first.le_length (Nat.zero_le _)
    have second := (readSized_ok short inFirst (by decide)).mp domainRead
    have inSecond := second.le_length inFirst
    have third := (readSized_ok short inSecond (by decide)).mp hashRead
    have inThird := third.le_length inSecond
    have fourth := (readUint_ok short).mp sequenceRead
    have fifth := (readUint_ok short).mp suiteRead
    have inFifth := fifth.le_length (fourth.le_length inThird)
    have sixth := (readSized_ok short inFifth (by decide)).mp stampRead
    simp only [encode]
    exact ⟨start, afterDomain, afterHash, afterSequence, afterSuite, first, second, third,
      by simpa only [encode] using fourth, by simpa only [encode] using fifth, sixth⟩
  · rintro ⟨start, afterDomain, afterHash, afterSequence, afterSuite, first, second, third, fourth, fifth, sixth⟩
    have inFirst := first.le_length (Nat.zero_le _)
    have inSecond := second.le_length inFirst
    have inThird := third.le_length inSecond
    have inFifth := fifth.le_length (fourth.le_length inThird)
    simp only [encode] at second third sixth
    have headed := (readHead_ok short).mpr ⟨by decide, first⟩
    have domainRead := (readSized_ok short inFirst (by decide)).mpr second
    have hashRead := (readSized_ok short inSecond (by decide)).mpr third
    have sequenceRead := (readUint_ok short).mpr fourth
    have suiteRead := (readUint_ok short).mpr fifth
    have stampRead := (readSized_ok short inFifth (by decide)).mpr sixth
    exact bind_eq_ok.mpr ⟨_, headed, bind_eq_ok.mpr ⟨(), require_ok.mpr rfl, bind_eq_ok.mpr ⟨(), require_ok.mpr rfl,
      bind_eq_ok.mpr ⟨_, domainRead, bind_eq_ok.mpr ⟨(), require_ok.mpr rfl, bind_eq_ok.mpr ⟨_, hashRead,
        bind_eq_ok.mpr ⟨_, sequenceRead, bind_eq_ok.mpr ⟨_, suiteRead, bind_eq_ok.mpr ⟨_, stampRead,
          bind_eq_ok.mpr ⟨_, fromUtf8_ok.mpr rfl, bind_eq_ok.mpr ⟨(), require_ok.mpr rfl, rfl⟩⟩⟩⟩⟩⟩⟩⟩⟩⟩⟩

example : decodeReAnchorV1 ⟨[0x85, 0x78, 0x05], by decide⟩ = .error .nonMinimalInt := by decide +kernel

/-- The wire tag of a suite. -/
inductive SuiteId where
  | ed25519Sha256
  deriving DecidableEq

def SuiteId.tag : SuiteId → UInt64
  | ed25519Sha256 => suiteEd25519Sha256

def SuiteId.fromTag (tag : UInt64) : Option SuiteId :=
  if tag = suiteEd25519Sha256 then some ed25519Sha256 else none

inductive SuiteError where
  | unknownTag (tag : UInt64)
  | tagMismatch (enrolled wire : UInt64)

/-- The tag on the wire is compared with the enrolled suite and never selects one. -/
def verifySuiteBinding (enrolled : SuiteId) (wireTag : UInt64) : Except SuiteError Unit :=
  match SuiteId.fromTag wireTag with
  | none => .error (.unknownTag wireTag)
  | some advisory => if advisory ≠ enrolled then .error (.tagMismatch enrolled.tag wireTag) else .ok ()

inductive ReAnchorError where
  | suite (error : SuiteError)
  | malformedSignature
  | signatureInvalid

def verifyReAnchor (newSuiteVerifyingKey : VerifyingKey) (enrolled : SuiteId) (record : ReAnchorRecord)
    (signature : Bytes) : Except ReAnchorError Unit := do
  (verifySuiteBinding enrolled record.newSuiteTag).mapError .suite
  match tryFromSlice signature with
  | none => .error .malformedSignature
  | some sig =>
      if newSuiteVerifyingKey.verifyStrict (canonicalCborReAnchorV1 record) sig then .ok ()
      else .error .signatureInvalid

/-- The binding is accepted exactly for the tag of the enrolled suite. -/
theorem verifySuiteBinding_ok {enrolled : SuiteId} {wireTag : UInt64} :
    verifySuiteBinding enrolled wireTag = .ok () ↔ wireTag = enrolled.tag := by
  cases enrolled
  unfold verifySuiteBinding SuiteId.fromTag
  by_cases known : wireTag = suiteEd25519Sha256 <;> simp [known, SuiteId.tag]

/-- The verifier judges the bytes that the record was read from. -/
theorem verifyReAnchor_ok {buf : Blob} {record : ReAnchorRecord} {key : VerifyingKey} {enrolled : SuiteId}
    {signature : Bytes} (whole : canonicalCborReAnchorV1 record = buf.bytes) :
    verifyReAnchor key enrolled record signature = .ok () ↔ record.newSuiteTag = enrolled.tag ∧
      ∃ sig, tryFromSlice signature = some sig ∧ key.verifyStrict buf.bytes sig = true := by
  rw [verifyReAnchor, whole, bind_eq_ok, ← verifySuiteBinding_ok]
  cases tryFromSlice signature with
  | none => simp
  | some sig =>
      have unit : ∀ (outcome : Except SuiteError Unit), (∃ value, outcome = .ok value) ↔ outcome = .ok () :=
        fun outcome => ⟨fun ⟨_, same⟩ => same, fun same => ⟨(), same⟩⟩
      cases valid : key.verifyStrict buf.bytes sig <;> simp [valid, mapError_eq_ok, unit]

/-- A buffer is a record exactly when it is the canonical encoding of the record, and a received ceremony verifies
exactly when its tag is the one of the enrolled suite and the signature covers the received bytes. -/
theorem received_reAnchor (buf : Blob) :
    (∀ record, decodeReAnchorV1 buf = .ok record ↔ canonicalCborReAnchorV1 record = buf.bytes) ∧
      ∀ (key : VerifyingKey) (enrolled : SuiteId) (signature : Bytes),
        (∃ record, decodeReAnchorV1 buf = .ok record ∧ verifyReAnchor key enrolled record signature = .ok ()) ↔
          (∃ record, canonicalCborReAnchorV1 record = buf.bytes ∧ record.newSuiteTag = enrolled.tag) ∧
            ∃ sig, tryFromSlice signature = some sig ∧ key.verifyStrict buf.bytes sig = true := by
  refine ⟨decodeReAnchorV1_canonical buf, fun key enrolled signature => ⟨?_, ?_⟩⟩
  · rintro ⟨record, decoded, verified⟩
    have whole := (decodeReAnchorV1_canonical buf record).mp decoded
    obtain ⟨bound, signed⟩ := (verifyReAnchor_ok whole).mp verified
    exact ⟨⟨record, whole, bound⟩, signed⟩
  · rintro ⟨⟨record, whole, bound⟩, signed⟩
    exact ⟨record, (decodeReAnchorV1_canonical buf record).mpr whole, (verifyReAnchor_ok whole).mpr ⟨bound, signed⟩⟩

end Ceremony
end AiMemory.CborArray
