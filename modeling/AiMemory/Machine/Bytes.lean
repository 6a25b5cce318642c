import AiMemory.Library.PrefixCode
import Mathlib.Algebra.Order.Ring.Nat
import Mathlib.Data.Nat.ModEq

/-
This file fixes byte strings, texts and their big-endian length prefixes and the interface of the signature library.
-/

namespace AiMemory.Machine
open AiMemory.Library

abbrev Bytes := List UInt8

def utf8 (text : String) : Bytes := text.toUTF8.data.toList

theorem utf8_injective : Function.Injective utf8 := by
  intro first second same
  rw [← String.toByteArray_inj]
  exact ByteArray.ext (Array.ext' same)

/-- An allocation holds fewer than 2 ^ 63 bytes. -/
structure Blob where
  bytes : Bytes
  short : bytes.length < 2 ^ 63
  deriving DecidableEq

/-- A text is an allocation of its UTF-8 bytes. -/
structure Text where
  text : String
  short : text.toUTF8.data.toList.length < 2 ^ 63
  deriving DecidableEq

/-- A slice is an allocation of fewer than 2 ^ 63 items. -/
structure Slice (Item : Type) where
  items : List Item
  short : items.length < 2 ^ 63

/-- A digest has 32 bytes. -/
abbrev Digest := {bytes : Bytes // bytes.length = 32}

/-- The digest separates the inputs that a run hashes. -/
def CollisionFree (sha256 : Bytes → Digest) (inputs : List Bytes) : Prop :=
  ∀ first ∈ inputs, ∀ second ∈ inputs, sha256 first = sha256 second → first = second

instance (sha256 : Bytes → Digest) (inputs : List Bytes) : Decidable (CollisionFree sha256 inputs) :=
  inferInstanceAs (Decidable (∀ _ ∈ _, ∀ _ ∈ _, _ → _))

/-- Fewer inputs have no collision either. -/
theorem CollisionFree.mono {sha256 : Bytes → Digest} {inputs fewer : List Bytes}
    (collisionFree : CollisionFree sha256 inputs) (subset : fewer ⊆ inputs) :
    CollisionFree sha256 fewer := fun first present second held =>
  collisionFree first (subset present) second (subset held)

namespace Blob

def empty : Blob := ⟨[], by decide⟩

@[ext] theorem ext {first second : Blob} (same : first.bytes = second.bytes) : first = second := by
  cases first
  cases second
  simpa using same

def ofDigest (digest : Digest) : Blob := ⟨digest.1, by rw [digest.2]; decide⟩

end Blob

namespace Text

def toBlob (text : Text) : Blob := ⟨text.text.toUTF8.data.toList, text.short⟩

theorem toBlob_injective : Function.Injective toBlob := by
  rintro ⟨first, _⟩ ⟨second, _⟩ same
  have texts : first = second := utf8_injective (congrArg Blob.bytes same)
  subst texts
  rfl

end Text

/-- The big-endian digits of a number in a fixed number of bytes. -/
def beBytes : Nat → Nat → Bytes
  | 0, _ => []
  | width + 1, value => beBytes width (value / 256) ++ [UInt8.ofNat value]

@[simp] theorem length_beBytes (width value : Nat) : (beBytes width value).length = width := by
  induction width generalizing value with
  | zero => rfl
  | succ width ih => simp [beBytes, ih]

/-- The digits determine the number up to the capacity of its bytes. -/
theorem beBytes_inj {width first second : Nat} (same : beBytes width first = beBytes width second) :
    first % 256 ^ width = second % 256 ^ width := by
  induction width generalizing first second with
  | zero => simp [Nat.mod_one]
  | succ width ih =>
      obtain ⟨heads, lasts⟩ := List.append_inj same (by simp)
      have upper := ih heads
      have lower : first % 256 = second % 256 := by
        have digits := congrArg UInt8.toNat (List.singleton_inj.mp lasts)
        simpa using digits
      rw [Nat.pow_succ', Nat.mod_mul, Nat.mod_mul, lower, upper]

/-- The little-endian digits of a number in a fixed number of bytes. -/
def leBytes : Nat → Nat → Bytes
  | 0, _ => []
  | width + 1, value => UInt8.ofNat value :: leBytes width (value / 256)

def leValue : Bytes → Nat
  | [] => 0
  | byte :: rest => byte.toNat + 256 * leValue rest

@[simp] theorem length_leBytes (width value : Nat) : (leBytes width value).length = width := by
  induction width generalizing value with
  | zero => rfl
  | succ width ih => simp [leBytes, ih]

/-- The digits read back as the number up to the capacity of their bytes. -/
theorem leValue_leBytes (width value : Nat) : leValue (leBytes width value) = value % 256 ^ width := by
  induction width generalizing value with
  | zero => simp [leBytes, leValue, Nat.mod_one]
  | succ width ih =>
      have low : (UInt8.ofNat value).toNat = value % 256 := UInt8.toNat_ofNat'
      rw [leBytes, leValue, ih, low, Nat.pow_succ', Nat.mod_mul]

/-- A number writes a digest in 32 bytes. -/
def digestOf (number : Nat) : Digest := ⟨beBytes 32 number, length_beBytes 32 number⟩

/-- A table fixes the digests of the inputs of one run. -/
def digestOfTable (table : List (Bytes × Nat)) (bytes : Bytes) : Digest :=
  digestOf (((table.find? fun entry => entry.1 = bytes).map Prod.snd).getD 0)

/-- The length prefix writes eight bytes before the field. -/
def lengthPrefixed (blob : Blob) : Bytes := beBytes 8 blob.bytes.length ++ blob.bytes

/-- A word with its length in front is a prefix code. -/
theorem lengthPrefixed_code : PrefixCode lengthPrefixed := by
  refine PrefixCode.with_length ?_ (fun _ _ => Blob.ext) fun _ => rfl
  intro first second firstRest secondRest same
  obtain ⟨headers, rests⟩ := List.append_inj same (by simp)
  have lengths := beBytes_inj headers
  have firstShort := first.short
  have secondShort := second.short
  rw [Nat.mod_eq_of_lt (by omega), Nat.mod_eq_of_lt (by omega)] at lengths
  exact ⟨lengths, rests⟩

def lengthPrefixedText (text : Text) : Bytes := lengthPrefixed text.toBlob

/-- A text with its length in front is a prefix code. -/
theorem lengthPrefixedText_code : PrefixCode lengthPrefixedText :=
  lengthPrefixed_code.comp Text.toBlob_injective

/-- A signed word writes its two's complement in eight bytes. -/
def i64BeBytes (word : Int64) : Bytes := beBytes 8 word.toBitVec.toNat

/-- Eight bytes of a number are a prefix code. -/
theorem i64BeBytes_code : PrefixCode i64BeBytes := by
  refine PrefixCode.of_width ?_ fun _ => length_beBytes 8 _
  intro first second same
  have words := beBytes_inj same
  have firstShort := first.toBitVec.isLt
  have secondShort := second.toBitVec.isLt
  rw [Nat.mod_eq_of_lt (by omega), Nat.mod_eq_of_lt (by omega)] at words
  exact Int64.toBitVec_inj.mp (BitVec.eq_of_toNat_eq words)

/-- An optional field writes a presence tag first. -/
def optionalField : Option Blob → Bytes
  | some field => 1 :: lengthPrefixed field
  | none => [0]

/-- An optional field is a prefix code. -/
theorem optionalField_code : PrefixCode optionalField := by
  have tagged : optionalField = fun field => field.elim [0] fun field => 1 :: lengthPrefixed field := by
    funext field
    cases field <;> rfl
  rw [tagged]
  exact lengthPrefixed_code.option (by decide)

/-- An Ed25519 signature has 64 bytes. -/
abbrev SignatureBytes := {bytes : Bytes // bytes.length = 64}

/-- A column holds a signature when it has exactly 64 bytes. -/
def tryFromSlice (bytes : Bytes) : Option SignatureBytes :=
  if exact : bytes.length = 64 then some ⟨bytes, exact⟩ else none

/-- A key accepts a signature over a message or rejects it. -/
structure VerifyingKey where
  toBytes : Digest
  verifyStrict : Bytes → SignatureBytes → Bool

end AiMemory.Machine
