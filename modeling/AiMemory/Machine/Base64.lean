import AiMemory.Machine.Bytes

/-
This file fixes the base64 text of bytes with the standard alphabet and padding.
-/

namespace AiMemory.Machine

namespace Base64

def alphabet : List Char := "ABCDEFGHIJKLMNOPQRSTUVWXYZabcdefghijklmnopqrstuvwxyz0123456789+/".toList

def charOf (index : Nat) : Char := alphabet.getD index '='

def indexOf (char : Char) : Option Nat := alphabet.idxOf? char

/-- Three bytes are written as four letters. -/
def encodeChars : Bytes → List Char
  | [] => []
  | [first] => [charOf (first.toNat / 4), charOf (first.toNat % 4 * 16), '=', '=']
  | [first, second] =>
      [charOf (first.toNat / 4), charOf (first.toNat % 4 * 16 + second.toNat / 16),
        charOf (second.toNat % 16 * 4), '=']
  | first :: second :: third :: rest =>
      charOf (first.toNat / 4) :: charOf (first.toNat % 4 * 16 + second.toNat / 16) ::
        charOf (second.toNat % 16 * 4 + third.toNat / 64) :: charOf (third.toNat % 64) :: encodeChars rest

def encode (bytes : Bytes) : String := String.ofList (encodeChars bytes)

/-- Only the last group is padded, and the bits that padding leaves over are zero. -/
def decodeGroup (first second third fourth : Char) (last : Bool) : Option Bytes := do
  let upper ← indexOf first
  let next ← indexOf second
  let head := UInt8.ofNat (upper * 4 + next / 16)
  if last ∧ third = '=' ∧ fourth = '=' then
    if next % 16 = 0 then some [head] else none
  else
    let lower ← indexOf third
    let middle := UInt8.ofNat (next % 16 * 16 + lower / 4)
    if last ∧ fourth = '=' then
      if lower % 4 = 0 then some [head, middle] else none
    else
      let final ← indexOf fourth
      return [head, middle, UInt8.ofNat (lower % 4 * 64 + final)]

def decodeChars : List Char → Option Bytes
  | [] => some []
  | first :: second :: third :: fourth :: rest => do
      let group ← decodeGroup first second third fourth rest.isEmpty
      let bytes ← decodeChars rest
      return group ++ bytes
  | _ => none

def decode (text : String) : Option Bytes := decodeChars text.toList

/-- A letter of the alphabet is read back as its index. -/
theorem indexOf_charOf {index : Nat} (short : index < 64) : indexOf (charOf index) = some index := by
  have table : ∀ index < 64, indexOf (charOf index) = some index := by decide +kernel
  exact table index short

theorem charOf_ne_pad {index : Nat} (short : index < 64) : charOf index ≠ '=' := by
  have table : ∀ index < 64, charOf index ≠ '=' := by decide +kernel
  exact table index short

theorem ofNat_eq (byte : UInt8) {number : Nat} (same : number = byte.toNat) : UInt8.ofNat number = byte := by
  rw [same, UInt8.ofNat_toNat]

/-- A last byte is decoded from two letters. -/
theorem decodeGroup_one (first : UInt8) :
    decodeGroup (charOf (first.toNat / 4)) (charOf (first.toNat % 4 * 16)) '=' '=' true = some [first] := by
  have size := first.toNat_lt
  unfold decodeGroup
  rw [indexOf_charOf (by omega), indexOf_charOf (by omega)]
  simp only [Option.bind_eq_bind, Option.bind_some, and_self, if_true]
  rw [if_pos (by omega), ofNat_eq first (by omega)]

/-- Two last bytes are decoded from three letters. -/
theorem decodeGroup_two (first second : UInt8) :
    decodeGroup (charOf (first.toNat / 4)) (charOf (first.toNat % 4 * 16 + second.toNat / 16))
      (charOf (second.toNat % 16 * 4)) '=' true = some [first, second] := by
  have size := first.toNat_lt
  have secondSize := second.toNat_lt
  have pad : charOf (second.toNat % 16 * 4) ≠ '=' := charOf_ne_pad (by omega)
  unfold decodeGroup
  rw [indexOf_charOf (by omega), indexOf_charOf (by omega), indexOf_charOf (by omega)]
  simp only [Option.bind_eq_bind, Option.bind_some, pad, false_and, and_false, if_false, and_self, if_true]
  rw [if_pos (by omega), ofNat_eq first (by omega), ofNat_eq second (by omega)]

/-- Three bytes are decoded from four letters. -/
theorem decodeGroup_three (first second third : UInt8) (last : Bool) :
    decodeGroup (charOf (first.toNat / 4)) (charOf (first.toNat % 4 * 16 + second.toNat / 16))
      (charOf (second.toNat % 16 * 4 + third.toNat / 64)) (charOf (third.toNat % 64)) last =
      some [first, second, third] := by
  have size := first.toNat_lt
  have secondSize := second.toNat_lt
  have thirdSize := third.toNat_lt
  have pad : charOf (third.toNat % 64) ≠ '=' := charOf_ne_pad (by omega)
  unfold decodeGroup
  rw [indexOf_charOf (by omega), indexOf_charOf (by omega), indexOf_charOf (by omega),
    indexOf_charOf (by omega)]
  simp only [Option.bind_eq_bind, Option.bind_some, pad, and_false, if_false]
  rw [ofNat_eq first (by omega), ofNat_eq second (by omega), ofNat_eq third (by omega)]
  rfl

/-- What is encoded is decoded again. -/
theorem decodeChars_encodeChars (bytes : Bytes) : decodeChars (encodeChars bytes) = some bytes := by
  induction bytes using encodeChars.induct with
  | case1 => rfl
  | case2 first =>
      rw [encodeChars, decodeChars, List.isEmpty_nil, decodeGroup_one]
      rfl
  | case3 first second =>
      rw [encodeChars, decodeChars, List.isEmpty_nil, decodeGroup_two]
      rfl
  | case4 first second third rest ih =>
      rw [encodeChars, decodeChars, decodeGroup_three, ih]
      rfl

/-- The text of the bytes reads back as the bytes. -/
theorem decode_encode (bytes : Bytes) : decode (encode bytes) = some bytes := by
  rw [decode, encode, String.toList_ofList, decodeChars_encodeChars]

end Base64
end AiMemory.Machine
