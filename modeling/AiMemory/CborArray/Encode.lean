import AiMemory.Machine.Bytes

/-
This file proves that the array profile of CBOR is uniquely decodable.
-/

namespace AiMemory.CborArray
open AiMemory.Machine AiMemory.Library

def mtUint : UInt8 := 0
def mtNint : UInt8 := 1
def mtBytes : UInt8 := 2
def mtText : UInt8 := 3
def mtArray : UInt8 := 4

def argInlineMax : UInt64 := 23
def ai1Byte : UInt8 := 24
def ai2Byte : UInt8 := 25
def ai4Byte : UInt8 := 26
def ai8Byte : UInt8 := 27

def majorShift : UInt8 := 5

/-- The head writes the magnitude of its argument in the shortest bucket. -/
def encodeHead (major : UInt8) (arg : UInt64) : Bytes :=
  let mt := major <<< majorShift
  if arg ≤ argInlineMax then [mt ||| arg.toUInt8]
  else if arg ≤ 0xff then [mt ||| ai1Byte, arg.toUInt8]
  else if arg ≤ 0xffff then (mt ||| ai2Byte) :: beBytes 2 arg.toNat
  else if arg ≤ 0xffffffff then (mt ||| ai4Byte) :: beBytes 4 arg.toNat
  else (mt ||| ai8Byte) :: beBytes 8 arg.toNat

/-- A collection has fewer than 2 ^ 64 entries on the supported targets. -/
def lenArg (len : Nat) : UInt64 := UInt64.ofNat len

def asBytes (text : String) : Bytes := text.toUTF8.data.toList

/-- The profile has no other value shapes. -/
inductive CborItem where
  | uint (value : UInt64)
  | nint (argument : UInt64)
  | text (value : String)
  | bytes (value : Bytes)
  | array (items : List CborItem)

mutual

/-- The bytes that one item appends. -/
def encode : CborItem → Bytes
  | .uint value => encodeHead mtUint value
  | .nint argument => encodeHead mtNint argument
  | .text value => encodeHead mtText (lenArg (asBytes value).length) ++ asBytes value
  | .bytes value => encodeHead mtBytes (lenArg value.length) ++ value
  | .array items => encodeHead mtArray (lenArg items.length) ++ encodeEach items

/-- The bytes that the items of an array append in order. -/
def encodeEach : List CborItem → Bytes
  | [] => []
  | item :: items => encode item ++ encodeEach items

end

/-- The payloads and the array lengths of the item fit in a machine word. -/
inductive CborItem.Fits : CborItem → Prop
  | uint (value : UInt64) : Fits (.uint value)
  | nint (argument : UInt64) : Fits (.nint argument)
  | text {value : String} (short : (asBytes value).length < 2 ^ 64) : Fits (.text value)
  | bytes {value : Bytes} (short : value.length < 2 ^ 64) : Fits (.bytes value)
  | array {items : List CborItem} (short : items.length < 2 ^ 64) (each : ∀ item ∈ items, Fits item) :
      Fits (.array items)

section Head

/-- The five low bits of the first byte. -/
def headInfo (arg : UInt64) : UInt8 :=
  if arg ≤ argInlineMax then arg.toUInt8
  else if arg ≤ 0xff then ai1Byte
  else if arg ≤ 0xffff then ai2Byte
  else if arg ≤ 0xffffffff then ai4Byte
  else ai8Byte

/-- The number of bytes after the first byte. -/
def headWidth (info : UInt8) : Nat :=
  if info ≤ 23 then 0 else if info = ai1Byte then 1 else if info = ai2Byte then 2
  else if info = ai4Byte then 4 else 8

/-- The argument is the low bits themselves or the number in the bytes after them. -/
def headArg (info : UInt8) (tail : Nat) : Nat := if info ≤ 23 then info.toNat else tail

/-- An inline argument is its own low byte. -/
theorem toUInt8_inline {arg : UInt64} (inlined : arg ≤ argInlineMax) :
    arg.toUInt8 ≤ 23 ∧ arg.toUInt8.toNat = arg.toNat := by
  have small : arg.toNat ≤ 23 := UInt64.le_iff_toNat_le.mp inlined
  have low : arg.toUInt8.toNat = arg.toNat := by
    rw [UInt64.toNat_toUInt8]
    omega
  exact ⟨UInt8.le_iff_toNat_le.mpr (by rw [low]; exact small), low⟩

/-- The head of an item is its major type with the short form of its argument. -/
theorem encodeHead_eq (major : UInt8) (arg : UInt64) :
    encodeHead major arg =
      (major <<< majorShift ||| headInfo arg) :: beBytes (headWidth (headInfo arg)) arg.toNat := by
  unfold encodeHead headInfo
  split
  · rename_i inlined
    rw [headWidth, if_pos (toUInt8_inline inlined).1]
    rfl
  split
  · have low : UInt8.ofNat arg.toNat = arg.toUInt8 := rfl
    simp [headWidth, ai1Byte, beBytes, low]
  split
  · rfl
  split
  · rfl
  · rfl

/-- The low bits and the bytes after them determine the argument. -/
theorem headArg_headInfo (arg : UInt64) :
    headArg (headInfo arg) (arg.toNat % 256 ^ headWidth (headInfo arg)) = arg.toNat := by
  have word := arg.toNat_lt
  unfold headInfo
  split
  · rename_i inlined
    obtain ⟨low, same⟩ := toUInt8_inline inlined
    rw [headArg, if_pos low, same]
  split
  · rename_i short
    have short : arg.toNat ≤ 0xff := UInt64.le_iff_toNat_le.mp short
    exact Nat.mod_eq_of_lt (show arg.toNat < 256 ^ 1 by omega)
  split
  · rename_i short
    have short : arg.toNat ≤ 0xffff := UInt64.le_iff_toNat_le.mp short
    exact Nat.mod_eq_of_lt (show arg.toNat < 256 ^ 2 by omega)
  split
  · rename_i short
    have short : arg.toNat ≤ 0xffffffff := UInt64.le_iff_toNat_le.mp short
    exact Nat.mod_eq_of_lt (show arg.toNat < 256 ^ 4 by omega)
  · exact Nat.mod_eq_of_lt (show arg.toNat < 256 ^ 8 by omega)

theorem headInfo_lt (arg : UInt64) : headInfo arg < 32 := by
  unfold headInfo
  split
  · rename_i inlined
    exact UInt8.lt_of_le_of_lt (toUInt8_inline inlined).1 (by decide)
  split
  · decide
  split
  · decide
  split <;> decide

/-- The first byte holds the major type above the low bits. -/
theorem firstByte_parts : ∀ major < 8, ∀ info < 32,
    (UInt8.ofNat major <<< majorShift ||| UInt8.ofNat info) >>> majorShift = UInt8.ofNat major ∧
      (UInt8.ofNat major <<< majorShift ||| UInt8.ofNat info) &&& 31 = UInt8.ofNat info := by
  decide

/-- A head can be read off the front of a longer word. -/
theorem encodeHead_inj {major other : UInt8} {arg otherArg : UInt64} {rest otherRest : Bytes}
    (small : major < 8) (otherSmall : other < 8)
    (same : encodeHead major arg ++ rest = encodeHead other otherArg ++ otherRest) :
    major = other ∧ arg = otherArg ∧ rest = otherRest := by
  rw [encodeHead_eq, encodeHead_eq, List.cons_append, List.cons_append, List.cons.injEq] at same
  obtain ⟨firsts, tails⟩ := same
  have parts := firstByte_parts major.toNat small (headInfo arg).toNat (headInfo_lt arg)
  have otherParts := firstByte_parts other.toNat otherSmall (headInfo otherArg).toNat (headInfo_lt otherArg)
  simp only [UInt8.ofNat_toNat] at parts otherParts
  have majors : major = other := by rw [← parts.1, firsts, otherParts.1]
  have infos : headInfo arg = headInfo otherArg := by rw [← parts.2, firsts, otherParts.2]
  rw [infos] at tails
  obtain ⟨digits, rests⟩ := List.append_inj tails (by simp)
  have args : arg.toNat = otherArg.toNat := by
    rw [← headArg_headInfo arg, ← headArg_headInfo otherArg, infos, beBytes_inj digits]
  exact ⟨majors, UInt64.toNat_inj.mp args, rests⟩

end Head

section Item

theorem encodeEach_eq_flatMap (items : List CborItem) : encodeEach items = items.flatMap encode := by
  induction items with
  | nil => rfl
  | cons item items ih => rw [encodeEach, ih, List.flatMap_cons]

/-- The arguments of two lengths that fit are equal only for equal lengths. -/
theorem lenArg_inj {first second : Nat} (firstShort : first < 2 ^ 64) (secondShort : second < 2 ^ 64)
    (same : lenArg first = lenArg second) : first = second := by
  have words := congrArg UInt64.toNat same
  rwa [lenArg, lenArg, UInt64.toNat_ofNat_of_lt' firstShort, UInt64.toNat_ofNat_of_lt' secondShort] at words

theorem asBytes_injective : Function.Injective asBytes := fun first second same => by
  rw [← String.toByteArray_inj]
  exact ByteArray.ext (Array.ext' same)

/-- The payload after a length head reads back. -/
theorem sized_inj {major : UInt8} (small : major < 8) {first second rest otherRest : Bytes}
    (firstShort : first.length < 2 ^ 64) (secondShort : second.length < 2 ^ 64)
    (same : encodeHead major (lenArg first.length) ++ first ++ rest =
      encodeHead major (lenArg second.length) ++ second ++ otherRest) :
    first = second ∧ rest = otherRest := by
  rw [List.append_assoc, List.append_assoc] at same
  obtain ⟨_, lengths, payloads⟩ := encodeHead_inj small small same
  exact List.append_inj payloads (lenArg_inj firstShort secondShort lengths)

/-- The major type that an item writes. -/
def CborItem.major : CborItem → UInt8
  | .uint _ => mtUint
  | .nint _ => mtNint
  | .text _ => mtText
  | .bytes _ => mtBytes
  | .array _ => mtArray

theorem CborItem.major_lt (item : CborItem) : item.major < 8 := by
  cases item <;> simp only [major] <;> decide

/-- Every item starts with the head of its major type. -/
theorem encode_eq_head (item : CborItem) :
    ∃ arg tail, encode item = encodeHead item.major arg ++ tail := by
  cases item with
  | uint value => exact ⟨value, [], by rw [encode, List.append_nil]; rfl⟩
  | nint argument => exact ⟨argument, [], by rw [encode, List.append_nil]; rfl⟩
  | text value => exact ⟨_, _, by rw [encode]; rfl⟩
  | bytes value => exact ⟨_, _, by rw [encode]; rfl⟩
  | array items => exact ⟨_, _, by rw [encode]; rfl⟩

/-- Items with one encoding have one major type. -/
theorem major_eq {first second : CborItem} {firstRest secondRest : Bytes}
    (same : encode first ++ firstRest = encode second ++ secondRest) : first.major = second.major := by
  obtain ⟨arg, tail, head⟩ := encode_eq_head first
  obtain ⟨otherArg, otherTail, otherHead⟩ := encode_eq_head second
  rw [head, otherHead, List.append_assoc, List.append_assoc] at same
  exact (encodeHead_inj first.major_lt second.major_lt same).1

/-- Every item that fits reads back. -/
theorem encode_readsBack (first : CborItem) (fits : first.Fits) :
    ReadsBack encode CborItem.Fits first := by
  induction fits with
  | uint value =>
      intro second permitted firstRest secondRest same
      have majors := major_eq same
      cases permitted with
      | uint other =>
          obtain ⟨_, rfl, rests⟩ := encodeHead_inj (by decide) (by decide) same
          exact ⟨rfl, rests⟩
      | _ => exact absurd majors (by simp only [CborItem.major]; decide)
  | nint argument =>
      intro second permitted firstRest secondRest same
      have majors := major_eq same
      cases permitted with
      | nint other =>
          obtain ⟨_, rfl, rests⟩ := encodeHead_inj (by decide) (by decide) same
          exact ⟨rfl, rests⟩
      | _ => exact absurd majors (by simp only [CborItem.major]; decide)
  | text short =>
      intro second permitted firstRest secondRest same
      have majors := major_eq same
      cases permitted with
      | text otherShort =>
          obtain ⟨payloads, rests⟩ := sized_inj (by decide) short otherShort same
          obtain rfl := asBytes_injective payloads
          exact ⟨rfl, rests⟩
      | _ => exact absurd majors (by simp only [CborItem.major]; decide)
  | bytes short =>
      intro second permitted firstRest secondRest same
      have majors := major_eq same
      cases permitted with
      | bytes otherShort =>
          obtain ⟨rfl, rests⟩ := sized_inj (by decide) short otherShort same
          exact ⟨rfl, rests⟩
      | _ => exact absurd majors (by simp only [CborItem.major]; decide)
  | array short each ih =>
      intro second permitted firstRest secondRest same
      have majors := major_eq same
      cases permitted with
      | array otherShort otherEach =>
          rw [encode, encode, List.append_assoc, List.append_assoc, encodeEach_eq_flatMap,
            encodeEach_eq_flatMap] at same
          -- The head fixes the number of items, so the items read back one after another.
          obtain ⟨_, lengths, bodies⟩ := encodeHead_inj (by decide) (by decide) same
          obtain ⟨rfl, rests⟩ := ReadsBack.flatMap ih otherEach (lenArg_inj short otherShort lengths) bodies
          exact ⟨rfl, rests⟩
      | _ => exact absurd majors (by simp only [CborItem.major]; decide)

/-- The profile is a prefix code on the items that fit. -/
theorem encode_prefixCode : PrefixCode fun item : {item : CborItem // item.Fits} => encode item.1 :=
  PrefixCode.of_readsBack encode_readsBack

example : encode (.array [.uint 500, .nint 0, .bytes [7]]) = [0x83, 0x19, 0x01, 0xf4, 0x20, 0x41, 0x07] := by
  decide

end Item
end AiMemory.CborArray
