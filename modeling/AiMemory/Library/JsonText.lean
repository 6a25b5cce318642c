import AiMemory.Library.PrefixCode

/-
This file develops the compact text of JSON strings, truth values and objects.
-/

namespace AiMemory.Library

namespace JsonText

def quote : UInt8 := 34

def backslash : UInt8 := 92

def colon : UInt8 := 58

def comma : UInt8 := 44

/-- The short escapes name a control byte, the quote or the backslash by one letter. -/
def shortEscape (byte : UInt8) : Option UInt8 :=
  if byte = 34 then some 34
  else if byte = 92 then some 92
  else if byte = 8 then some 98
  else if byte = 9 then some 116
  else if byte = 10 then some 110
  else if byte = 12 then some 102
  else if byte = 13 then some 114
  else none

def hexDigit (digit : UInt8) : UInt8 := if digit < 10 then 48 + digit else 87 + digit

/-- The other control bytes are written as four hexadecimal digits. -/
def escapeByte (byte : UInt8) : List UInt8 :=
  match shortEscape byte with
  | some letter => [backslash, letter]
  | none =>
      if byte < 32 then [backslash, 117, 48, 48, hexDigit (byte / 16), hexDigit (byte % 16)]
      else [byte]

/-- The bytes of a text between quotes. -/
def string (text : List UInt8) : List UInt8 := quote :: (text.flatMap escapeByte ++ [quote])

def bool (value : Bool) : List UInt8 := if value then [116, 114, 117, 101] else [102, 97, 108, 115, 101]

def member (key : List UInt8) (value : List UInt8) : List UInt8 := string key ++ colon :: value

/-- The members of an object stand between braces and commas. -/
def object (members : List (List UInt8 × List UInt8)) : List UInt8 :=
  123 :: ((members.map fun entry => member entry.1 entry.2).intersperse [comma]).flatten ++ [125]

section Reading

def shortUnescape (letter : UInt8) : Option UInt8 :=
  if letter = 34 then some 34
  else if letter = 92 then some 92
  else if letter = 98 then some 8
  else if letter = 116 then some 9
  else if letter = 110 then some 10
  else if letter = 102 then some 12
  else if letter = 114 then some 13
  else none

def unhexDigit (letter : UInt8) : UInt8 := if letter < 58 then letter - 48 else letter - 87

/-- The reader takes one byte or one escape off the front. -/
def readByte : List UInt8 → Option (UInt8 × List UInt8)
  | [] => none
  | head :: rest =>
      if head ≠ backslash then some (head, rest)
      else
        match rest with
        | letter :: rest =>
            match shortUnescape letter with
            | some byte => some (byte, rest)
            | none =>
                match rest with
                | _ :: _ :: upper :: lower :: rest => some (unhexDigit upper * 16 + unhexDigit lower, rest)
                | _ => none
        | [] => none

/-- A short escape is undone. -/
theorem shortUnescape_of_shortEscape {byte letter : UInt8} (short : shortEscape byte = some letter) :
    shortUnescape letter = some byte := by
  unfold shortEscape at short
  split_ifs at short
  all_goals
    obtain rfl := Option.some.inj short
    subst byte
    rfl

/-- The two digits of a control byte are undone. -/
theorem unhexDigit_control {byte : UInt8} (control : byte < 32) :
    unhexDigit (hexDigit (byte / 16)) * 16 + unhexDigit (hexDigit (byte % 16)) = byte := by
  have each : ∀ value < 32, unhexDigit (hexDigit (UInt8.ofNat value / 16)) * 16 +
      unhexDigit (hexDigit (UInt8.ofNat value % 16)) = UInt8.ofNat value := by decide
  have found := each byte.toNat (UInt8.lt_iff_toNat_lt.mp control)
  rwa [UInt8.ofNat_toNat] at found

/-- An escaped byte is read back. -/
theorem readByte_escapeByte (byte : UInt8) (rest : List UInt8) :
    readByte (escapeByte byte ++ rest) = some (byte, rest) := by
  unfold escapeByte
  cases short : shortEscape byte with
  | some letter =>
      have back := shortUnescape_of_shortEscape short
      simp [readByte, back]
  | none =>
      by_cases control : byte < 32
      · have back := unhexDigit_control control
        have unnamed : shortUnescape 117 = none := rfl
        simp [control, readByte, unnamed, back]
      · have plain : byte ≠ backslash := by
          intro same
          rw [same] at short
          cases short
        simp [control, readByte, plain]

/-- No escaped byte starts another. -/
theorem escapeByte_code : PrefixCode escapeByte := .of_reader readByte_escapeByte

/-- No byte of a text starts with a closing quote. -/
theorem escapeByte_starts (byte : UInt8) : ∃ head tail, escapeByte byte = head :: tail ∧ head ≠ quote := by
  unfold escapeByte
  cases short : shortEscape byte with
  | some letter => exact ⟨backslash, [letter], rfl, by decide⟩
  | none =>
      by_cases control : byte < 32
      · exact ⟨backslash, _, if_pos control, by decide⟩
      · refine ⟨byte, [], if_neg control, ?_⟩
        intro same
        rw [same] at short
        cases short

end Reading

/-- No written string starts another. -/
theorem string_code : PrefixCode string := by
  intro first second firstRest secondRest same
  exact (escapeByte_code.terminated escapeByte_starts) first second firstRest secondRest
    (List.tail_eq_of_cons_eq same)

theorem bool_code : PrefixCode bool := by
  intro first second firstRest secondRest same
  cases first <;> cases second
  · exact ⟨rfl, List.append_cancel_left same⟩
  · simp [bool] at same
  · simp [bool] at same
  · exact ⟨rfl, List.append_cancel_left same⟩

/-- Two members of one key differ only after the colon. -/
theorem member_cancel {key first second firstRest secondRest : List UInt8}
    (same : member key first ++ firstRest = member key second ++ secondRest) :
    first ++ firstRest = second ++ secondRest := by
  unfold member at same
  simpa using same

end JsonText
end AiMemory.Library
