import Mathlib.Data.String.Basic

/-
This file fixes how the standard library strips, trims and prints texts.
-/

namespace AiMemory.Machine

def hexDigits (number : Nat) : String := String.ofList (Nat.toDigits 16 number)

/-- The Unicode tables tell the characters that stand for themselves. -/
def escapeDebug (plain : Char → Bool) (char : Char) : String :=
  match char with
  | '\x00' => "\\0"
  | '\t' => "\\t"
  | '\r' => "\\r"
  | '\n' => "\\n"
  | '\\' => "\\\\"
  | '"' => "\\\""
  | char => if plain char then char.toString else "\\u\x7b" ++ hexDigits char.toNat ++ "\x7d"

def strDebug (plain : Char → Bool) (text : String) : String :=
  "\"" ++ String.join (text.toList.map (escapeDebug plain)) ++ "\""

def stripPrefix (start text : String) : Option String :=
  if start.toList <+: text.toList then some (String.ofList (text.toList.drop start.toList.length)) else none

def stripSuffix (ending text : String) : Option String :=
  if ending.toList <:+ text.toList then
    some (String.ofList (text.toList.take (text.toList.length - ending.toList.length)))
  else none

/-- The characters of the Unicode property White_Space. -/
def isWhitespace (char : Char) : Bool :=
  (9 ≤ char.toNat ∧ char.toNat ≤ 13) ∨ (0x2000 ≤ char.toNat ∧ char.toNat ≤ 0x200A) ∨
    char.toNat ∈ [0x20, 0x85, 0xA0, 0x1680, 0x2028, 0x2029, 0x202F, 0x205F, 0x3000]

/-- Nothing is left of the text after a trim. -/
def blank (text : String) : Bool := text.toList.all isWhitespace

theorem blank_append (first second : String) : blank (first ++ second) = (blank first && blank second) := by
  rw [blank, String.toList_append, List.all_append]
  rfl

theorem stripPrefix_append (start text : String) : stripPrefix start (start ++ text) = some text := by
  unfold stripPrefix
  rw [if_pos (by rw [String.toList_append]; exact List.prefix_append _ _), String.toList_append,
    List.drop_left, String.ofList_toList]

theorem stripSuffix_append (text ending : String) : stripSuffix ending (text ++ ending) = some text := by
  unfold stripSuffix
  rw [if_pos (by rw [String.toList_append]; exact List.suffix_append _ _), String.toList_append,
    List.length_append, Nat.add_sub_cancel, List.take_left, String.ofList_toList]

/-- A suffix is stripped exactly where the text ends with it. -/
theorem stripSuffix_eq_some {ending text rest : String} :
    stripSuffix ending text = some rest ↔ text = rest ++ ending := by
  constructor
  · intro stripped
    unfold stripSuffix at stripped
    split at stripped
    · rename_i ends
      obtain ⟨front, split⟩ := ends
      have whole : text.toList.length - ending.toList.length = front.length := by
        rw [← split, List.length_append, Nat.add_sub_cancel]
      rw [whole, ← split, List.take_left] at stripped
      rw [← Option.some.inj stripped, String.ext_iff, String.toList_append, String.toList_ofList, split]
    · cases stripped
  · rintro rfl
    exact stripSuffix_append rest ending

end AiMemory.Machine
