import AiMemory.Crdt.Json
import AiMemory.Library.PrefixCode
import AiMemory.Machine.Bytes
import AiMemory.Machine.Chrono

/-
This file embeds the rows of the forensic log and their hashes.
-/

namespace AiMemory.ForensicLog
open AiMemory.Crdt AiMemory.Library AiMemory.Machine

def chainHeadPrevHash : String := "0000000000000000000000000000000000000000000000000000000000000000"

def forensicFilePrefix : String := "forensic-"

def forensicFileSuffix : String := ".jsonl"

structure ForensicDecision where
  ts : String
  actor : String
  decision : String
  kind : String
  ruleId : String
  payload : Json
  prevHash : String
  sig : String

/-- The serializer writes a row as one line of JSON and reads such a line. -/
structure Serde where
  toString : ForensicDecision → String
  fromStr : String → Except String ForensicDecision

/-- The calendar library tells the date of an instant and reads dates. -/
structure Calendar where
  Instant : Type
  toRfc3339Millis : Instant → String
  dateOf : Instant → NaiveDate
  parseFromStr : String → Option NaiveDate

/-- The log calls the serializer, the calendar and the hash function and prints the errors of others. -/
structure Environment where
  serde : Serde
  calendar : Calendar
  sha256 : Bytes → Digest
  decodeError : String → String
  signatureError : String

section Hashes

def hexDigit (digit : Nat) : Char :=
  if digit < 10 then Char.ofNat (48 + digit) else Char.ofNat (87 + digit)

def hexPair (byte : UInt8) : List Char := [hexDigit (byte.toNat / 16), hexDigit (byte.toNat % 16)]

def hexEncode (bytes : Bytes) : String := String.ofList (bytes.flatMap hexPair)

variable (env : Environment)

/-- The signature is left out of the signed and hashed bytes. -/
def canonicalBytes (row : ForensicDecision) : Bytes := utf8 (env.serde.toString { row with sig := "" })

def selfHash (row : ForensicDecision) : String := hexEncode (env.sha256 (canonicalBytes env row)).1

end Hashes

section Injectivity

/-- Different digits have different letters. -/
theorem hexDigit_injective {first second : Nat} (firstShort : first < 16) (secondShort : second < 16)
    (same : hexDigit first = hexDigit second) : first = second := by
  have table : ∀ low < 16, ∀ high < 16, hexDigit low = hexDigit high → low = high := by decide
  exact table _ firstShort _ secondShort same

/-- Different bytes have different hexadecimal texts. -/
theorem hexEncode_injective : Function.Injective hexEncode := by
  intro first second same
  have texts : first.flatMap hexPair = second.flatMap hexPair := String.ofList_injective same
  have pairs : ∀ first second firstRest secondRest,
      hexPair first ++ firstRest = hexPair second ++ secondRest →
        id first = id second ∧ firstRest = secondRest := by
    intro first second firstRest secondRest equal
    obtain ⟨upper, lower, rest⟩ : hexDigit (first.toNat / 16) = hexDigit (second.toNat / 16) ∧
        hexDigit (first.toNat % 16) = hexDigit (second.toNat % 16) ∧ firstRest = secondRest := by
      simpa [hexPair] using equal
    have firstSize := first.toNat_lt
    have secondSize := second.toNat_lt
    have uppers := hexDigit_injective (by omega) (by omega) upper
    have lowers := hexDigit_injective (Nat.mod_lt _ (by decide)) (Nat.mod_lt _ (by decide)) lower
    exact ⟨UInt8.toNat_inj.mp (show first.toNat = second.toNat by omega), rest⟩
  simpa using map_eq_of_flatMap_eq pairs (fun _ => List.cons_ne_nil _ _) texts

/-- The digest of a row is that of its canonical bytes. -/
theorem sha256_eq_of_selfHash {env : Environment} {first second : ForensicDecision}
    (same : selfHash env first = selfHash env second) :
    env.sha256 (canonicalBytes env first) = env.sha256 (canonicalBytes env second) :=
  Subtype.ext (hexEncode_injective same)

end Injectivity
end AiMemory.ForensicLog
