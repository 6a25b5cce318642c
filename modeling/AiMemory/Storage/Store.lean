import AiMemory.Crdt.Memory
import AiMemory.Library.KeyedTable
import AiMemory.Machine.Chrono
import Mathlib.Data.Fintype.Sets

/-
This file embeds the tables of one database and the functions that every writer shares.
-/

namespace AiMemory.Storage
open AiMemory.Crdt AiMemory.Library AiMemory.Machine

/-- The unique index covers the title and the namespace. -/
def slotOf (row : Memory) : String × String := (row.title, row.namespace)

abbrev MemoryTable := KeyedTable (fun row : Memory => row.id) slotOf

/-- The archive keeps the last row that a writer replaced. -/
structure ArchivedMemory where
  row : Memory
  archiveReason : String
  archivedAt : String

structure RecordStop where
  issuedBy : String
  scope : String
  deriving DecidableEq, Repr

structure Store where
  memories : MemoryTable
  archivedMemories : List ArchivedMemory
  forgetTombstones : List String
  recordStop : Option RecordStop

inductive WriteError where
  | recordStopped (stop : RecordStop)
  | governanceRefused (reason : String)
  | sqlite (message : String)
  deriving DecidableEq, Repr

/-- The process supplies its calendar, its hook, its credential screen and its content hash. -/
structure Environment where
  chrono : Chrono
  governancePreWrite : Memory → Option String
  redactForStorage : String → Option String
  stampMemoryCid : Memory → String

section Expiry

variable (chrono : Chrono)

def defaultTtlSecs : Tier → Option Int
  | .short => some (6 * 3600)
  | .mid => some 604800
  | .long => none

/-- A row without an expiry receives the default life of its tier. -/
def effectiveExpiresAt (now : chrono.Instant) (row : Memory) : Option String :=
  match row.expiresAt with
  | some expiresAt => some expiresAt
  | none => (defaultTtlSecs row.tier).map fun ttl =>
      let base := ((chrono.parseFromRfc3339 row.createdAt).map chrono.withTimezoneUtc).getD now
      chrono.toRfc3339 (chrono.addSeconds base ttl)

end Expiry

section Redaction

/-- The screen skips the keys that carry signatures and system identities. -/
def metadataKeyIsCarvedOut (key : String) : Bool :=
  key.endsWith "_b64" || key ∈ ["write_signature", "host_signature_b64", "host_pubkey_b64",
    "agent_pubkey", "agent_id", "signature", "citations", "consolidated_from_agents",
    "imported_from_agent_id", "model_family"]

variable (redactForStorage : String → Option String)

/-- A value is rebuilt only when the screen masks one of its strings. -/
def redactValueLeaves : Json → Option Json
  | .string text => (redactForStorage text).map Json.string
  | .object keys vals =>
      let masked := fun key : {key // key ∈ keys} =>
        if metadataKeyIsCarvedOut key.1 then none else redactValueLeaves (vals key)
      if ∃ key, (masked key).isSome then
        some (.object keys fun key => (masked key).getD (vals key))
      else none
  | .array length items =>
      let masked := fun index : Fin length => redactValueLeaves (items index)
      if ∃ index, (masked index).isSome then
        some (.array length fun index => (masked index).getD (items index))
      else none
  | _ => none

/-- The screen masks the content, the title, the tags and the metadata, and nothing else. -/
def redactMemoryForStorage (row : Memory) : Memory :=
  { row with
    content := (redactForStorage row.content).getD row.content
    title := (redactForStorage row.title).getD row.title
    tags := row.tags.map fun tag => (redactForStorage tag).getD tag
    metadata := (redactValueLeaves redactForStorage row.metadata).getD row.metadata }

end Redaction

/-- The triggers and the column constraints refuse a row outside the ranges. -/
def checkConstraints (row : Memory) : Option String :=
  if row.priority < 1 ∨ 10 < row.priority then
    some "CHECK constraint failed: memories.priority must be between 1 and 10"
  else if row.confidence < ⟨0⟩ ∨ (⟨0x3FF0000000000000⟩ : F64) < row.confidence then
    some "CHECK constraint failed: memories.confidence must be between 0.0 and 1.0"
  else if row.confidence.isNan then some "NOT NULL constraint failed: memories.confidence"
  else none

end AiMemory.Storage
