import AiMemory.Library.LinkedChain
import AiMemory.Library.Run
import AiMemory.SignedEvents.Event
import Mathlib.Data.List.Sort

/-
This file embeds the append and the walk over the chain of stored rows.
-/

namespace AiMemory.SignedEvents
open AiMemory.Machine AiMemory.Library

def zeroHash : Digest := ⟨List.replicate 32 0, List.length_replicate⟩

inductive AppendError where
  | readHead (message : String)
  | insert (message : String)
  deriving DecidableEq, Repr

/-- A call carries its event and the daemon key that the process has installed. -/
structure AppendCall where
  event : SignedEvent
  trySignAuditPayload : Bytes → Option Blob

section Append

variable (sha256 : Bytes → Digest)

/-- A later row wins over an equal sequence. -/
def latestHead : Option SignedEvent → SignedEvent → Option SignedEvent
  | none, event => some event
  | some head, event => if head.sequence ≤ event.sequence then some event else some head

/-- The head read refuses a table with a row that has no sequence. -/
def readChainHead (rows : List EventRow) : Except AppendError (Int64 × Digest) :=
  let nullSeqCount := rows.countP fun row => row.sequence.isNone
  if nullSeqCount > 0 then
    .error (.readHead (s!"read_chain_head: {nullSeqCount} signed_events row(s) have sequence IS NULL — " ++
      "v34 chain backfill incomplete; re-run `ai-memory migrate`"))
  else
    match ((rows.filter fun row => row.sequence.isSome).map EventRow.toEvent).foldl latestHead none with
    | none => .ok (0, zeroHash)
    | some prev => .ok (prev.sequence, sha256 (canonicalChainBytes prev))

/-- A daemon row is signed again over its identity, and the other rows keep their signatures. -/
def appendedSignature (call : AppendCall) (nextSeq : Int64) : Option Blob :=
  if call.event.attestLevel.text = AttestLevel.daemonSigned.asStr ∧ call.event.signature.isSome then
    match call.trySignAuditPayload
        (daemonRowSigningInput sha256 { call.event with sequence := nextSeq }) with
    | some signature => some signature
    | none => call.event.signature
  else call.event.signature

def appendedRow (call : AppendCall) (maxSeq : Int64) (prevHash : Digest) : EventRow where
  toEventBody := { call.event.toEventBody with signature := appendedSignature sha256 call (maxSeq + 1) }
  prevHash := some (Blob.ofDigest prevHash)
  sequence := some (maxSeq + 1)

/-- The table holds at most 2 ^ 63 - 1 rows, with distinct identifiers and distinct sequences. -/
def insertRow (rows : List EventRow) (row : EventRow) : Except AppendError (List EventRow) :=
  if rows.any fun stored => stored.id = row.id then
    .error (.insert "UNIQUE constraint failed: signed_events.id")
  else if rows.any fun stored => row.sequence.isSome ∧ stored.sequence = row.sequence then
    .error (.insert "UNIQUE constraint failed: signed_events.sequence")
  else if 2 ^ 63 ≤ rows.length + 1 then .error (.insert "database or disk is full")
  else .ok (rows ++ [row])

def appendSignedEventNoTx (rows : List EventRow) (call : AppendCall) :
    Except AppendError (List EventRow) :=
  match readChainHead sha256 rows with
  | .error message => .error message
  | .ok (maxSeq, prevHash) => insertRow rows (appendedRow sha256 call maxSeq prevHash)

/-- A failed append leaves the table as it was. -/
def appendStep (rows : List EventRow) (call : AppendCall) : List EventRow :=
  match appendSignedEventNoTx sha256 rows call with
  | .ok after => after
  | .error _ => rows

/-- The reachable tables are those that appends build from the empty table. -/
def Reachable (rows : List EventRow) : Prop := ∃ calls, run (appendStep sha256) [] calls = rows

end Append

structure ChainVerificationReport where
  rowsChecked : Nat
  chainBreak : Option Int64
  signatureFailures : List Int64
  roleSeparationFailures : List Int64
  deriving DecidableEq, Repr

structure Walk where
  report : ChainVerificationReport
  expectedSeq : Int64
  prevCanonicalHash : Digest

section Verify

variable (sha256 : Bytes → Digest) (daemonVerifier recorderVerifier : Option VerifyingKey)

/-- Only the first break is recorded, and the walk goes on from the row that it read. -/
def walkRow (walk : Walk) (event : SignedEvent) : Walk :=
  let report := walk.report
  let gap := if event.sequence ≠ walk.expectedSeq then report.chainBreak.or (some event.sequence)
    else report.chainBreak
  let chainBreak :=
    if event.prevHash.bytes.length ≠ 32 ∨ event.prevHash.bytes ≠ walk.prevCanonicalHash.1 then
      gap.or (some event.sequence)
    else gap
  let verdict := classifyRowSignature sha256 event daemonVerifier recorderVerifier
  { report :=
      { rowsChecked := report.rowsChecked + 1
        chainBreak := chainBreak
        signatureFailures := if verdict.signatureFailure then report.signatureFailures ++ [event.sequence]
          else report.signatureFailures
        roleSeparationFailures :=
          if verdict.roleSeparationFailure then report.roleSeparationFailures ++ [event.sequence]
          else report.roleSeparationFailures }
    -- A gap realigns the expectation to the sequence that was read.
    expectedSeq := event.sequence + 1
    prevCanonicalHash := sha256 (canonicalChainBytes event) }

/-- The query reads the rows above the bound in the order of their coalesced sequences. -/
def selectAbove (rows : List EventRow) (lower : Int64) : List SignedEvent :=
  ((rows.map EventRow.toEvent).filter fun event => lower < event.sequence).insertionSort
    fun first second => first.sequence ≤ second.sequence

/-- A resumed walk starts from the hash of the row at the bound. -/
def startHash (rows : List EventRow) (lower : Int64) : Digest :=
  if 0 < lower then
    match (rows.map EventRow.toEvent).find? fun event => event.sequence = lower with
    | some head => sha256 (canonicalChainBytes head)
    | none => zeroHash
  else zeroHash

def verifyChain (rows : List EventRow) (sinceSequence : Option Int64) : ChainVerificationReport :=
  let lower := sinceSequence.getD 0
  let start : Walk := ⟨⟨0, none, [], []⟩, lower + 1, startHash sha256 rows lower⟩
  ((selectAbove rows lower).foldl (walkRow sha256 daemonVerifier recorderVerifier) start).report

end Verify

section Links

variable (sha256 : Bytes → Digest)

/-- A row names the sequence and the hash that its predecessor hands on. -/
def SignedEvent.namedLink (event : SignedEvent) : Int64 × Bytes :=
  (event.sequence, event.prevHash.bytes)

def SignedEvent.nextLink (event : SignedEvent) : Int64 × Bytes :=
  (event.sequence + 1, (sha256 (canonicalChainBytes event)).1)

def firstLink : Int64 × Bytes := (1, zeroHash.1)

/-- The events form one chain from the first link. -/
def Chained (events : List SignedEvent) : Prop :=
  Linked SignedEvent.namedLink (SignedEvent.nextLink sha256) firstLink events

/-- A step of the walk stays clean exactly at a row that names the expected link. -/
theorem walkRow_clean_iff (daemonVerifier recorderVerifier : Option VerifyingKey) (walk : Walk)
    (event : SignedEvent) :
    (walkRow sha256 daemonVerifier recorderVerifier walk event).report.chainBreak = none ↔
      walk.report.chainBreak = none ∧
        event.namedLink = (walk.expectedSeq, walk.prevCanonicalHash.1) := by
  have width := walk.prevCanonicalHash.2
  simp only [walkRow, SignedEvent.namedLink, Prod.mk.injEq]
  by_cases contiguous : event.sequence = walk.expectedSeq
  · by_cases chained : event.prevHash.bytes = walk.prevCanonicalHash.1
    · simp [contiguous, chained, width]
    · simp [contiguous, chained]
  · by_cases chained : event.prevHash.bytes = walk.prevCanonicalHash.1
    · simp [contiguous, chained]
    · simp [contiguous, chained]

/-- The walk stays clean exactly along a chain. -/
theorem walk_clean_iff (daemonVerifier recorderVerifier : Option VerifyingKey) (walk : Walk)
    (events : List SignedEvent) :
    (events.foldl (walkRow sha256 daemonVerifier recorderVerifier) walk).report.chainBreak = none ↔
      walk.report.chainBreak = none ∧
        Linked SignedEvent.namedLink (SignedEvent.nextLink sha256)
          (walk.expectedSeq, walk.prevCanonicalHash.1) events := by
  induction events generalizing walk with
  | nil => simp [Linked]
  | cons event rest ih =>
      rw [List.foldl_cons, ih, walkRow_clean_iff, Linked, and_assoc]
      rfl

/-- The verifier reports no break exactly when the selected rows form a chain. -/
theorem verifyChain_clean_iff (daemonVerifier recorderVerifier : Option VerifyingKey)
    (rows : List EventRow) :
    (verifyChain sha256 daemonVerifier recorderVerifier rows none).chainBreak = none ↔
      Chained sha256 (selectAbove rows 0) := by
  rw [verifyChain, walk_clean_iff]
  exact and_iff_right rfl

/-- A chain numbers its rows in order. -/
theorem sequences_of_linked {events : List SignedEvent} {start : Nat} {hash : Bytes}
    (linked : Linked SignedEvent.namedLink (SignedEvent.nextLink sha256)
      (Int64.ofNat start, hash) events) :
    events.map (·.sequence) = (List.range' start events.length).map Int64.ofNat := by
  induction events generalizing start hash with
  | nil => rfl
  | cons event rest ih =>
      obtain ⟨named, linked⟩ := linked
      have first : event.sequence = Int64.ofNat start := congrArg Prod.fst named
      have following : event.sequence + 1 = Int64.ofNat (start + 1) := by
        rw [first, Int64.ofNat_add]
        rfl
      rw [SignedEvent.nextLink, following] at linked
      rw [List.map_cons, List.length_cons, List.range'_succ, List.map_cons, ih linked, first]

/-- A chained list is numbered from one on. -/
theorem sequences_of_chained {events : List SignedEvent} (chained : Chained sha256 events) :
    events.map (·.sequence) = (List.range' 1 events.length).map Int64.ofNat :=
  sequences_of_linked sha256 chained

end Links
end AiMemory.SignedEvents
