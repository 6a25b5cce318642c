import AiMemory.Library.Interleaving
import AiMemory.Library.Table
import AiMemory.SignedEvents.Reachable
import AiMemory.Storage.Insert

/-
This file proves that concurrent captures and recoveries of a turn store each transcript line exactly once.
-/

namespace AiMemory.Storage
open AiMemory.Machine AiMemory.Library AiMemory.Crdt AiMemory.SignedEvents

/-- A row of the table that remembers the lines already captured. -/
structure TranscriptLine where
  sha256 : Bytes
  memoryId : String
  hostKind : String
  transcriptPath : Option String
  hostSessionId : Option String
  hostTurnIndex : Option Int
  recoveredAt : Int
  deriving DecidableEq

structure CaptureTurnWrite where
  memory : Memory
  sha256 : Bytes
  hostKind : String
  hostSessionId : String
  hostTurnIndex : Int
  recoveredAtMs : Int
  signedEvent : AppendCall

structure RecoverTurnWrite where
  memory : Memory
  normalizedSha256 : Bytes
  rawSha256 : Bytes
  hostKind : String
  transcriptPath : String
  hostSessionId : Option String
  hostTurnIndex : Option Int
  recoveredAtMs : Int

/-- The line of a captured turn has no path. -/
def CaptureTurnWrite.line (write : CaptureTurnWrite) (memoryId : String) : TranscriptLine :=
  ⟨write.sha256, memoryId, write.hostKind, none, some write.hostSessionId, some write.hostTurnIndex,
    write.recoveredAtMs⟩

def RecoverTurnWrite.line (write : RecoverTurnWrite) (memoryId : String) : TranscriptLine :=
  ⟨write.normalizedSha256, memoryId, write.hostKind, some write.transcriptPath, write.hostSessionId,
    write.hostTurnIndex, write.recoveredAtMs⟩

inductive TurnWrite where
  | capture (write : CaptureTurnWrite)
  | recover (write : RecoverTurnWrite)

def TurnWrite.memory : TurnWrite → Memory
  | capture write => write.memory
  | recover write => write.memory

def TurnWrite.line : TurnWrite → String → TranscriptLine
  | capture write => write.line
  | recover write => write.line

/-- The three tables that one transaction writes. -/
structure CaptureDatabase where
  store : Store
  transcriptLines : Table TranscriptLine.sha256
  signedEvents : List EventRow

inductive CaptureError where
  | txBeginFailed (message : String)
  | memoryInsertFailed (error : StorageError)
  | dedupInsertFailed (message : String)
  | signedEventsAppendFailed (error : AppendError)

structure CaptureTurnResult where
  memoryId : String
  dedupHit : Bool
  deriving DecidableEq

section Statements

variable (env : WriterEnvironment) (sha256 : Bytes → Digest)

/-- A call carries its write, its clock and whether the database is locked when it begins. -/
structure TurnRequest where
  write : TurnWrite
  now : env.chrono.Instant
  locked : Option String

/-- An index lists the lines with one key in the order of their digests. -/
def firstLine (lines : List TranscriptLine) (admits : TranscriptLine → Bool) : Option TranscriptLine :=
  ((lines.filter admits).insertionSort fun first second => first.sha256 ≤ second.sha256).head?

def hasHostTurn (sessionId : String) (turnIndex : Int) (line : TranscriptLine) : Bool :=
  line.hostSessionId = some sessionId ∧ line.hostTurnIndex = some turnIndex

def hasSha256 (first second : Bytes) (line : TranscriptLine) : Bool :=
  line.sha256 = first ∨ line.sha256 = second

/-- Only a recovery has a second probe. -/
inductive TurnCall where
  | probed (request : TurnRequest env) (write : RecoverTurnWrite)
  | missed (request : TurnRequest env)
  | returned (request : TurnRequest env) (outcome : Except CaptureError CaptureTurnResult)

def insertLine (lines : Table TranscriptLine.sha256) (line : TranscriptLine) :
    Except CaptureError (Table TranscriptLine.sha256) :=
  match lines.lookup line.sha256 with
  | some _ => .error (.dedupInsertFailed "UNIQUE constraint failed: transcript_line_dedup.sha256")
  | none => .ok (lines.upsert line)

/-- Only a capture is audited. -/
def appendAudit (rows : List EventRow) : TurnWrite → Except CaptureError (List EventRow)
  | .capture write => (appendSignedEventNoTx sha256 rows write.signedEvent).mapError .signedEventsAppendFailed
  | .recover _ => .ok rows

/-- The transaction writes the memory, the line and the audit row, or nothing. -/
def turnTransaction (db : CaptureDatabase) (request : TurnRequest env) :
    Except CaptureError (CaptureDatabase × String) := do
  let written ← (insert env db.store request.write.memory request.now).mapError .memoryInsertFailed
  let lines ← insertLine db.transcriptLines (request.write.line written.2)
  let rows ← appendAudit sha256 db.signedEvents request.write
  return (⟨written.1, lines, rows⟩, written.2)

/-- A found line answers the call. -/
def probe (db : CaptureDatabase) (request : TurnRequest env) (admits : TranscriptLine → Bool) (miss : TurnCall env) :
    TurnCall env :=
  match firstLine db.transcriptLines.rows admits with
  | some line => .returned request (.ok ⟨line.memoryId, true⟩)
  | none => miss

def probeSha256 (db : CaptureDatabase) (request : TurnRequest env) (write : RecoverTurnWrite) : TurnCall env :=
  probe env db request (hasSha256 write.normalizedSha256 write.rawSha256) (.missed request)

/-- A call starts with its first probe, and a recovery without a host turn goes straight to its digests. -/
def enterTurn (request : TurnRequest env) (db : CaptureDatabase) : CaptureDatabase × TurnCall env :=
  (db,
    match request.write with
    | .capture write =>
        probe env db request (hasHostTurn write.hostSessionId write.hostTurnIndex) (.missed request)
    | .recover write =>
        match write.hostSessionId, write.hostTurnIndex with
        | some sessionId, some turnIndex =>
            probe env db request (hasHostTurn sessionId turnIndex) (.probed request write)
        | _, _ => probeSha256 env db request write)

/-- The immediate transaction excludes every other writer, and a failure rolls it back. -/
def commitTurn (request : TurnRequest env) (db : CaptureDatabase) : CaptureDatabase × TurnCall env :=
  match request.locked with
  | some message => (db, .returned request (.error (.txBeginFailed message)))
  | none =>
      match turnTransaction env sha256 db request with
      | .ok (after, memoryId) => (after, .returned request (.ok ⟨memoryId, false⟩))
      | .error error => (db, .returned request (.error error))

def turnStatement (call : TurnCall env) (db : CaptureDatabase) : CaptureDatabase × TurnCall env :=
  match call with
  | .probed request write => (db, probeSha256 env db request write)
  | .missed request => commitTurn env sha256 request db
  | .returned request outcome => (db, .returned request outcome)

end Statements

section Transaction

variable {env : WriterEnvironment} {sha256 : Bytes → Digest}

/-- An insertion adds at most the row that it names. -/
theorem find_insert {store written : Store} {row : Memory} {now : env.chrono.Instant} {id : String}
    (ok : insert env store row now = .ok (written, id)) (query : String) :
    (written.memories.find query).isSome ↔ (store.memories.find query).isSome ∨ query = id := by
  obtain ⟨_, _, upserted⟩ := bind_eq_ok.mp ok
  obtain ⟨_, _, upserted⟩ := bind_eq_ok.mp upserted
  obtain ⟨_, ⟨existing, noClash, found, rfl, _, rfl⟩ | ⟨freshId, freshSlot, rfl, rfl⟩⟩ :=
    upsertStoreMerge_written upserted
  · have stored := (store.memories.findSlot_eq_some_iff _ _).mp found
    have held := (store.memories.find_eq_some_iff existing.id existing).mpr ⟨stored.1, rfl⟩
    rw [KeyedTable.find_replace]
    by_cases same : query = existing.id
    · simp [same, storeMerge, held]
    · simp [same, storeMerge]
  · rw [KeyedTable.find_append]
    by_cases same : query = (localRow env row now).id
    · simp [same]
    · simp [same]

/-- An accepted line is appended. -/
theorem insertLine_ok {lines after : Table TranscriptLine.sha256} {line : TranscriptLine}
    (ok : insertLine lines line = .ok after) : after.rows = lines.rows ++ [line] := by
  rw [insertLine] at ok
  split at ok
  · cases ok
  · rename_i absent
    rw [← Except.ok.inj ok, Table.upsert_rows_of_absent absent]

/-- The audit rows that a write adds commit to the digest of its payload. -/
def TurnWrite.payloads : TurnWrite → List Blob
  | capture write => [write.signedEvent.event.payloadHash]
  | recover _ => []

/-- The audit trail grows by the rows of the capture. -/
theorem appendAudit_ok {rows after : List EventRow} {write : TurnWrite}
    (ok : appendAudit sha256 rows write = .ok after) :
    ∃ added, after = rows ++ added ∧ added.map (fun row => row.payloadHash) = write.payloads := by
  cases write with
  | recover write => exact ⟨[], by rw [← Except.ok.inj ok, List.append_nil], rfl⟩
  | capture write =>
      have appended := mapError_eq_ok.mp ok
      rw [appendSignedEventNoTx] at appended
      split at appended
      · cases appended
      · exact ⟨_, (insertRow_ok appended).1, rfl⟩

/-- A committed transaction adds one line, the audit of its write and at most one memory. -/
theorem turnTransaction_ok {db after : CaptureDatabase} {request : TurnRequest env} {memoryId : String}
    (ok : turnTransaction env sha256 db request = .ok (after, memoryId)) :
    after.transcriptLines.rows = db.transcriptLines.rows ++ [request.write.line memoryId] ∧
      (∃ added, after.signedEvents = db.signedEvents ++ added ∧
        added.map (fun row => row.payloadHash) = request.write.payloads) ∧
      ∀ query, (after.store.memories.find query).isSome ↔
        (db.store.memories.find query).isSome ∨ query = memoryId := by
  obtain ⟨written, inserted, ok⟩ := bind_eq_ok.mp ok
  obtain ⟨lines, recorded, ok⟩ := bind_eq_ok.mp ok
  obtain ⟨rows, audited, ok⟩ := bind_eq_ok.mp ok
  obtain ⟨rfl, rfl⟩ := Prod.mk.inj (Except.ok.inj ok)
  exact ⟨insertLine_ok recorded, appendAudit_ok audited, find_insert (mapError_eq_ok.mp inserted)⟩

end Transaction

section Accounts

variable {env : WriterEnvironment}

/-- The line that a call has committed. -/
def TurnCall.wrote : TurnCall env → Option TranscriptLine
  | .returned request (.ok ⟨memoryId, false⟩) => some (request.write.line memoryId)
  | _ => none

/-- The payloads that a call has had audited. -/
def TurnCall.audited : TurnCall env → Option (List Blob)
  | .returned request (.ok ⟨_, false⟩) => some request.write.payloads
  | _ => none

/-- A write names the line of its host turn, and a recovery also the lines of its digests. -/
def TurnWrite.Names : TurnWrite → TranscriptLine → Prop
  | capture write, line => hasHostTurn write.hostSessionId write.hostTurnIndex line
  | recover write, line =>
      (∃ sessionId turnIndex, write.hostSessionId = some sessionId ∧ write.hostTurnIndex = some turnIndex ∧
        hasHostTurn sessionId turnIndex line) ∨
      hasSha256 write.normalizedSha256 write.rawSha256 line

@[simp] theorem TurnWrite.memoryId_line (write : TurnWrite) (memoryId : String) :
    (write.line memoryId).memoryId = memoryId := by
  cases write <;> rfl

theorem TurnWrite.names_line (write : TurnWrite) (memoryId : String) : write.Names (write.line memoryId) := by
  cases write with
  | capture write => simp [Names, line, CaptureTurnWrite.line, hasHostTurn]
  | recover write => exact .inr (by simp [line, RecoverTurnWrite.line, hasSha256])

/-- The call waits for the probe of its own digests, or has been answered by a line that it names. -/
def TurnCall.Answered (lines : List TranscriptLine) : TurnCall env → Prop
  | .probed request write => request.write = .recover write
  | .missed _ => True
  | .returned request (.ok result) => ∃ line ∈ lines, line.memoryId = result.memoryId ∧ request.write.Names line
  | .returned _ (.error _) => True

theorem TurnCall.Answered.mono {lines more : List TranscriptLine} {call : TurnCall env}
    (answered : call.Answered lines) (kept : ∀ line ∈ lines, line ∈ more) : call.Answered more := by
  cases call with
  | probed _ _ => exact answered
  | missed _ => trivial
  | returned request outcome =>
      cases outcome with
      | error _ => trivial
      | ok result =>
          obtain ⟨line, present, named⟩ := answered
          exact ⟨line, kept line present, named⟩

/-- The first line that is found is stored and admitted. -/
theorem mem_of_firstLine {lines : List TranscriptLine} {admits : TranscriptLine → Bool} {line : TranscriptLine}
    (found : firstLine lines admits = some line) : line ∈ lines ∧ admits line := by
  have listed := (List.mem_insertionSort _).mp (List.mem_of_head? found)
  exact List.mem_filter.mp listed

theorem firstLine_isSome {lines : List TranscriptLine} {admits : TranscriptLine → Bool} {line : TranscriptLine}
    (stored : line ∈ lines) (admitted : admits line) : ∃ found, firstLine lines admits = some found := by
  have listed := (List.mem_insertionSort fun first second : TranscriptLine => first.sha256 ≤ second.sha256).mpr
    (List.mem_filter.mpr ⟨stored, admitted⟩)
  exact Option.isSome_iff_exists.mp (List.isSome_head?.mpr (List.ne_nil_of_mem listed))

/-- A probe returns a stored line that it admits, or leaves the call waiting. -/
theorem probe_cases (db : CaptureDatabase) (request : TurnRequest env) (admits : TranscriptLine → Bool)
    (miss : TurnCall env) :
    (∃ line ∈ db.transcriptLines.rows, admits line ∧
      probe env db request admits miss = .returned request (.ok ⟨line.memoryId, true⟩)) ∨
      probe env db request admits miss = miss := by
  rw [probe]
  cases found : firstLine db.transcriptLines.rows admits with
  | none => exact .inr rfl
  | some line => exact .inl ⟨line, (mem_of_firstLine found).1, (mem_of_firstLine found).2, rfl⟩

/-- What one statement has done when its call stands at the returned stage. -/
structure SettlesTurn (db after : CaptureDatabase) (call : TurnCall env) : Prop where
  lines : after.transcriptLines.rows = db.transcriptLines.rows ++ call.wrote.toList
  audits : ∃ added, after.signedEvents = db.signedEvents ++ added ∧
    added.map (fun row => row.payloadHash) = call.audited.toList.flatten
  memories : ∀ query, (after.store.memories.find query).isSome ↔
    (db.store.memories.find query).isSome ∨ ∃ line ∈ call.wrote, line.memoryId = query
  answered : call.Answered after.transcriptLines.rows

/-- A statement that stores nothing settles a call that wrote nothing. -/
theorem SettlesTurn.of_unwritten {db : CaptureDatabase} {call : TurnCall env} (unwritten : call.wrote = none)
    (unaudited : call.audited = none) (answered : call.Answered db.transcriptLines.rows) : SettlesTurn db db call where
  lines := by simp [unwritten]
  audits := ⟨[], by simp, by simp [unaudited]⟩
  memories := by simp [unwritten]
  answered := answered

/-- A probe that finds a line answers with it. -/
theorem settles_probe {db : CaptureDatabase} {request : TurnRequest env} {admits : TranscriptLine → Bool}
    {miss : TurnCall env} (named : ∀ line, admits line → request.write.Names line)
    (waits : SettlesTurn db db miss) : SettlesTurn db db (probe env db request admits miss) := by
  rcases probe_cases db request admits miss with ⟨line, present, admitted, hit⟩ | missed
  · rw [hit]
    exact SettlesTurn.of_unwritten rfl rfl ⟨line, present, rfl, named line admitted⟩
  · rwa [missed]

/-- The probe by digest settles the turn. -/
theorem settles_probeSha256 {db : CaptureDatabase} {request : TurnRequest env} {write : RecoverTurnWrite}
    (own : request.write = .recover write) : SettlesTurn db db (probeSha256 env db request write) := by
  refine settles_probe (fun line admitted => ?_) (SettlesTurn.of_unwritten rfl rfl trivial)
  rw [own]
  exact .inr admitted

/-- A started call has stored nothing. -/
theorem settles_enter (request : TurnRequest env) (db : CaptureDatabase) :
    SettlesTurn db (enterTurn env request db).1 (enterTurn env request db).2 := by
  rw [enterTurn]
  cases own : request.write with
  | capture write =>
      refine settles_probe (fun line admitted => ?_) (SettlesTurn.of_unwritten rfl rfl trivial)
      rw [own]
      exact admitted
  | recover write =>
      dsimp only
      split
      · rename_i sessionId turnIndex session turn
        refine settles_probe (fun line admitted => ?_) (SettlesTurn.of_unwritten rfl rfl own)
        rw [own]
        exact .inl ⟨sessionId, turnIndex, session, turn, admitted⟩
      · exact settles_probeSha256 own

variable {sha256 : Bytes → Digest}

/-- A transaction commits all of its rows or none. -/
theorem settles_commit (request : TurnRequest env) (db : CaptureDatabase) :
    SettlesTurn db (commitTurn env sha256 request db).1 (commitTurn env sha256 request db).2 := by
  rw [commitTurn]
  split
  · exact SettlesTurn.of_unwritten rfl rfl trivial
  · split
    · rename_i after memoryId committed
      obtain ⟨lines, ⟨added, audited, payloads⟩, memories⟩ := turnTransaction_ok committed
      refine ⟨lines, ⟨added, audited, by simpa [TurnCall.audited] using payloads⟩, fun query => ?_, ?_⟩
      · have stored : (∃ line ∈ some (request.write.line memoryId), line.memoryId = query) ↔ memoryId = query := by
          simp
        rw [memories, TurnCall.wrote, stored]
        exact or_congr_right eq_comm
      · refine ⟨request.write.line memoryId, ?_, ?_, request.write.names_line memoryId⟩
        · rw [lines]
          exact List.mem_append_right _ (List.mem_singleton_self _)
        · exact request.write.memoryId_line memoryId
    · exact SettlesTurn.of_unwritten rfl rfl trivial

/-- A waiting call settles with its next statement. -/
theorem settles_statement {db : CaptureDatabase} {call : TurnCall env} (waits : call.wrote = none)
    (unaudited : call.audited = none) (answered : call.Answered db.transcriptLines.rows) :
    SettlesTurn db (turnStatement env sha256 call db).1 (turnStatement env sha256 call db).2 := by
  cases call with
  | probed request write => exact settles_probeSha256 answered
  | missed request => exact settles_commit request db
  | returned request outcome => exact SettlesTurn.of_unwritten waits unaudited answered

/-- The tables hold what the start held and what the returned calls wrote. -/
structure Accounted (start : CaptureDatabase) (session : Session CaptureDatabase (TurnCall env)) : Prop where
  lines : session.shared.transcriptLines.rows.Perm
    (start.transcriptLines.rows ++ session.calls.filterMap TurnCall.wrote)
  audits : ∃ added, session.shared.signedEvents = start.signedEvents ++ added ∧
    (added.map fun row => row.payloadHash).Perm (session.calls.filterMap TurnCall.audited).flatten
  memories : ∀ query, (session.shared.store.memories.find query).isSome ↔
    (start.store.memories.find query).isSome ∨
      ∃ line ∈ session.calls.filterMap TurnCall.wrote, line.memoryId = query
  answered : ∀ call ∈ session.calls, call.Answered session.shared.transcriptLines.rows

variable {start after : CaptureDatabase} {session : Session CaptureDatabase (TurnCall env)}

/-- A settled call joins the accounts of the others. -/
theorem Accounted.settle {call : TurnCall env} {calls : List (TurnCall env)} (accounted : Accounted start session)
    (settles : SettlesTurn session.shared after call)
    (wrote : (calls.filterMap TurnCall.wrote).Perm (session.calls.filterMap TurnCall.wrote ++ call.wrote.toList))
    (audited : (calls.filterMap TurnCall.audited).Perm
      (session.calls.filterMap TurnCall.audited ++ call.audited.toList))
    (members : ∀ other ∈ calls, other ∈ session.calls ∨ other = call) : Accounted start ⟨after, calls⟩ where
  lines := by
    rw [settles.lines]
    refine (accounted.lines.append_right _).trans ?_
    rw [List.append_assoc]
    exact wrote.symm.append_left _
  audits := by
    obtain ⟨earlier, before, earlierPayloads⟩ := accounted.audits
    obtain ⟨added, stored, payloads⟩ := settles.audits
    refine ⟨earlier ++ added, by rw [stored, before, List.append_assoc], ?_⟩
    rw [List.map_append, payloads]
    refine (earlierPayloads.append_right _).trans ?_
    rw [← List.flatten_append]
    exact audited.symm.flatten
  memories query := by
    rw [settles.memories, accounted.memories, or_assoc]
    apply or_congr_right
    simp only [wrote.mem_iff, List.mem_append, Option.mem_toList, Option.mem_def, or_and_right, exists_or]
  answered other present := by
    have kept : ∀ line ∈ session.shared.transcriptLines.rows, line ∈ after.transcriptLines.rows := by
      intro line stored
      rw [settles.lines]
      exact List.mem_append_left _ stored
    rcases members other present with waiting | rfl
    · exact (accounted.answered other waiting).mono kept
    · exact settles.answered

/-- Every turn keeps the accounts. -/
theorem Accounted.next (accounted : Accounted start session) (turn : Turn (TurnRequest env)) :
    Accounted start (session.next (enterTurn env) (turnStatement env sha256) turn) := by
  cases turn with
  | start request =>
      refine accounted.settle (settles_enter request session.shared) ?_ ?_ fun other present => ?_
      · exact List.Perm.of_eq (Session.filterMap_concat _ _)
      · exact List.Perm.of_eq (Session.filterMap_concat _ _)
      · rwa [List.mem_append, List.mem_singleton] at present
  | resume index =>
      cases held : session.calls[index]? with
      | none => rwa [Session.next_of_idle held]
      | some call =>
          simp only [Session.next, held]
          have answered := accounted.answered call (List.mem_of_getElem? held)
          cases written : call.wrote with
          | none =>
              have unaudited : call.audited = none := by
                cases call with
                | probed _ _ => rfl
                | missed _ => rfl
                | returned request outcome =>
                    rcases outcome with _ | ⟨memoryId, _ | _⟩
                    · rfl
                    · cases written
                    · rfl
              refine accounted.settle (settles_statement written unaudited answered) ?_ ?_ ?_
              · exact Session.perm_filterMap_set held written
              · exact Session.perm_filterMap_set held unaudited
              · exact fun other present => List.mem_or_eq_of_mem_set present
          | some line =>
              -- A call that has committed has no further statement.
              have idle : turnStatement env sha256 call session.shared = (session.shared, call) := by
                cases call with
                | probed _ _ => cases written
                | missed _ => cases written
                | returned _ _ => rfl
              obtain ⟨within, rfl⟩ := List.getElem?_eq_some_iff.mp held
              rw [idle, List.set_getElem_self]
              exact accounted

end Accounts

section ExactlyOnce

variable {env : WriterEnvironment} {sha256 : Bytes → Digest}

/-- The session that a series of turns reaches from the tables of the start. -/
def captureRun (env : WriterEnvironment) (sha256 : Bytes → Digest) (start : CaptureDatabase)
    (turns : List (Turn (TurnRequest env))) : Session CaptureDatabase (TurnCall env) :=
  run (Session.next (enterTurn env) (turnStatement env sha256)) ⟨start, []⟩ turns

/-- Whatever the interleaving, the tables hold exactly what the start held and what the calls that report a write
have written, no digest twice, and every answered call names a stored line. -/
theorem captured_exactly_once (env : WriterEnvironment) (sha256 : Bytes → Digest) (start : CaptureDatabase)
    (turns : List (Turn (TurnRequest env))) :
    let session := captureRun env sha256 start turns
    let wrote := session.calls.filterMap TurnCall.wrote
    session.shared.transcriptLines.rows.Perm (start.transcriptLines.rows ++ wrote) ∧
      ((start.transcriptLines.rows ++ wrote).map fun line => line.sha256).Nodup ∧
      (∃ added, session.shared.signedEvents = start.signedEvents ++ added ∧
        (added.map fun row => row.payloadHash).Perm (session.calls.filterMap TurnCall.audited).flatten) ∧
      (∀ query, (session.shared.store.memories.find query).isSome ↔
        (start.store.memories.find query).isSome ∨ ∃ line ∈ wrote, line.memoryId = query) ∧
      ∀ request result, .returned request (.ok result) ∈ session.calls →
        ∃ line ∈ session.shared.transcriptLines.rows,
          line.memoryId = result.memoryId ∧ request.write.Names line := by
  intro session wrote
  have accounted : Accounted start session := by
    refine run_invariant_always (fun _ turn accounted => accounted.next turn) turns ?_
    exact ⟨by simp, ⟨[], by simp, by simp⟩, by simp, by simp⟩
  refine ⟨accounted.lines, ?_, accounted.audits, accounted.memories, fun request result returned => ?_⟩
  · exact (accounted.lines.map _).nodup_iff.mp session.shared.transcriptLines.unique
  · exact accounted.answered _ returned

/-- A call that can only be answered by a stored line. -/
def TurnCall.Repeats (request : TurnRequest env) (line : TranscriptLine) (call : TurnCall env) : Prop :=
  (∃ memoryId, call = .returned request (.ok ⟨memoryId, true⟩)) ∨
    ∃ write, call = .probed request write ∧ hasSha256 write.normalizedSha256 write.rawSha256 line

/-- A probe for a stored line finds a line. -/
theorem probe_of_stored {db : CaptureDatabase} {line : TranscriptLine} (request : TurnRequest env)
    {admits : TranscriptLine → Bool} (miss : TurnCall env) (stored : line ∈ db.transcriptLines.rows)
    (admitted : admits line) :
    ∃ memoryId, probe env db request admits miss = .returned request (.ok ⟨memoryId, true⟩) := by
  obtain ⟨found, first⟩ := firstLine_isSome stored admitted
  exact ⟨found.memoryId, by rw [probe, first]⟩

/-- A repeated call has written nothing and has had nothing audited. -/
theorem TurnCall.Repeats.unwritten {request : TurnRequest env} {line : TranscriptLine} {call : TurnCall env}
    (repeats : call.Repeats request line) : call.wrote = none ∧ call.audited = none := by
  rcases repeats with ⟨_, rfl⟩ | ⟨_, rfl, _⟩ <;> exact ⟨rfl, rfl⟩

/-- The next statement of a repeated call answers it and stores nothing. -/
theorem TurnCall.Repeats.answered {db : CaptureDatabase} {request : TurnRequest env} {line : TranscriptLine}
    {call : TurnCall env} (repeats : call.Repeats request line) (stored : line ∈ db.transcriptLines.rows) :
    ∃ memoryId, turnStatement env sha256 call db = (db, .returned request (.ok ⟨memoryId, true⟩)) := by
  rcases repeats with ⟨memoryId, rfl⟩ | ⟨write, rfl, admitted⟩
  · exact ⟨memoryId, rfl⟩
  · obtain ⟨memoryId, hit⟩ := probe_of_stored request (.missed request) stored admitted
    exact ⟨memoryId, by rw [turnStatement, probeSha256, hit]⟩

/-- A call that names a stored line starts as a repeated call. -/
theorem repeats_enter {db : CaptureDatabase} {request : TurnRequest env} {line : TranscriptLine}
    (stored : line ∈ db.transcriptLines.rows) (named : request.write.Names line) :
    (enterTurn env request db).2.Repeats request line := by
  rw [enterTurn]
  cases own : request.write with
  | capture write =>
      rw [own] at named
      exact .inl (probe_of_stored request _ stored named)
  | recover write =>
      rw [own] at named
      dsimp only
      split
      · rename_i sessionId turnIndex session turn
        rcases probe_cases db request (hasHostTurn sessionId turnIndex) (.probed request write) with
          ⟨found, _, _, hit⟩ | missed
        · exact .inl ⟨found.memoryId, hit⟩
        · rcases named with ⟨otherSession, otherTurn, sessionSame, turnSame, admitted⟩ | admitted
          · rw [session, Option.some.injEq] at sessionSame
            rw [turn, Option.some.injEq] at turnSame
            subst sessionSame turnSame
            exact .inl (probe_of_stored request _ stored admitted)
          · exact .inr ⟨write, missed, admitted⟩
      · rename_i absent
        rcases named with ⟨sessionId, turnIndex, session, turn, _⟩ | admitted
        · exact absurd turn (absent sessionId turnIndex session)
        · exact .inl (probe_of_stored request _ stored admitted)

/-- No statement removes a line. -/
theorem mem_turnStatement {db : CaptureDatabase} {line : TranscriptLine} (call : TurnCall env)
    (stored : line ∈ db.transcriptLines.rows) :
    line ∈ (turnStatement env sha256 call db).1.transcriptLines.rows := by
  cases call with
  | probed _ _ => exact stored
  | returned _ _ => exact stored
  | missed request =>
      rw [turnStatement, (settles_commit request db).lines]
      exact List.mem_append_left _ stored

/-- The line stays, and the call at the position stays a repeated one whose answer is a line that it names. -/
def StaysRepeated (request : TurnRequest env) (line : TranscriptLine) (index : Nat)
    (session : Session CaptureDatabase (TurnCall env)) : Prop :=
  line ∈ session.shared.transcriptLines.rows ∧
    ∃ call, session.calls[index]? = some call ∧ call.Repeats request line ∧
      call.Answered session.shared.transcriptLines.rows

/-- A repeated request stays repeated. -/
theorem StaysRepeated.next {request : TurnRequest env} {line : TranscriptLine} {index : Nat}
    {session : Session CaptureDatabase (TurnCall env)} (stays : StaysRepeated request line index session)
    (turn : Turn (TurnRequest env)) :
    StaysRepeated request line index (session.next (enterTurn env) (turnStatement env sha256) turn) := by
  obtain ⟨stored, call, held, repeats, named⟩ := stays
  cases turn with
  | start other =>
      refine ⟨stored, call, ?_, repeats, named⟩
      rw [Session.next, List.getElem?_append_left (List.getElem?_eq_some_iff.mp held).1, held]
  | resume other =>
      cases resumed : session.calls[other]? with
      | none =>
          rw [Session.next_of_idle resumed]
          exact ⟨stored, call, held, repeats, named⟩
      | some running =>
          simp only [Session.next, resumed]
          refine ⟨mem_turnStatement running stored, ?_⟩
          by_cases same : other = index
          · subst same
            obtain rfl := Option.some.inj (held.symm.trans resumed)
            obtain ⟨memoryId, answered⟩ := @TurnCall.Repeats.answered env sha256 session.shared _ _ _ repeats stored
            have settles := @settles_statement env sha256 session.shared _ repeats.unwritten.1 repeats.unwritten.2 named
            refine ⟨_, List.getElem?_set_self (List.getElem?_eq_some_iff.mp held).1, ?_, settles.answered⟩
            rw [answered]
            exact .inl ⟨memoryId, rfl⟩
          · refine ⟨call, by rw [List.getElem?_set_ne same, held], repeats, named.mono fun kept present => ?_⟩
            exact mem_turnStatement running present

/-- A call that names a line stored before it started never writes, whatever runs beside it, and its next statement
answers it with the memory of a stored line that it names. -/
theorem repeated_turn_answered {before session : Session CaptureDatabase (TurnCall env)}
    {request : TurnRequest env} {later : List (Turn (TurnRequest env))} {line : TranscriptLine}
    (stored : line ∈ before.shared.transcriptLines.rows) (named : request.write.Names line)
    (reaches : run (Session.next (enterTurn env) (turnStatement env sha256)) before (.start request :: later) =
      session) :
    ∃ call, session.calls[before.calls.length]? = some call ∧ call.wrote = none ∧ call.audited = none ∧
      ∃ found ∈ session.shared.transcriptLines.rows, request.write.Names found ∧
        turnStatement env sha256 call session.shared =
          (session.shared, .returned request (.ok ⟨found.memoryId, true⟩)) := by
  have started : StaysRepeated request line before.calls.length
      (before.next (enterTurn env) (turnStatement env sha256) (.start request)) :=
    ⟨stored, _, List.getElem?_concat_length, repeats_enter stored named, (settles_enter request before.shared).answered⟩
  have stays : StaysRepeated request line before.calls.length session := by
    rw [← reaches, run_cons]
    exact run_invariant_always (fun _ turn stays => stays.next turn) later started
  obtain ⟨kept, call, held, repeats, answerable⟩ := stays
  obtain ⟨memoryId, answered⟩ := @TurnCall.Repeats.answered env sha256 session.shared _ _ _ repeats kept
  have settles := @settles_statement env sha256 session.shared _ repeats.unwritten.1 repeats.unwritten.2 answerable
  refine ⟨call, held, repeats.unwritten.1, repeats.unwritten.2, ?_⟩
  have byLine := settles.answered
  rw [answered] at byLine
  obtain ⟨found, present, rfl, its⟩ := byLine
  exact ⟨found, present, its, answered⟩

/-- The line of a turn that a host captured. -/
def capturedLine : TranscriptLine := ⟨[1], "m1", "claude-code", none, some "session", some 4, 0⟩

/-- The recovery of the same turn from a transcript with another digest. -/
def recoveredTurn : RecoverTurnWrite :=
  ⟨Memory.base "m2" "2026-06-16T10:00:00+00:00", [2], [3], "claude-code", "/transcript", some "session", some 4, 5⟩

def recoverRequest : TurnRequest openWriterEnvironment := ⟨.recover recoveredTurn, (0 : Int), none⟩

def capturedTables : CaptureDatabase :=
  ⟨⟨KeyedTable.empty, [], [], none⟩, Table.single capturedLine, []⟩

def bridgedSession : Session CaptureDatabase (TurnCall openWriterEnvironment) :=
  captureRun openWriterEnvironment (fun bytes => digestOf bytes.length) capturedTables
    [.start recoverRequest, .start recoverRequest, .resume 0]

/-- A recovery that bridges to a captured turn is answered while another recovery of it runs. -/
theorem repeated_turn_answered_bridged :
    ∃ call, bridgedSession.calls[0]? = some call ∧ call.wrote = none ∧ call.audited = none ∧
      ∃ found ∈ bridgedSession.shared.transcriptLines.rows, recoverRequest.write.Names found ∧
        turnStatement openWriterEnvironment (fun bytes => digestOf bytes.length) call bridgedSession.shared =
          (bridgedSession.shared, .returned recoverRequest (.ok ⟨found.memoryId, true⟩)) :=
  @repeated_turn_answered openWriterEnvironment (fun bytes => digestOf bytes.length) ⟨capturedTables, []⟩
    bridgedSession recoverRequest [.start recoverRequest, .resume 0] capturedLine (List.mem_singleton_self _)
    (.inl ⟨"session", 4, rfl, rfl, rfl⟩) rfl

end ExactlyOnce
end AiMemory.Storage
