import AiMemory.Capability.Token
import AiMemory.ForensicLog.Directory

/-
This file embeds the sink that records decisions and its background writer.
-/

namespace AiMemory.ForensicLog
open AiMemory.Capability (SigningKey)
open AiMemory.Crdt AiMemory.Library AiMemory.Machine

/-- The writer appends a line to the file of the day, which it creates when it is absent. -/
def Directory.append (dir : Directory) (name line : String) : Directory where
  files :=
    if name ∈ dir.files.map LogFile.name then
      dir.files.map fun file =>
        if file.name = name then { file with lines := file.lines ++ [some line] } else file
    else dir.files ++ [⟨name, [some line]⟩]
  distinct := by
    split
    · have names : (dir.files.map fun file =>
          if file.name = name then { file with lines := file.lines ++ [some line] } else file).map
          LogFile.name = dir.files.map LogFile.name := by
        rw [List.map_map]
        apply List.map_congr_left
        intro file _
        show (if file.name = name then { file with lines := file.lines ++ [some line] } else file).name =
          file.name
        split <;> rfl
      rw [names]
      exact dir.distinct
    · rename_i absent
      rw [List.map_append, List.map_singleton]
      refine List.nodup_append.mpr ⟨dir.distinct, List.nodup_singleton _, ?_⟩
      intro first present second only same
      have named : first = name := same.trans (List.mem_singleton.mp only)
      exact absent (named ▸ present)

structure ForensicSink where
  lastHash : String
  signingKey : Option SigningKey

/-- The caller describes the decision. -/
structure Report where
  actor : String
  decision : String
  kind : String
  ruleId : String
  payload : Json

structure WriteOp where
  path : String
  line : String

variable (env : Environment)

def dailyPath (date : NaiveDate) : String := forensicFilePrefix ++ date.format ++ forensicFileSuffix

def formRow (sink : ForensicSink) (now : env.calendar.Instant) (report : Report) : ForensicDecision :=
  let row : ForensicDecision := ⟨env.calendar.toRfc3339Millis now, report.actor, report.decision, report.kind,
    report.ruleId, report.payload, sink.lastHash, ""⟩
  match sink.signingKey with
  | none => row
  | some key => { row with sig := Base64.encode (key.sign (canonicalBytes env row)).1 }

/-- The head of the chain moves when the line is queued. -/
def tryRecordDecision (sink : ForensicSink) (now : env.calendar.Instant) (report : Report) :
    ForensicSink × WriteOp :=
  let row := formRow env sink now report
  ({ sink with lastHash := selfHash env row },
    ⟨dailyPath (env.calendar.dateOf now), env.serde.toString row⟩)

section Steps

/-- The last field records the rows of the run with their dates. -/
structure State where
  directory : Directory
  sink : Option ForensicSink
  queue : List WriteOp
  recorded : List (NaiveDate × ForensicDecision)

inductive Label where
  | init
  | record (now : env.calendar.Instant) (report : Report)
  | write
  | shutdown

def State.start : State := ⟨⟨[], List.nodup_nil⟩, none, [], []⟩

def init (key : SigningKey) (state : State) : State :=
  { state with sink := some ⟨(readChainTail env state.directory).getD chainHeadPrevHash, some key⟩ }

/-- Without a sink the call does nothing. -/
def record (state : State) (now : env.calendar.Instant) (report : Report) : State :=
  match state.sink with
  | none => state
  | some sink =>
      let (sink', op) := tryRecordDecision env sink now report
      { state with
        sink := some sink'
        queue := state.queue ++ [op]
        recorded := state.recorded ++ [(env.calendar.dateOf now, formRow env sink now report)] }

def State.write (state : State) : State :=
  match state.queue with
  | [] => state
  | op :: rest => { state with directory := state.directory.append op.path op.line, queue := rest }

/-- The shutdown waits for the writer. -/
def State.shutdown (state : State) : State :=
  { state with
    directory := state.queue.foldl (fun dir op => dir.append op.path op.line) state.directory
    queue := []
    sink := none }

/-- Each call may meet any clock, and the writer runs at any time. -/
def step (key : SigningKey) (state : State) : Label env → State
  | .init => init env key state
  | .record now report => record env state now report
  | .write => state.write
  | .shutdown => state.shutdown

end Steps
end AiMemory.ForensicLog
