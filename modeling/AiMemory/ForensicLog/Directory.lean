import AiMemory.ForensicLog.Row
import AiMemory.Library.LinkedChain
import AiMemory.Library.Run
import AiMemory.Library.SortOn
import AiMemory.Machine.Base64

/-
This file embeds the daily files of the forensic log and their verification.
-/

namespace AiMemory.ForensicLog
open AiMemory.Crdt AiMemory.Library AiMemory.Machine

/-- A line that is no Unicode text cannot be read. -/
abbrev Line := Option String

structure LogFile where
  name : String
  lines : List Line

/-- A directory holds one file of each name. -/
structure Directory where
  files : List LogFile
  distinct : (files.map LogFile.name).Nodup

variable (env : Environment)

section Listing

def parseIsoDate (text : String) : Option Int := (env.calendar.parseFromStr text).map NaiveDate.code

def stem (name : String) : Option String :=
  (stripPrefix forensicFilePrefix name).bind (stripSuffix forensicFileSuffix)

def fileDate (name : String) : Option Int := (stem name).bind (parseIsoDate env)

/-- The listing admits the files whose stem is a date, in the order of their names. -/
def listForensicFiles (dir : Directory) : List LogFile :=
  (dir.files.filter fun file => (fileDate env file.name).isSome).insertionSort
    fun first second => first.name ≤ second.name

/-- The row that a line holds, if the line can be read and parsed. -/
def lineRow (line : Line) : Option ForensicDecision :=
  line.bind fun text => if blank text then none else (env.serde.fromStr text).toOption

def rowsOf (lines : List Line) : List ForensicDecision := lines.filterMap (lineRow env)

/-- The last row that parses hands its hash on. -/
def seedLines (prevHash : String) (lines : List Line) : String :=
  lines.foldl (fun prevHash line => ((lineRow env line).map (selfHash env)).getD prevHash) prevHash

/-- Only the last file by name is read. -/
def readChainTail (dir : Directory) : Option String :=
  (listForensicFiles env dir).getLast?.bind fun file =>
    file.lines.foldl (fun last line => ((lineRow env line).map (selfHash env)).or last) none

end Listing

section Verification

inductive VerifyFailureKind where
  | parse | chainBreak | signature
  deriving DecidableEq

structure VerifyFailure where
  lineNumber : Nat
  file : String
  kind : VerifyFailureKind
  detail : String
  deriving DecidableEq

structure VerifyReport where
  totalLines : Nat
  unsignedLines : Nat
  firstFailure : Option VerifyFailure
  deriving DecidableEq

structure Walk where
  prevHash : String
  total : Nat
  unsigned : Nat

/-- The walk ends early with a report or with an error. -/
inductive Stop where
  | failed (total unsigned : Nat) (failure : VerifyFailure)
  | unreadable (message : String)

def Walk.fail (walk : Walk) (file : String) (lineNumber : Nat) (kind : VerifyFailureKind)
    (detail : String) : Stop :=
  .failed walk.total walk.unsigned ⟨lineNumber, file, kind, detail⟩

/-- An accepted row is reported as unsigned or not. -/
def checkSignature (publicKey : Option VerifyingKey) (row : ForensicDecision) : Except String Bool :=
  if row.sig = "" then .ok true
  else
    match publicKey with
    | none => .ok false
    | some key =>
        match Base64.decode row.sig with
        | none => .error ("base64 decode failed: " ++ env.decodeError row.sig)
        | some bytes =>
            match tryFromSlice bytes with
            | none => .error ("signature has " ++ toString bytes.length ++ " bytes, expected 64")
            | some signature =>
                if key.verifyStrict (canonicalBytes env row) signature then .ok false
                else .error ("signature verify failed: " ++ env.signatureError)

/-- The row is counted before its link and its signature are checked. -/
def walkRow (publicKey : Option VerifyingKey) (file : String) (lineNumber : Nat) (walk : Walk)
    (row : ForensicDecision) : Except Stop Walk :=
  let walk := { walk with total := walk.total + 1 }
  if row.prevHash ≠ walk.prevHash then
    .error (walk.fail file lineNumber .chainBreak
      ("prev_hash mismatch: expected " ++ walk.prevHash ++ ", got " ++ row.prevHash))
  else
    match checkSignature env publicKey row with
    | .error detail => .error (walk.fail file lineNumber .signature detail)
    | .ok unsigned =>
        .ok ⟨selfHash env row, walk.total, if unsigned then walk.unsigned + 1 else walk.unsigned⟩

def walkLine (publicKey : Option VerifyingKey) (file : String) (lineNumber : Nat) (walk : Walk)
    (line : Line) : Except Stop Walk :=
  match line with
  | none => .error (.unreadable ("reading " ++ file ++ ":" ++ toString lineNumber))
  | some text =>
      if blank text then .ok walk
      else
        match env.serde.fromStr text with
        | .error error => .error (walk.fail file lineNumber .parse ("malformed JSON: " ++ error))
        | .ok row => walkRow env publicKey file lineNumber walk row

def walkLines (publicKey : Option VerifyingKey) (file : String) :
    Nat → Walk → List Line → Except Stop Walk
  | _, walk, [] => .ok walk
  | lineNumber, walk, line :: rest => do
      let walk ← walkLine env publicKey file lineNumber walk line
      walkLines publicKey file (lineNumber + 1) walk rest

def walkFile (publicKey : Option VerifyingKey) (walk : Walk) (file : LogFile) : Except Stop Walk :=
  walkLines env publicKey file.name 1 walk file.lines

/-- The listing admits only files that have a date. -/
def datedBefore (cutoff : Int) (file : LogFile) : Bool := (fileDate env file.name).any (· < cutoff)

/-- The files before the first one at the cutoff give the first link. -/
def seedHash (dir : Directory) (cutoff : Int) : String :=
  ((listForensicFiles env dir).takeWhile (datedBefore env cutoff)).foldl
    (fun prevHash file => seedLines env prevHash file.lines) chainHeadPrevHash

def walkedFiles (dir : Directory) (cutoff : Int) : List LogFile :=
  (listForensicFiles env dir).filter fun file => !datedBefore env cutoff file

def verifySince (dir : Directory) (since : String) (publicKey : Option VerifyingKey) :
    Except String VerifyReport :=
  match parseIsoDate env since with
  | none => .error ("parsing --since " ++ since ++ " as YYYY-MM-DD")
  | some cutoff =>
      match (walkedFiles env dir cutoff).foldlM (walkFile env publicKey) ⟨seedHash env dir cutoff, 0, 0⟩ with
      | .error (.failed total unsigned failure) => .ok ⟨total, unsigned, some failure⟩
      | .error (.unreadable message) => .error message
      | .ok walk => .ok ⟨walk.total, walk.unsigned, none⟩

end Verification

variable {env}

section Walking

/-- The walk reads the line as a row or skips it as blank. -/
def Readable (env : Environment) (line : Line) : Prop :=
  ∃ text, line = some text ∧ (blank text = true ∨ (env.serde.fromStr text).toOption.isSome)

/-- The rows continue the chain, their signatures pass, and the walk counts them. -/
def Passes (env : Environment) (publicKey : Option VerifyingKey) (walk : Walk) (rows : List ForensicDecision)
    (after : Walk) : Prop :=
  Linked ForensicDecision.prevHash (selfHash env) walk.prevHash rows ∧
    (∀ row ∈ rows, (checkSignature env publicKey row).toOption.isSome) ∧
    ⟨tip (selfHash env) walk.prevHash rows, walk.total + rows.length,
      walk.unsigned + rows.countP fun row => row.sig = ""⟩ = after

variable {publicKey : Option VerifyingKey}

theorem passes_nil {walk after : Walk} : Passes env publicKey walk [] after ↔ walk = after := by
  simp [Passes, Linked, tip]

/-- A walk passes two parts exactly when it passes them one after the other. -/
theorem passes_append {walk after : Walk} {first second : List ForensicDecision} :
    Passes env publicKey walk (first ++ second) after ↔
      ∃ middle, Passes env publicKey walk first middle ∧ Passes env publicKey middle second after := by
  constructor
  · intro passes
    obtain ⟨linked, accepted, rfl⟩ := passes
    obtain ⟨firstLinked, secondLinked⟩ := (linked_append _ first second).mp linked
    refine ⟨_, ⟨firstLinked, fun row present => accepted row (List.mem_append_left _ present), rfl⟩,
      secondLinked, fun row present => accepted row (List.mem_append_right _ present), ?_⟩
    simp [tip_append, Nat.add_assoc]
  · intro passes
    obtain ⟨middle, ⟨firstLinked, firstAccepted, rfl⟩, secondLinked, secondAccepted, rfl⟩ := passes
    refine ⟨(linked_append _ first second).mpr ⟨firstLinked, secondLinked⟩, ?_, ?_⟩
    · intro row present
      exact (List.mem_append.mp present).elim (firstAccepted row) (secondAccepted row)
    · simp [tip_append, Nat.add_assoc]

/-- A walk that fails is reported with what it has counted. -/
theorem verifySince_failed {dir : Directory} {since : String} {cutoff : Int} {total unsigned : Nat}
    {failure : VerifyFailure} (parsed : parseIsoDate env since = some cutoff)
    (failed : (walkedFiles env dir cutoff).foldlM (walkFile env publicKey) ⟨seedHash env dir cutoff, 0, 0⟩ =
      .error (.failed total unsigned failure)) :
    verifySince env dir since publicKey = .ok ⟨total, unsigned, some failure⟩ := by
  rw [verifySince, parsed]
  simp only [failed]

/-- A checked signature counts as unsigned exactly when it is empty. -/
theorem checkSignature_unsigned {row : ForensicDecision} {unsigned : Bool}
    (checked : checkSignature env publicKey row = .ok unsigned) : unsigned = decide (row.sig = "") := by
  unfold checkSignature at checked
  split at checked
  · rename_i empty
    rw [← Except.ok.inj checked, decide_eq_true empty]
  · rename_i signed
    rw [decide_eq_false signed]
    split at checked
    · exact (Except.ok.inj checked).symm
    · split at checked
      · cases checked
      · split at checked
        · cases checked
        · split at checked
          · exact (Except.ok.inj checked).symm
          · cases checked

/-- The walk accepts a row exactly when it passes it. -/
theorem walkRow_ok_iff {file : String} {lineNumber : Nat} {walk after : Walk} {row : ForensicDecision} :
    walkRow env publicKey file lineNumber walk row = .ok after ↔ Passes env publicKey walk [row] after := by
  unfold walkRow Passes
  simp only [Linked, tip, and_true, List.forall_mem_singleton, List.length_singleton]
  by_cases named : row.prevHash = walk.prevHash
  · rw [if_neg (not_not.mpr named)]
    cases checked : checkSignature env publicKey row with
    | error detail => simp [Except.toOption]
    | ok unsigned =>
        have told := checkSignature_unsigned checked
        by_cases empty : row.sig = "" <;> simp [named, empty, told, Except.toOption]
  · rw [if_pos named]
    simp [named]

/-- The walk accepts a line exactly when it can be read and its rows are passed. -/
theorem walkLine_ok_iff {file : String} {lineNumber : Nat} {walk after : Walk} {line : Line} :
    walkLine env publicKey file lineNumber walk line = .ok after ↔
      Readable env line ∧ Passes env publicKey walk (rowsOf env [line]) after := by
  cases line with
  | none => simp [walkLine, Readable]
  | some text =>
      by_cases empty : blank text
      · simp [walkLine, Readable, rowsOf, lineRow, empty, passes_nil]
      · cases read : env.serde.fromStr text with
        | error error => simp [walkLine, Readable, empty, read, Except.toOption]
        | ok row =>
            simp [walkLine, Readable, rowsOf, lineRow, empty, read, Except.toOption, walkRow_ok_iff]

theorem rowsOf_append (first second : List Line) :
    rowsOf env (first ++ second) = rowsOf env first ++ rowsOf env second :=
  List.filterMap_append

/-- The walk accepts the lines exactly when all can be read and their rows are passed. -/
theorem walkLines_ok_iff {file : String} {lineNumber : Nat} {walk after : Walk} {lines : List Line} :
    walkLines env publicKey file lineNumber walk lines = .ok after ↔
      (∀ line ∈ lines, Readable env line) ∧ Passes env publicKey walk (rowsOf env lines) after := by
  induction lines generalizing lineNumber walk with
  | nil => simp [walkLines, rowsOf, passes_nil]
  | cons line rest ih =>
      have rows : rowsOf env (line :: rest) = rowsOf env [line] ++ rowsOf env rest :=
        rowsOf_append [line] rest
      rw [walkLines, bind_eq_ok, rows, passes_append, List.forall_mem_cons]
      simp only [walkLine_ok_iff, ih]
      constructor
      · intro walked
        obtain ⟨middle, ⟨readable, passes⟩, restReadable, restPasses⟩ := walked
        exact ⟨⟨readable, restReadable⟩, middle, passes, restPasses⟩
      · intro walked
        obtain ⟨⟨readable, restReadable⟩, middle, passes, restPasses⟩ := walked
        exact ⟨middle, ⟨readable, passes⟩, restReadable, restPasses⟩

/-- The walk passes over files exactly when it passes over their rows in order. -/
theorem walkFiles_ok_iff {walk after : Walk} {files : List LogFile} :
    files.foldlM (walkFile env publicKey) walk = .ok after ↔
      (∀ file ∈ files, ∀ line ∈ file.lines, Readable env line) ∧
        Passes env publicKey walk (files.flatMap fun file => rowsOf env file.lines) after := by
  induction files generalizing walk with
  | nil =>
      rw [List.foldlM_nil, List.flatMap_nil, passes_nil]
      exact ⟨fun same => ⟨by simp, Except.ok.inj same⟩, fun same => congrArg Except.ok same.2⟩
  | cons file rest ih =>
      rw [List.foldlM_cons, bind_eq_ok, List.flatMap_cons, passes_append, List.forall_mem_cons]
      simp only [walkFile, walkLines_ok_iff, ih]
      constructor
      · intro walked
        obtain ⟨middle, ⟨readable, passes⟩, restReadable, restPasses⟩ := walked
        exact ⟨⟨readable, restReadable⟩, middle, passes, restPasses⟩
      · intro walked
        obtain ⟨⟨readable, restReadable⟩, middle, passes, restPasses⟩ := walked
        exact ⟨middle, ⟨readable, passes⟩, restReadable, restPasses⟩

/-- The rows of the files from the cutoff on. -/
def walkedRows (env : Environment) (dir : Directory) (cutoff : Int) : List ForensicDecision :=
  (walkedFiles env dir cutoff).flatMap fun file => rowsOf env file.lines

/-- A report without a failure counts the walked rows, which pass from the seed. -/
theorem verifySince_clean_iff {dir : Directory} {since : String} {cutoff : Int} {report : VerifyReport}
    (dated : parseIsoDate env since = some cutoff) :
    verifySince env dir since publicKey = .ok report ∧ report.firstFailure = none ↔
      ∃ after, (∀ file ∈ walkedFiles env dir cutoff, ∀ line ∈ file.lines, Readable env line) ∧
        Passes env publicKey ⟨seedHash env dir cutoff, 0, 0⟩ (walkedRows env dir cutoff) after ∧
        report = ⟨after.total, after.unsigned, none⟩ := by
  unfold verifySince
  simp only [dated]
  cases walked : (walkedFiles env dir cutoff).foldlM (walkFile env publicKey)
      ⟨seedHash env dir cutoff, 0, 0⟩ with
  | ok after =>
      obtain ⟨readable, passes⟩ := walkFiles_ok_iff.mp walked
      constructor
      · intro clean
        exact ⟨after, readable, passes, (Except.ok.inj clean.1).symm⟩
      · intro clean
        obtain ⟨other, _, otherPasses, rfl⟩ := clean
        have same : after = other := passes.2.2.symm.trans otherPasses.2.2
        exact ⟨same ▸ rfl, rfl⟩
  | error stop =>
      have failed : ∀ after, ¬ ((∀ file ∈ walkedFiles env dir cutoff,
            ∀ line ∈ file.lines, Readable env line) ∧
          Passes env publicKey ⟨seedHash env dir cutoff, 0, 0⟩ (walkedRows env dir cutoff) after) := by
        intro after passes
        cases walked.symm.trans (walkFiles_ok_iff.mpr passes)
      constructor
      · intro clean
        cases stop with
        | failed total unsigned failure =>
            obtain ⟨reported, none⟩ := clean
            rw [← Except.ok.inj reported] at none
            cases none
        | unreadable message => cases clean.1
      · intro clean
        obtain ⟨after, readable, passes, _⟩ := clean
        exact absurd ⟨readable, passes⟩ (failed after)

end Walking
end AiMemory.ForensicLog
