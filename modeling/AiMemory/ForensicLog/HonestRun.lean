import AiMemory.ForensicLog.Sink

/-
This file proves when the verification of an honest log reports no failure.
-/

namespace AiMemory.ForensicLog
open AiMemory.Capability (SigningKey)
open AiMemory.Crdt AiMemory.Library AiMemory.Machine

section Definitions

variable (env : Environment)

/-- What the code relies on in the calendar and the serializer. -/
structure Faithful : Prop where
  dates : ∀ date : NaiveDate, date.FourDigits → env.calendar.parseFromStr date.format = some date
  texts : ∀ text row, env.serde.fromStr text = .ok row → blank text = false

/-- The line of the row gives the row back. -/
def ReadsBack (row : ForensicDecision) : Prop :=
  ∃ again, env.serde.fromStr (env.serde.toString row) = .ok again ∧
    canonicalBytes env again = canonicalBytes env row ∧ again.prevHash = row.prevHash ∧ again.sig = row.sig

/-- The dates never decrease, each line reads back, and each restart finds the queue empty. -/
def Steady (state : State) : Label env → Prop
  | .init => state.queue = []
  | .record now report => ∀ sink, state.sink = some sink →
      (env.calendar.dateOf now).FourDigits ∧
        (∀ earlier ∈ state.recorded, earlier.1.code ≤ (env.calendar.dateOf now).code) ∧
        ReadsBack env (formRow env sink now report)
  | .write => True
  | .shutdown => True

end Definitions

variable {env : Environment}

section Layout

def LogFile.named (file : LogFile) : List (String × Line) := file.lines.map (Prod.mk file.name)

/-- The files in the order of their names hold the entries in their order. -/
structure Laid (files : List LogFile) (entries : List (String × Line)) : Prop where
  flat : files.flatMap LogFile.named = entries
  ascending : files.Pairwise fun first second => first.name < second.name
  filled : ∀ file ∈ files, file.lines ≠ []

theorem Laid.mem {files : List LogFile} {entries : List (String × Line)} (laid : Laid files entries)
    {file : LogFile} (present : file ∈ files) : ∃ entry ∈ entries, entry.1 = file.name := by
  obtain ⟨line, rest, lines⟩ := List.exists_cons_of_ne_nil (laid.filled file present)
  refine ⟨(file.name, line), ?_, rfl⟩
  rw [← laid.flat, List.mem_flatMap]
  exact ⟨file, present, by simp [LogFile.named, lines]⟩

/-- The file of the last day is the last one. -/
theorem Laid.split_last {files : List LogFile} {entries : List (String × Line)} (laid : Laid files entries)
    {last : LogFile} (present : last ∈ files) (below : ∀ file ∈ files, file.name ≤ last.name) :
    ∃ before, files = before ++ [last] ∧ ∀ file ∈ before, file.name < last.name := by
  obtain ⟨before, after, split⟩ := List.append_of_mem present
  have ascending := laid.ascending
  rw [split] at ascending
  obtain ⟨_, restAscending, apart⟩ := List.pairwise_append.mp ascending
  have none : after = [] := by
    apply List.eq_nil_iff_forall_not_mem.mpr
    intro file later
    have higher := (List.pairwise_cons.mp restAscending).1 file later
    exact absurd (below file (by simp [split, later])) (not_le_of_gt higher)
  subst none
  exact ⟨before, split, fun file earlier => apart file earlier last List.mem_cons_self⟩

/-- A line at the end of the last file is the last entry. -/
theorem Laid.extend {before : List LogFile} {last : LogFile} {entries : List (String × Line)}
    (laid : Laid (before ++ [last]) entries) (line : String) :
    Laid (before ++ [{ last with lines := last.lines ++ [some line] }]) (entries ++ [(last.name, some line)]) where
  flat := by
    rw [← laid.flat]
    simp [LogFile.named]
  ascending := by
    obtain ⟨beforeAscending, _, apart⟩ := List.pairwise_append.mp laid.ascending
    refine List.pairwise_append.mpr ⟨beforeAscending, List.pairwise_singleton _ _, ?_⟩
    intro file earlier other only
    rw [List.mem_singleton.mp only]
    exact apart file earlier last List.mem_cons_self
  filled := by
    intro file present
    rcases List.mem_append.mp present with earlier | only
    · exact laid.filled file (List.mem_append_left _ earlier)
    · rw [List.mem_singleton.mp only]
      simp

/-- A new file behind the others holds the last entry. -/
theorem Laid.behind {files : List LogFile} {entries : List (String × Line)} (laid : Laid files entries)
    {name : String} (below : ∀ file ∈ files, file.name < name) (line : String) :
    Laid (files ++ [⟨name, [some line]⟩]) (entries ++ [(name, some line)]) where
  flat := by
    rw [List.flatMap_append, laid.flat, List.flatMap_singleton]
    rfl
  ascending := by
    refine List.pairwise_append.mpr ⟨laid.ascending, List.pairwise_singleton _ _, ?_⟩
    intro file earlier other only
    rw [List.mem_singleton.mp only]
    exact below file earlier
  filled := by
    intro file present
    rcases List.mem_append.mp present with earlier | only
    · exact laid.filled file earlier
    · rw [List.mem_singleton.mp only]
      exact List.cons_ne_nil _ _

/-- An entry of the last day goes to the last file or to a new one behind it. -/
theorem Laid.append {dir : Directory} {entries : List (String × Line)} (laid : Laid dir.files entries)
    {name : String} (above : ∀ entry ∈ entries, entry.1 ≤ name) (line : String) :
    Laid (dir.append name line).files (entries ++ [(name, some line)]) := by
  have below : ∀ file ∈ dir.files, file.name ≤ name := by
    intro file present
    obtain ⟨entry, held, same⟩ := laid.mem present
    exact same ▸ above entry held
  unfold Directory.append
  split
  · rename_i held
    obtain ⟨last, present, rfl⟩ := List.mem_map.mp held
    obtain ⟨before, split, earlier⟩ := laid.split_last present below
    rw [split] at laid
    have kept : before.map (fun file => if file.name = last.name then
        { file with lines := file.lines ++ [some line] } else file) = before :=
      (List.map_congr_left fun file listed => if_neg (ne_of_lt (earlier file listed))).trans (List.map_id before)
    have files : dir.files.map (fun file => if file.name = last.name then
        { file with lines := file.lines ++ [some line] } else file) =
        before ++ [{ last with lines := last.lines ++ [some line] }] := by
      rw [split, List.map_append, kept, List.map_singleton, if_pos rfl]
    show Laid (dir.files.map _) _
    rw [files]
    exact laid.extend line
  · rename_i absent
    refine laid.behind (fun file earlier => ?_) line
    exact lt_of_le_of_ne (below file earlier) fun same : file.name = name =>
      absent (same ▸ List.mem_map_of_mem earlier)

end Layout

section Reading

/-- The row that is read back from the line of a row. -/
def image (env : Environment) (row : ForensicDecision) : ForensicDecision :=
  (env.serde.fromStr (env.serde.toString row)).toOption.getD row

/-- What a written row is read back as is written like the row. -/
theorem ReadsBack.image_eq {row : ForensicDecision} (back : ReadsBack env row) :
    env.serde.fromStr (env.serde.toString row) = .ok (image env row) ∧
      canonicalBytes env (image env row) = canonicalBytes env row ∧
      (image env row).prevHash = row.prevHash ∧ (image env row).sig = row.sig := by
  obtain ⟨again, read, same⟩ := back
  have found : image env row = again := by
    rw [image, read]
    rfl
  rw [found]
  exact ⟨read, same⟩

/-- What a written row is read back as is linked like the row. -/
theorem ReadsBack.links {row : ForensicDecision} (back : ReadsBack env row) :
    (image env row).prevHash = row.prevHash ∧ selfHash env (image env row) = selfHash env row :=
  ⟨back.image_eq.2.2.1, by rw [selfHash, selfHash, back.image_eq.2.1]⟩

theorem ReadsBack.lineRow_eq (faithful : Faithful env) {row : ForensicDecision} (back : ReadsBack env row) :
    lineRow env (some (env.serde.toString row)) = some (image env row) := by
  have read := back.image_eq.1
  simp [lineRow, faithful.texts _ _ read, read, Except.toOption]

/-- The seed of a file is the tip of its rows. -/
theorem seedLines_eq (prevHash : String) (lines : List Line) :
    seedLines env prevHash lines = tip (selfHash env) prevHash (rowsOf env lines) := by
  induction lines generalizing prevHash with
  | nil => rfl
  | cons line rest ih =>
      cases row : lineRow env line with
      | none => simpa [seedLines, rowsOf, row] using ih prevHash
      | some row' => simpa [seedLines, rowsOf, row, tip] using ih (selfHash env row')

/-- The seed of the files is the tip of their rows. -/
theorem seedFiles_eq (prevHash : String) (files : List LogFile) :
    files.foldl (fun prevHash file => seedLines env prevHash file.lines) prevHash =
      tip (selfHash env) prevHash (files.flatMap fun file => rowsOf env file.lines) := by
  induction files generalizing prevHash with
  | nil => rfl
  | cons file rest ih => rw [List.foldl_cons, ih, seedLines_eq, List.flatMap_cons, tip_append]

/-- A file with a row gives the tip of its rows after any link. -/
theorem tailLines_eq {lines : List Line} (filled : rowsOf env lines ≠ []) (last : Option String)
    (prevHash : String) :
    lines.foldl (fun last line => ((lineRow env line).map (selfHash env)).or last) last =
      some (tip (selfHash env) prevHash (rowsOf env lines)) := by
  have started : ∀ (lines : List Line) (prevHash : String),
      lines.foldl (fun last line => ((lineRow env line).map (selfHash env)).or last) (some prevHash) =
        some (tip (selfHash env) prevHash (rowsOf env lines)) := by
    intro lines
    induction lines with
    | nil => exact fun _ => rfl
    | cons line rest ih =>
        intro prevHash
        cases row : lineRow env line with
        | none => simpa [rowsOf, row] using ih prevHash
        | some row' => simpa [rowsOf, row, tip] using ih (selfHash env row')
  induction lines generalizing last with
  | nil => exact absurd rfl filled
  | cons line rest ih =>
      cases row : lineRow env line with
      | none =>
          have kept : rowsOf env (line :: rest) = rowsOf env rest := by simp [rowsOf, row]
          rw [kept] at filled ⊢
          simpa [row] using ih filled last
      | some row' => simpa [rowsOf, row, tip] using started rest (selfHash env row')

end Reading

section Dates

/-- The names of the daily files are in the order of their dates. -/
theorem dailyPath_lt {first second : NaiveDate} (firstShort : first.FourDigits)
    (secondShort : second.FourDigits) (below : first.code < second.code) :
    dailyPath first < dailyPath second := by
  have formats := String.lt_iff_toList_lt.mp (NaiveDate.format_lt firstShort secondShort below)
  have lengths := (NaiveDate.length_format firstShort).trans (NaiveDate.length_format secondShort).symm
  rw [String.lt_iff_toList_lt]
  simp only [dailyPath, String.toList_append, List.append_assoc]
  exact List.append_left_lt (NaiveDate.append_lt_append lengths formats _ _)

/-- The paths of the days sort like the days. -/
theorem dailyPath_le {first second : NaiveDate} (firstShort : first.FourDigits)
    (secondShort : second.FourDigits) (ordered : first.code ≤ second.code) :
    dailyPath first ≤ dailyPath second := by
  rcases Int.lt_or_eq_of_le ordered with below | same
  · exact le_of_lt (dailyPath_lt firstShort secondShort below)
  · exact le_of_eq (congrArg dailyPath (NaiveDate.eq_of_code firstShort secondShort same))

/-- A path that does not come later names a day that is not later. -/
theorem code_le_of_dailyPath {first second : NaiveDate} (firstShort : first.FourDigits)
    (secondShort : second.FourDigits) (ordered : dailyPath first ≤ dailyPath second) :
    first.code ≤ second.code := by
  by_contra above
  exact absurd (dailyPath_lt secondShort firstShort (Int.not_le.mp above)) (not_lt_of_ge ordered)

/-- The path of a day is read back as the day. -/
theorem fileDate_dailyPath (faithful : Faithful env) {date : NaiveDate} (short : date.FourDigits) :
    fileDate env (dailyPath date) = some date.code := by
  have stripped : stem (dailyPath date) = some date.format := by
    rw [stem, dailyPath, String.append_assoc, stripPrefix_append]
    exact stripSuffix_append _ _
  rw [fileDate, stripped]
  simp [parseIsoDate, faithful.dates date short]

end Dates

section Rows

/-- The writer is asked to append the line of the row to the file of its day. -/
def opOf (env : Environment) (entry : NaiveDate × ForensicDecision) : WriteOp :=
  ⟨dailyPath entry.1, env.serde.toString entry.2⟩

def entryOf (env : Environment) (entry : NaiveDate × ForensicDecision) : String × Line :=
  (dailyPath entry.1, some (env.serde.toString entry.2))

/-- A row of a known date that reads back. -/
def Recorded (env : Environment) (entry : NaiveDate × ForensicDecision) : Prop :=
  entry.1.FourDigits ∧ ReadsBack env entry.2

variable {dir : Directory} {done : List (NaiveDate × ForensicDecision)}

/-- The files of a laid directory are named after recorded days. -/
theorem Laid.dated (faithful : Faithful env) (laid : Laid dir.files (done.map (entryOf env)))
    (rows : ∀ entry ∈ done, Recorded env entry) {file : LogFile} (present : file ∈ dir.files) :
    ∃ date : NaiveDate, date.FourDigits ∧ file.name = dailyPath date ∧
      fileDate env file.name = some date.code := by
  obtain ⟨entry, held, same⟩ := laid.mem present
  obtain ⟨source, recorded, rfl⟩ := List.mem_map.mp held
  have short := (rows source recorded).1
  exact ⟨source.1, short, same.symm, same ▸ fileDate_dailyPath faithful short⟩

/-- The listing finds the files as they are laid. -/
theorem Laid.listed (faithful : Faithful env) (laid : Laid dir.files (done.map (entryOf env)))
    (rows : ∀ entry ∈ done, Recorded env entry) : listForensicFiles env dir = dir.files := by
  have admitted : dir.files.filter (fun file => (fileDate env file.name).isSome) = dir.files := by
    apply List.filter_eq_self.mpr
    intro file present
    obtain ⟨date, _, _, dated⟩ := laid.dated faithful rows present
    simp [dated]
  rw [listForensicFiles, admitted]
  exact insertionSort_eq laid.ascending

/-- The files hold the recorded rows in their order. -/
theorem Laid.rows_eq (faithful : Faithful env) (laid : Laid dir.files (done.map (entryOf env)))
    (rows : ∀ entry ∈ done, Recorded env entry) :
    dir.files.flatMap (fun file => rowsOf env file.lines) = done.map fun entry => image env entry.2 := by
  have lines : dir.files.flatMap LogFile.lines = done.map fun entry => some (env.serde.toString entry.2) := by
    have snds := congrArg (List.map Prod.snd) laid.flat
    rw [List.map_flatMap, List.map_map] at snds
    simpa [LogFile.named, Function.comp_def, entryOf] using snds
  have flattened : dir.files.flatMap (fun file => rowsOf env file.lines) =
      rowsOf env (dir.files.flatMap LogFile.lines) :=
    (List.filterMap_flatMap ..).symm
  rw [flattened, lines, rowsOf, List.filterMap_map]
  apply List.filterMap_eq_map_iff_forall_eq_some.mpr
  intro entry present
  exact (rows entry present).2.lineRow_eq faithful

/-- The lines of a laid directory can be read. -/
theorem Laid.readable (laid : Laid dir.files (done.map (entryOf env)))
    (rows : ∀ entry ∈ done, Recorded env entry) {file : LogFile} (present : file ∈ dir.files) {line : Line}
    (held : line ∈ file.lines) : Readable env line := by
  have entry : (file.name, line) ∈ done.map (entryOf env) := by
    rw [← laid.flat]
    exact List.mem_flatMap.mpr ⟨file, present, List.mem_map_of_mem held⟩
  obtain ⟨source, recorded, same⟩ := List.mem_map.mp entry
  refine ⟨env.serde.toString source.2, (congrArg Prod.snd same).symm, .inr ?_⟩
  rw [(rows source recorded).2.image_eq.1]
  rfl

/-- The restart finds the hash of the last recorded row. -/
theorem Laid.tail_eq (faithful : Faithful env) (laid : Laid dir.files (done.map (entryOf env)))
    (rows : ∀ entry ∈ done, Recorded env entry) :
    (readChainTail env dir).getD chainHeadPrevHash =
      tip (selfHash env) chainHeadPrevHash (done.map fun entry => image env entry.2) := by
  rw [readChainTail, laid.listed faithful rows, ← laid.rows_eq faithful rows]
  rcases List.eq_nil_or_concat dir.files with empty | ⟨before, last, split⟩
  · rw [empty]
    rfl
  · rw [List.concat_eq_append] at split
    have present : last ∈ dir.files := by simp [split]
    have filled : rowsOf env last.lines ≠ [] := by
      obtain ⟨line, rest, lines⟩ := List.exists_cons_of_ne_nil (laid.filled last present)
      have entry : (last.name, line) ∈ done.map (entryOf env) := by
        rw [← laid.flat]
        exact List.mem_flatMap.mpr ⟨last, present, by simp [LogFile.named, lines]⟩
      obtain ⟨source, recorded, same⟩ := List.mem_map.mp entry
      have row := (rows source recorded).2.lineRow_eq faithful
      have named : line = some (env.serde.toString source.2) := (congrArg Prod.snd same).symm
      simp [rowsOf, lines, named, row]
    rw [split, List.getLast?_concat, Option.bind_some, List.flatMap_append, tip_append,
      List.flatMap_singleton, tailLines_eq filled none]
    rfl

end Rows

section Invariant

/-- The files hold the written rows, the queue holds the others, and together they are the chain. -/
structure Invariant (env : Environment) (key : SigningKey) (state : State)
    (done pending : List (NaiveDate × ForensicDecision)) : Prop where
  recorded : state.recorded = done ++ pending
  queue : state.queue = pending.map (opOf env)
  laid : Laid state.directory.files (done.map (entryOf env))
  dated : state.recorded.Pairwise fun first second => first.1.code ≤ second.1.code
  rows : ∀ entry ∈ state.recorded, Recorded env entry
  signed : ∀ entry ∈ state.recorded,
    (checkSignature env (some key.verifyingKey) entry.2).toOption.isSome
  linked : Linked ForensicDecision.prevHash (selfHash env) chainHeadPrevHash (state.recorded.map Prod.snd)
  head : ∀ sink, state.sink = some sink → sink.signingKey = some key ∧
    sink.lastHash = tip (selfHash env) chainHeadPrevHash (state.recorded.map Prod.snd)

variable {key : SigningKey} {state : State} {done pending : List (NaiveDate × ForensicDecision)}

/-- An empty directory meets the invariant. -/
theorem Invariant.start : Invariant env key State.start [] [] where
  recorded := rfl
  queue := rfl
  laid := ⟨rfl, .nil, fun _ present => absurd present List.not_mem_nil⟩
  dated := .nil
  rows := fun _ present => absurd present List.not_mem_nil
  signed := fun _ present => absurd present List.not_mem_nil
  linked := trivial
  head := fun _ absent => nomatch absent

/-- The rows on disk were recorded. -/
theorem Invariant.done_rows (invariant : Invariant env key state done pending) :
    ∀ entry ∈ done, Recorded env entry := by
  intro entry present
  exact invariant.rows entry (invariant.recorded ▸ List.mem_append_left _ present)

/-- The rows that are read back hold the links of the rows. -/
theorem Invariant.links (invariant : Invariant env key state done pending) :
    ∀ row ∈ done.map Prod.snd,
      (image env row).prevHash = row.prevHash ∧ selfHash env (image env row) = selfHash env row := by
  intro row present
  obtain ⟨entry, held, rfl⟩ := List.mem_map.mp present
  exact (invariant.done_rows entry held).2.links

/-- A restart over an empty queue keeps the invariant. -/
theorem Invariant.init (faithful : Faithful env) (invariant : Invariant env key state done pending)
    (idle : state.queue = []) : Invariant env key (init env key state) done pending where
  recorded := invariant.recorded
  queue := invariant.queue
  laid := invariant.laid
  dated := invariant.dated
  rows := invariant.rows
  signed := invariant.signed
  linked := invariant.linked
  head := by
    intro sink opened
    obtain rfl := Option.some.inj opened
    have nothing : pending = [] := List.map_eq_nil_iff.mp (invariant.queue.symm.trans idle)
    refine ⟨rfl, (invariant.laid.tail_eq faithful invariant.done_rows).trans ?_⟩
    have images : (done.map fun entry => image env entry.2) = (done.map Prod.snd).map (image env) := by
      rw [List.map_map]
      rfl
    show _ = tip (selfHash env) chainHeadPrevHash (state.recorded.map Prod.snd)
    rw [images, (linked_map invariant.links _).2, invariant.recorded, nothing, List.append_nil]

/-- The sink signs its row over the canonical bytes. -/
theorem formRow_signed {sink : ForensicSink} (keyed : sink.signingKey = some key)
    (now : env.calendar.Instant) (report : Report) :
    (checkSignature env (some key.verifyingKey) (formRow env sink now report)).toOption.isSome := by
  unfold checkSignature
  split
  · rfl
  · simp only [formRow, keyed, Base64.decode_encode, tryFromSlice, (key.sign _).2, dite_true]
    rw [if_pos]
    · rfl
    · exact key.verifies _

theorem formRow_prevHash (sink : ForensicSink) (now : env.calendar.Instant) (report : Report) :
    (formRow env sink now report).prevHash = sink.lastHash := by
  unfold formRow
  simp only
  split <;> rfl

/-- A steady record keeps the invariant. -/
theorem Invariant.record (invariant : Invariant env key state done pending)
    {now : env.calendar.Instant} {report : Report} (steady : Steady env state (.record now report)) :
    ∃ pending, Invariant env key (record env state now report) done pending := by
  cases opened : state.sink with
  | none =>
      have same : ForensicLog.record env state now report = state := by
        rw [ForensicLog.record, opened]
      exact ⟨pending, same.symm ▸ invariant⟩
  | some sink =>
      obtain ⟨short, later, back⟩ := steady sink opened
      obtain ⟨keyed, head⟩ := invariant.head sink opened
      have next : ForensicLog.record env state now report =
          { state with
            sink := some { sink with lastHash := selfHash env (formRow env sink now report) }
            queue := state.queue ++ [opOf env (env.calendar.dateOf now, formRow env sink now report)]
            recorded := state.recorded ++ [(env.calendar.dateOf now, formRow env sink now report)] } := by
        rw [ForensicLog.record, opened]
        rfl
      rw [next]
      refine ⟨pending ++ [(env.calendar.dateOf now, formRow env sink now report)], ?_⟩
      constructor
      · show state.recorded ++ _ = _
        rw [invariant.recorded, List.append_assoc]
      · show state.queue ++ _ = _
        rw [invariant.queue, List.map_append, List.map_singleton]
      · exact invariant.laid
      · refine List.pairwise_append.mpr ⟨invariant.dated, List.pairwise_singleton _ _, ?_⟩
        intro earlier present entry only
        rw [List.mem_singleton.mp only]
        exact later earlier present
      · intro entry present
        rcases List.mem_append.mp present with old | new
        · exact invariant.rows entry old
        · rw [List.mem_singleton.mp new]
          exact ⟨short, back⟩
      · intro entry present
        rcases List.mem_append.mp present with old | new
        · exact invariant.signed entry old
        · rw [List.mem_singleton.mp new]
          exact formRow_signed keyed now report
      · show Linked _ _ _ ((state.recorded ++ [_]).map Prod.snd)
        rw [List.map_append, List.map_singleton, linked_concat]
        exact ⟨invariant.linked, (formRow_prevHash sink now report).trans head⟩
      · intro sink' moved
        obtain rfl := Option.some.inj moved
        refine ⟨keyed, ?_⟩
        show _ = tip _ _ ((state.recorded ++ [_]).map Prod.snd)
        rw [List.map_append, List.map_singleton, tip_concat]

/-- The writer appends the first pending row behind the written ones. -/
theorem Invariant.append {entry : NaiveDate × ForensicDecision}
    (invariant : Invariant env key state done (entry :: pending)) :
    Laid (state.directory.append (opOf env entry).path (opOf env entry).line).files
      ((done ++ [entry]).map (entryOf env)) := by
  have held : entry ∈ state.recorded := by simp [invariant.recorded]
  have dated := invariant.dated
  rw [invariant.recorded] at dated
  rw [List.map_append, List.map_singleton]
  apply invariant.laid.append
  intro other present
  obtain ⟨source, recorded, rfl⟩ := List.mem_map.mp present
  exact dailyPath_le (invariant.done_rows source recorded).1 (invariant.rows entry held).1
    ((List.pairwise_append.mp dated).2.2 source recorded entry List.mem_cons_self)

/-- The row that waits longest moves to the directory. -/
theorem Invariant.written {entry : NaiveDate × ForensicDecision}
    (invariant : Invariant env key state done (entry :: pending)) :
    Invariant env key
      { state with
        directory := state.directory.append (opOf env entry).path (opOf env entry).line
        queue := pending.map (opOf env) } (done ++ [entry]) pending where
  recorded := by simp [invariant.recorded]
  queue := rfl
  laid := invariant.append
  dated := invariant.dated
  rows := invariant.rows
  signed := invariant.signed
  linked := invariant.linked
  head := invariant.head

/-- A write keeps the invariant. -/
theorem Invariant.write (invariant : Invariant env key state done pending) :
    ∃ done pending, Invariant env key state.write done pending := by
  cases pending with
  | nil =>
      have same : state.write = state := by
        rw [State.write, invariant.queue]
        rfl
      exact ⟨done, [], same.symm ▸ invariant⟩
  | cons entry rest =>
      have next : state.write =
          { state with
            directory := state.directory.append (opOf env entry).path (opOf env entry).line
            queue := rest.map (opOf env) } := by
        rw [State.write, invariant.queue]
        rfl
      exact ⟨done ++ [entry], rest, next.symm ▸ invariant.written⟩

/-- Closing the sink keeps the invariant. -/
theorem Invariant.closed (invariant : Invariant env key state done pending) :
    Invariant env key { state with sink := none } done pending where
  recorded := invariant.recorded
  queue := invariant.queue
  laid := invariant.laid
  dated := invariant.dated
  rows := invariant.rows
  signed := invariant.signed
  linked := invariant.linked
  head := fun _ absent => nomatch absent

/-- The shutdown writes the queue as the writer does. -/
theorem Invariant.shutdown (invariant : Invariant env key state done pending) :
    ∃ done pending, Invariant env key state.shutdown done pending := by
  induction pending generalizing state done with
  | nil =>
      have same : state.shutdown = { state with sink := none } := by
        have empty : state.queue = [] := invariant.queue
        rw [State.shutdown, empty]
        rfl
      exact ⟨done, [], same.symm ▸ invariant.closed⟩
  | cons entry rest ih =>
      have same : state.shutdown = State.shutdown
          { state with
            directory := state.directory.append (opOf env entry).path (opOf env entry).line
            queue := rest.map (opOf env) } := by
        rw [State.shutdown, invariant.queue]
        rfl
      rw [same]
      exact ih invariant.written

/-- A steady step keeps the invariant. -/
theorem Invariant.step (faithful : Faithful env) (invariant : Invariant env key state done pending)
    {label : Label env} (steady : Steady env state label) :
    ∃ done pending, Invariant env key (ForensicLog.step env key state label) done pending := by
  cases label with
  | init => exact ⟨done, pending, invariant.init faithful steady⟩
  | record now report => exact ⟨done, invariant.record steady⟩
  | write => exact invariant.write
  | shutdown => exact invariant.shutdown

/-- The rows from any date on continue the chain of the rows before it. -/
theorem Invariant.passes (faithful : Faithful env) (invariant : Invariant env key state done pending)
    (cutoff : Int) :
    ∃ after, Passes env (some key.verifyingKey) ⟨seedHash env state.directory cutoff, 0, 0⟩
      (walkedRows env state.directory cutoff) after := by
  have rows := invariant.done_rows
  have listed := invariant.laid.listed faithful rows
  have downward : state.directory.files.Pairwise fun first second =>
      datedBefore env cutoff second = true → datedBefore env cutoff first = true := by
    refine invariant.laid.ascending.imp_of_mem ?_
    intro first second firstPresent secondPresent below before
    obtain ⟨firstDate, firstShort, firstName, firstDated⟩ :=
      invariant.laid.dated faithful rows firstPresent
    obtain ⟨secondDate, secondShort, secondName, secondDated⟩ :=
      invariant.laid.dated faithful rows secondPresent
    rw [firstName, secondName] at below
    have ordered := code_le_of_dailyPath firstShort secondShort (le_of_lt below)
    simp only [datedBefore, firstDated, secondDated, Option.any_some, decide_eq_true_eq] at before ⊢
    exact Int.lt_of_le_of_lt ordered before
  have split := takeWhile_append_filter downward
  have images : (done.map fun entry => image env entry.2) = (done.map Prod.snd).map (image env) := by
    rw [List.map_map]
    rfl
  have linked : Linked ForensicDecision.prevHash (selfHash env) chainHeadPrevHash
      (done.map fun entry => image env entry.2) := by
    have written := invariant.linked
    rw [invariant.recorded, List.map_append, linked_append] at written
    rw [images, (linked_map invariant.links _).1]
    exact written.1
  rw [← invariant.laid.rows_eq faithful rows, ← split, List.flatMap_append, linked_append] at linked
  rw [seedHash, seedFiles_eq, walkedRows, walkedFiles, listed]
  refine ⟨_, linked.2, ?_, rfl⟩
  intro row present
  obtain ⟨file, kept, held⟩ := List.mem_flatMap.mp present
  have read : row ∈ done.map fun entry => image env entry.2 := by
    rw [← invariant.laid.rows_eq faithful rows]
    exact List.mem_flatMap.mpr ⟨file, List.mem_of_mem_filter kept, held⟩
  obtain ⟨entry, written, rfl⟩ := List.mem_map.mp read
  have back := (rows entry written).2.image_eq
  have signed := invariant.signed entry (invariant.recorded ▸ List.mem_append_left _ written)
  unfold checkSignature at signed ⊢
  rw [back.2.1, back.2.2.2]
  exact signed

/-- A directory that meets the invariant verifies from every day on. -/
theorem Invariant.clean (faithful : Faithful env) (invariant : Invariant env key state done pending)
    {since : String} (dated : (parseIsoDate env since).isSome) :
    ∃ report, verifySince env state.directory since (some key.verifyingKey) = .ok report ∧
      report.firstFailure = none := by
  obtain ⟨cutoff, parsed⟩ := Option.isSome_iff_exists.mp dated
  obtain ⟨after, passes⟩ := invariant.passes faithful cutoff
  refine ⟨_, (verifySince_clean_iff parsed).mpr ⟨after, ?_, passes, rfl⟩⟩
  intro file kept line held
  rw [walkedFiles, invariant.laid.listed faithful invariant.done_rows] at kept
  exact invariant.laid.readable invariant.done_rows (List.mem_of_mem_filter kept) held

end Invariant

/-- A steady run leaves a log that verifies from every date on. -/
theorem steady_verifies (faithful : Faithful env) (key : SigningKey) {labels : List (Label env)}
    (steady : EveryStep (step env key) (Steady env) State.start labels) {since : String}
    (dated : (parseIsoDate env since).isSome) :
    ∃ report, verifySince env (run (step env key) State.start labels).directory since
        (some key.verifyingKey) = .ok report ∧ report.firstFailure = none := by
  have reached : ∃ done pending, Invariant env key (run (step env key) State.start labels) done pending := by
    refine @run_invariant _ _ _ _ (fun state => ∃ done pending, Invariant env key state done pending) ?_ _ _
      steady ?_
    · intro state label steady invariant
      obtain ⟨done, pending, held⟩ := invariant
      exact held.step faithful steady
    · exact ⟨[], [], Invariant.start⟩
  obtain ⟨done, pending, invariant⟩ := reached
  exact invariant.clean faithful dated

section Samples

def digitOf (char : Char) : Nat := char.toNat - 48

/-- The reader of dates with years of four digits. -/
def readDate (text : String) : Option NaiveDate :=
  match text.toList with
  | [thousands, hundreds, tens, ones, _, upper, lower, _, upperDay, lowerDay] =>
      let year : Int := digitOf thousands * 1000 + digitOf hundreds * 100 + digitOf tens * 10 + digitOf ones
      let month := digitOf upper * 10 + digitOf lower
      let day := digitOf upperDay * 10 + digitOf lowerDay
      if valid : (1 ≤ month ∧ month ≤ 12) ∧ 1 ≤ day ∧ day ≤ daysIn year month then
        some ⟨year, month, day, valid.1, valid.2⟩
      else none
  | _ => none

theorem digitOf_digit (number : Nat) : digitOf (NaiveDate.digit number) = number % 10 := by
  have table : ∀ low < 10, digitOf (Char.ofNat (48 + low)) = low := by decide
  exact table _ (Nat.mod_lt _ (by decide))

/-- A day is read back from its text. -/
theorem readDate_format {date : NaiveDate} (short : date.FourDigits) : readDate date.format = some date := by
  obtain ⟨year, month, day, months, days⟩ := date
  simp only [NaiveDate.FourDigits] at short
  have bound := daysIn_le year month
  have chars : (NaiveDate.format ⟨year, month, day, months, days⟩).toList =
      [NaiveDate.digit (year.toNat / 10 / 10 / 10), NaiveDate.digit (year.toNat / 10 / 10),
        NaiveDate.digit (year.toNat / 10), NaiveDate.digit year.toNat, '-', NaiveDate.digit (month / 10),
        NaiveDate.digit month, '-', NaiveDate.digit (day / 10), NaiveDate.digit day] := by
    simp only [NaiveDate.format, String.toList_ofList, NaiveDate.formatYear]
    rw [if_pos (by omega)]
    rfl
  have yearDigits : ((year.toNat / 10 / 10 / 10 % 10 : Nat) : Int) * 1000 + (year.toNat / 10 / 10 % 10 : Nat) * 100 +
      (year.toNat / 10 % 10 : Nat) * 10 + (year.toNat % 10 : Nat) = year := by omega
  have monthDigits : month / 10 % 10 * 10 + month % 10 = month := by omega
  have dayDigits : day / 10 % 10 * 10 + day % 10 = day := by omega
  simp only [readDate, chars, digitOf_digit, yearDigits, monthDigits, dayDigits]
  exact dif_pos ⟨months, days⟩

def sampleText (ts prevHash sig : String) : String :=
  "\x7b\"ts\":\"" ++ ts ++ "\",\"actor\":\"ai:claude\",\"decision\":\"refuse\",\"kind\":\"bash\"," ++
    "\"rule_id\":\"R001\",\"payload\":\x7b\x7d,\"prev_hash\":\"" ++ prevHash ++ "\",\"sig\":\"" ++ sig ++
    "\"\x7d"

theorem sampleText_inked (ts prevHash sig : String) : blank (sampleText ts prevHash sig) = false := by
  have brace : blank "\x7b\"ts\":\"" = false := by decide +kernel
  simp only [sampleText, blank_append, brace, Bool.false_and]

def afterMidnight : String := "2026-06-17T00:00:00.500Z"

def beforeMidnight : String := "2026-06-16T23:59:59.900Z"

def firstHash : String := "7531df6e91ddb3da6719d7e439b8177656650169a3900963d1db2bd3fd46d76d"

def firstCanonical : Bytes := utf8 (sampleText afterMidnight chainHeadPrevHash "")

def secondCanonical : Bytes := utf8 (sampleText beforeMidnight firstHash "")

def firstSignature : SignatureBytes :=
  ⟨beBytes 32 0x7637e878849c0d8f5e0f15b539c196c23459564bec3be84b2e60ec9f20ca9981 ++
    beBytes 32 0x5b16d327b06c6d8f103bada8a6ec7483a232e1882eb7693da5979b7121516805, by decide⟩

def secondSignature : SignatureBytes :=
  ⟨beBytes 32 0xfc1ed481f6fc108e8f18efa5d06f1ea5fbd8aea42804148fe180b4248cc5ff6f ++
    beBytes 32 0xd65dac066b570aa339934d529d623ec8bb942b70ae954c558026f01a24c0590d, by decide⟩

def eveHash : String := "d207d7af42e1ff0604e91eb2e5d31f5f8ca3b1fc1003add45aed9a80c694a0e9"

def eveCanonical : Bytes := utf8 (sampleText beforeMidnight chainHeadPrevHash "")

def morningHash : String := "cd1b22691523996da094ec8e58eea818dfb0d60796bb6271284dd60423324dd6"

def nextSecond : String := "2026-06-17T00:00:01.000Z"

def morningCanonical : Bytes := utf8 (sampleText afterMidnight eveHash "")

def nextCanonical : Bytes := utf8 (sampleText nextSecond morningHash "")

def eveSignature : SignatureBytes :=
  ⟨beBytes 32 0x42c5d6a624a157648640f9d5eb3d90b6b03f578bf400835b717193c0d3bdb6ff ++
    beBytes 32 0xb1406578b04a257e11505a0eb5568708feaf2c2bc0f22c25c8743b512f65700d, by decide⟩

def morningSignature : SignatureBytes :=
  ⟨beBytes 32 0x98ad02363b590aaf30f11603b5a921d0505f80d1c34d2ca2f2fde9337c375947 ++
    beBytes 32 0xe6206d497f63aef45bab5e5205ffac7177ed5920ff12655661d9ab33ba548f0f, by decide⟩

def nextSignature : SignatureBytes :=
  ⟨beBytes 32 0x3d21bbf6e5f80ad4c1509ea40706305b39a292c4ff0cc56e510f99a8c6146f27 ++
    beBytes 32 0x596d0f70b8bb287abf657e3ac7daccef7c66600c2cf97b3351aa657c7489b20b, by decide⟩

/-- The signatures of the rows of the samples. -/
def daemonSign (message : Bytes) : SignatureBytes :=
  if message = firstCanonical then firstSignature
  else if message = eveCanonical then eveSignature
  else if message = morningCanonical then morningSignature
  else if message = nextCanonical then nextSignature
  else secondSignature

def daemonKey : SigningKey where
  verifyingKey := {
    toBytes := digestOf 0x79b5562e8fe654f94078b112e8a98ba7901f853ae695bed7e0e3910bad049664
    verifyStrict := fun message signature => signature = daemonSign message }
  sign := daemonSign
  verifies _ := decide_eq_true rfl

/-- The row of a refusal of the samples. -/
def sampleRow (ts prevHash sig : String) : ForensicDecision :=
  ⟨ts, "ai:claude", "refuse", "bash", "R001", Json.empty, prevHash, sig⟩

def firstRow : ForensicDecision :=
  sampleRow afterMidnight chainHeadPrevHash
    "djfoeIScDY9eDxW1OcGWwjRZVkvsO+hLLmDsnyDKmYFbFtMnsGxtjxA7raim7HSDojLhiC63aT2ll5txIVFoBQ=="

def secondRow : ForensicDecision :=
  sampleRow beforeMidnight firstHash
    "/B7Ugfb8EI6PGO+l0G8epfvYrqQoBBSP4YC0JIzF/2/WXawGa1cKozmTTVKdYj7Iu5QrcK6VTFWAJvAaJMBZDQ=="

/-- The last row of one day, and the first two rows of the next day behind it. -/
def eveRow : ForensicDecision :=
  sampleRow beforeMidnight chainHeadPrevHash
    "QsXWpiShV2SGQPnV6z2QtrA/V4v0AINbcXGTwNO9tv+xQGV4sEolfhFQWg61VocI/q8sK8DyLCXIdDtRL2VwDQ=="

def morningRow : ForensicDecision :=
  sampleRow afterMidnight eveHash
    "mK0CNjtZCq8w8RYDtakh0FBfgNHDTSyi8v3pM3w3WUfmIG1Jf2Ou9FurXlIF/6xxd+1ZIP8SZVZh2aszulSPDw=="

def nextRow : ForensicDecision :=
  sampleRow nextSecond morningHash
    "PSG79uX4CtTBUJ6kBwYwWzmiksT/DMVuUQ+ZqMYUbydZbQ9wuLsoer9lfjrH2szvfGZgDCz5ezNRqmV8dImyCw=="

def sampleLine (row : ForensicDecision) : String := sampleText row.ts row.prevHash row.sig

def sampleSerde : Serde where
  toString := sampleLine
  fromStr text := (([firstRow, secondRow, eveRow, morningRow, nextRow].find? fun row => sampleLine row = text).map
    .ok).getD (.error "expected value at line 1 column 1")

def sampleEnvironment : Environment where
  serde := sampleSerde
  calendar := {
    Instant := NaiveDate × String
    toRfc3339Millis := Prod.snd
    dateOf := Prod.fst
    parseFromStr := readDate }
  sha256 := digestOfTable
    [(firstCanonical, 0x7531df6e91ddb3da6719d7e439b8177656650169a3900963d1db2bd3fd46d76d),
      (secondCanonical, 0x76e57175680803a2a550335ee47ae379d2b27e1eb239b3650d0ee4001c892b66),
      (eveCanonical, 0xd207d7af42e1ff0604e91eb2e5d31f5f8ca3b1fc1003add45aed9a80c694a0e9),
      (morningCanonical, 0xcd1b22691523996da094ec8e58eea818dfb0d60796bb6271284dd60423324dd6),
      (nextCanonical, 0xea9c133e62dc2c75bdd676398a3a46480e41ab030d112d733e5d7b714d57337c)]
  decodeError _ := "Invalid padding"
  signatureError := "signature error: Verification equation was not satisfied"

theorem sampleEnvironment_faithful : Faithful sampleEnvironment where
  dates _ short := readDate_format short
  texts text row read := by
    cases found : [firstRow, secondRow, eveRow, morningRow, nextRow].find? fun row => sampleLine row = text with
    | none => simp [sampleEnvironment, sampleSerde, found] at read
    | some held =>
        have passed := List.find?_some found
        have same : sampleLine held = text := of_decide_eq_true passed
        exact same ▸ sampleText_inked _ _ _

def refusal : Report := ⟨"ai:claude", "refuse", "bash", "R001", Json.empty⟩

def newDate : NaiveDate := ⟨2026, 6, 17, by decide, by decide⟩

def oldDate : NaiveDate := ⟨2026, 6, 16, by decide, by decide⟩

/-- The kernel computes the signatures and the hash of the two rows once for all samples. -/
theorem sampleRows_computed :
    Base64.encode (daemonSign firstCanonical).1 = firstRow.sig ∧
      Base64.encode (daemonSign secondCanonical).1 = secondRow.sig ∧
      selfHash sampleEnvironment firstRow = firstHash ∧
      sampleLine firstRow ≠ sampleLine secondRow ∧ secondRow.prevHash ≠ chainHeadPrevHash := by
  decide +kernel

/-- The kernel computes the same of the rows on both sides of a restart. -/
theorem restartRows_computed :
    Base64.encode (daemonSign eveCanonical).1 = eveRow.sig ∧
      Base64.encode (daemonSign morningCanonical).1 = morningRow.sig ∧
      Base64.encode (daemonSign nextCanonical).1 = nextRow.sig ∧
      selfHash sampleEnvironment eveRow = eveHash ∧ selfHash sampleEnvironment morningRow = morningHash ∧
      (∀ row ∈ [firstRow, secondRow], sampleLine row ≠ sampleLine eveRow) ∧
      ∀ row ∈ [firstRow, secondRow, eveRow], sampleLine row ≠ sampleLine morningRow := by
  decide +kernel

/-- The kernel computes the names of the two days once for all samples. -/
theorem sampleDays_computed :
    dailyPath oldDate = "forensic-2026-06-16.jsonl" ∧ dailyPath oldDate ≠ dailyPath newDate ∧
      ¬ dailyPath newDate ≤ dailyPath oldDate ∧
      parseIsoDate sampleEnvironment "2026-06-16" = some oldDate.code ∧
      parseIsoDate sampleEnvironment "2026-06-17" = some newDate.code := by
  decide +kernel

def newDay : Label sampleEnvironment := .record (newDate, afterMidnight) refusal

def oldDay : Label sampleEnvironment := .record (⟨2026, 6, 16, by decide, by decide⟩, beforeMidnight) refusal

/-- The sink forms the row with the signature of its text. -/
theorem formRow_refusal {ts prevHash sig : String} (date : NaiveDate)
    (signed : Base64.encode (daemonSign (utf8 (sampleText ts prevHash ""))).1 = sig) :
    formRow sampleEnvironment ⟨prevHash, some daemonKey⟩ (date, ts) refusal = sampleRow ts prevHash sig := by
  rw [← signed]
  rfl

theorem formRow_newDay :
    formRow sampleEnvironment ⟨chainHeadPrevHash, some daemonKey⟩ (newDate, afterMidnight) refusal = firstRow :=
  formRow_refusal newDate sampleRows_computed.1

theorem formRow_oldDay :
    formRow sampleEnvironment ⟨firstHash, some daemonKey⟩ (oldDate, beforeMidnight) refusal = secondRow :=
  formRow_refusal oldDate sampleRows_computed.2.1

theorem formRow_eve :
    formRow sampleEnvironment ⟨chainHeadPrevHash, some daemonKey⟩ (oldDate, beforeMidnight) refusal = eveRow :=
  formRow_refusal oldDate restartRows_computed.1

theorem formRow_morning :
    formRow sampleEnvironment ⟨eveHash, some daemonKey⟩ (newDate, afterMidnight) refusal = morningRow :=
  formRow_refusal newDate restartRows_computed.2.1

theorem formRow_next :
    formRow sampleEnvironment ⟨morningHash, some daemonKey⟩ (newDate, nextSecond) refusal = nextRow :=
  formRow_refusal newDate restartRows_computed.2.2.1

theorem selfHash_eveRow : selfHash sampleEnvironment eveRow = eveHash := restartRows_computed.2.2.2.1

theorem selfHash_morningRow : selfHash sampleEnvironment morningRow = morningHash := restartRows_computed.2.2.2.2.1

theorem eveRow_reads : sampleEnvironment.serde.fromStr (sampleLine eveRow) = .ok eveRow := by
  have differs := restartRows_computed.2.2.2.2.2.1
  simp only [List.forall_mem_cons, List.not_mem_nil, false_imp_iff, implies_true, and_true] at differs
  simp [sampleEnvironment, sampleSerde, differs]

theorem morningRow_reads : sampleEnvironment.serde.fromStr (sampleLine morningRow) = .ok morningRow := by
  have differs := restartRows_computed.2.2.2.2.2.2
  simp only [List.forall_mem_cons, List.not_mem_nil, false_imp_iff, implies_true, and_true] at differs
  simp [sampleEnvironment, sampleSerde, differs]

/-- The daemon that starts again reads the hash of the last row of the evening. -/
theorem readChainTail_eve :
    readChainTail sampleEnvironment
      ((⟨[], List.nodup_nil⟩ : Directory).append (dailyPath oldDate) (sampleLine eveRow)) = some eveHash := by
  have dated : fileDate sampleEnvironment (dailyPath oldDate) = some oldDate.code :=
    fileDate_dailyPath sampleEnvironment_faithful (by decide)
  have held : lineRow sampleEnvironment (some (sampleLine eveRow)) = some eveRow := by
    rw [lineRow, Option.bind_some, sampleLine, sampleText_inked, ← sampleLine, eveRow_reads]
    rfl
  simp [readChainTail, listForensicFiles, Directory.append, dated, held, selfHash_eveRow]

def eveDay : Label sampleEnvironment := .record (oldDate, beforeMidnight) refusal

/-- A log of two days verifies from its first day on, although the daemon was started again between them. -/
theorem restarted_verifies :
    ∃ report, verifySince sampleEnvironment
        (run (step sampleEnvironment daemonKey) State.start
          [.init, eveDay, .write, .shutdown, .init, newDay, .shutdown]).directory
        "2026-06-16" (some daemonKey.verifyingKey) = .ok report ∧ report.firstFailure = none := by
  apply steady_verifies sampleEnvironment_faithful daemonKey
  · refine ⟨rfl, ?_, trivial, trivial, rfl, ?_, trivial, trivial⟩
    · intro sink opened
      obtain rfl : ⟨chainHeadPrevHash, some daemonKey⟩ = sink := Option.some.inj opened
      refine ⟨by decide, fun _ absent => absurd absent List.not_mem_nil, ?_⟩
      rw [formRow_eve]
      exact ⟨eveRow, eveRow_reads, rfl, rfl, rfl⟩
    · intro sink opened
      have written : sampleEnvironment.serde.toString
          (formRow sampleEnvironment ⟨chainHeadPrevHash, some daemonKey⟩ (oldDate, beforeMidnight) refusal) =
            sampleLine eveRow := congrArg sampleLine formRow_eve
      have tail := readChainTail_eve
      rw [← written] at tail
      have sinks := congrArg (fun hash => some (⟨hash.getD chainHeadPrevHash, some daemonKey⟩ : ForensicSink)) tail
      obtain rfl : ⟨eveHash, some daemonKey⟩ = sink := Option.some.inj (sinks.symm.trans opened)
      refine ⟨by decide, fun earlier recorded => ?_, ?_⟩
      · obtain rfl := List.mem_singleton.mp recorded
        show oldDate.code ≤ newDate.code
        decide
      · rw [formRow_morning]
        exact ⟨morningRow, morningRow_reads, rfl, rfl, rfl⟩
  · exact Option.isSome_iff_exists.mpr ⟨_, sampleDays_computed.2.2.2.1⟩

theorem selfHash_firstRow : selfHash sampleEnvironment firstRow = firstHash := sampleRows_computed.2.2.1

theorem secondRow_reads : sampleEnvironment.serde.fromStr (sampleLine secondRow) = .ok secondRow := by
  have differs : sampleLine firstRow ≠ sampleLine secondRow := sampleRows_computed.2.2.2.1
  simp [sampleEnvironment, sampleSerde, differs]

/-- The two days of the samples lie in the order in which they were written. -/
def sampleDays (newLine oldLine : String) : Directory :=
  ((⟨[], List.nodup_nil⟩ : Directory).append (dailyPath newDate) newLine).append (dailyPath oldDate) oldLine

theorem sampleDays_listed (newLine oldLine : String) :
    listForensicFiles sampleEnvironment (sampleDays newLine oldLine) =
      [⟨dailyPath oldDate, [some oldLine]⟩, ⟨dailyPath newDate, [some newLine]⟩] := by
  obtain ⟨_, differ, ordered, _⟩ := sampleDays_computed
  have newDated : fileDate sampleEnvironment (dailyPath newDate) = some newDate.code :=
    fileDate_dailyPath sampleEnvironment_faithful (by decide)
  have oldDated : fileDate sampleEnvironment (dailyPath oldDate) = some oldDate.code :=
    fileDate_dailyPath sampleEnvironment_faithful (by decide)
  simp [listForensicFiles, sampleDays, Directory.append, differ, newDated, oldDated, List.orderedInsert,
    ordered]

theorem sampleDays_kept {file : LogFile}
    (day : file.name = dailyPath oldDate ∨ file.name = dailyPath newDate) :
    datedBefore sampleEnvironment oldDate.code file = false := by
  obtain ⟨name, lines⟩ := file
  rcases day with rfl | rfl
  · rw [datedBefore, fileDate_dailyPath sampleEnvironment_faithful (by decide)]
    decide
  · rw [datedBefore, fileDate_dailyPath sampleEnvironment_faithful (by decide)]
    decide

theorem sampleDays_walked (newLine oldLine : String) :
    walkedFiles sampleEnvironment (sampleDays newLine oldLine) oldDate.code =
      [⟨dailyPath oldDate, [some oldLine]⟩, ⟨dailyPath newDate, [some newLine]⟩] := by
  rw [walkedFiles, sampleDays_listed]
  simp [sampleDays_kept]

theorem sampleDays_seeded (newLine oldLine : String) :
    seedHash sampleEnvironment (sampleDays newLine oldLine) oldDate.code = chainHeadPrevHash := by
  rw [seedHash, sampleDays_listed]
  simp [sampleDays_kept]

def brokenLink : String := "prev_hash mismatch: expected " ++ chainHeadPrevHash ++ ", got " ++ firstHash

/-- The second row does not continue the start of the chain. -/
theorem secondRow_stops (file : String) :
    walkLine sampleEnvironment (some daemonKey.verifyingKey) file 1 ⟨chainHeadPrevHash, 0, 0⟩
        (some (sampleLine secondRow)) =
      .error (.failed 1 0 ⟨1, file, .chainBreak, brokenLink⟩) := by
  have broken : secondRow.prevHash ≠ chainHeadPrevHash := sampleRows_computed.2.2.2.2
  rw [walkLine, sampleLine, sampleText_inked, ← sampleLine, secondRow_reads]
  simp only [Bool.false_eq_true, if_false]
  rw [walkRow, if_pos broken]
  rfl

theorem steppedBack_directory :
    (run (step sampleEnvironment daemonKey) State.start [.init, newDay, oldDay, .write, .write]).directory =
      sampleDays (sampleLine firstRow) (sampleLine secondRow) := by
  have newOp := congrArg sampleLine formRow_newDay
  have oldOp := congrArg sampleLine formRow_oldDay
  rw [← newOp, ← oldOp, ← selfHash_firstRow, ← formRow_newDay]
  rfl

/-- The clock steps back across midnight between two calls. -/
theorem steppedBack_breaks :
    verifySince sampleEnvironment
        (run (step sampleEnvironment daemonKey) State.start [.init, newDay, oldDay, .write, .write]).directory
        "2026-06-16" (some daemonKey.verifyingKey) =
      .ok ⟨1, 0, some ⟨1, "forensic-2026-06-16.jsonl", .chainBreak,
        "prev_hash mismatch: expected " ++ chainHeadPrevHash ++ ", got " ++ firstHash⟩⟩ := by
  obtain ⟨name, _, _, since, _⟩ := sampleDays_computed
  rw [steppedBack_directory, ← name]
  apply verifySince_failed since
  rw [sampleDays_walked, sampleDays_seeded, List.foldlM_cons, walkFile, walkLines, secondRow_stops]
  rfl

end Samples
end AiMemory.ForensicLog
