import AiMemory.ForensicLog.HonestRun

/-
This file proves that a clean signed log holds a contiguous run of the recorded rows.
-/

namespace AiMemory.ForensicLog
open AiMemory.Capability (SigningKey)
open AiMemory.Crdt AiMemory.Library AiMemory.Machine

section Recording

variable (env : Environment)

/-- One sink records the decisions one after the other. -/
def recordAll : ForensicSink → List (env.calendar.Instant × Report) → List ForensicDecision
  | _, [] => []
  | sink, (now, report) :: rest =>
      formRow env sink now report :: recordAll (tryRecordDecision env sink now report).1 rest

/-- Two rows agree in everything but the signature. -/
def SameContent (first second : ForensicDecision) : Prop :=
  canonicalBytes env first = canonicalBytes env second

/-- A row stands in a file of the directory. -/
def Directory.Holds (dir : Directory) (row : ForensicDecision) : Prop :=
  ∃ file ∈ dir.files, row ∈ rowsOf env file.lines

/-- The directory holds no signature of the key over a row that was not recorded. -/
def Unforged (key : VerifyingKey) (recorded : List ForensicDecision) (dir : Directory) : Prop :=
  ∀ row, dir.Holds env row → ∀ bytes signature, Base64.decode row.sig = some bytes →
    tryFromSlice bytes = some signature → key.verifyStrict (canonicalBytes env row) signature = true →
      ∃ original ∈ recorded, SameContent env row original

/-- The canonical bytes of a row show the link that it names. -/
def ShowsPrevHash (recorded : List ForensicDecision) (dir : Directory) : Prop :=
  ∀ row, dir.Holds env row → ∀ original ∈ recorded, SameContent env row original →
    row.prevHash = original.prevHash

end Recording

variable {env : Environment}

/-- The recorded rows are a chain from the head that the sink found. -/
theorem recordAll_linked (sink : ForensicSink) (calls : List (env.calendar.Instant × Report)) :
    Linked ForensicDecision.prevHash (selfHash env) sink.lastHash (recordAll env sink calls) := by
  induction calls generalizing sink with
  | nil => trivial
  | cons call rest ih =>
      have later := ih (tryRecordDecision env sink call.1 call.2).1
      exact ⟨formRow_prevHash sink call.1 call.2, later⟩

/-- The hash of a row depends on its content only. -/
theorem SameContent.selfHash_eq {first second : ForensicDecision} (same : SameContent env first second) :
    selfHash env first = selfHash env second := by
  rw [selfHash, selfHash, same]

/-- An accepted row with a signature carries one that the key verifies. -/
theorem checkSignature_verifies {key : VerifyingKey} {row : ForensicDecision} (signed : row.sig ≠ "")
    (accepted : (checkSignature env (some key) row).toOption.isSome) :
    ∃ bytes signature, Base64.decode row.sig = some bytes ∧ tryFromSlice bytes = some signature ∧
      key.verifyStrict (canonicalBytes env row) signature = true := by
  unfold checkSignature at accepted
  rw [if_neg signed] at accepted
  simp only at accepted
  split at accepted
  · cases accepted
  · rename_i bytes decoded
    split at accepted
    · cases accepted
    · rename_i signature exact
      split at accepted
      · rename_i verified
        exact ⟨bytes, signature, decoded, exact, verified⟩
      · cases accepted

/-- A row that is walked is held by the directory. -/
theorem walkedRows_held {dir : Directory} {cutoff : Int} {row : ForensicDecision}
    (walked : row ∈ walkedRows env dir cutoff) : dir.Holds env row := by
  obtain ⟨file, kept, held⟩ := List.mem_flatMap.mp walked
  have listed := (List.perm_insertionSort _ _).mem_iff.mp (List.mem_of_mem_filter kept)
  exact ⟨file, List.mem_of_mem_filter listed, held⟩

/-- A clean report without unsigned lines walked the contents of a contiguous run of the recorded rows. -/
theorem clean_contiguous (key : SigningKey) (start : String)
    (calls : List (env.calendar.Instant × Report)) (dir : Directory)
    (unforged : Unforged env key.verifyingKey (recordAll env ⟨start, some key⟩ calls) dir)
    (shows : ShowsPrevHash env (recordAll env ⟨start, some key⟩ calls) dir)
    (collisionFree : CollisionFree env.sha256
      ((recordAll env ⟨start, some key⟩ calls).map (canonicalBytes env)))
    (unlooped : ∀ row ∈ recordAll env ⟨start, some key⟩ calls, selfHash env row ≠ start)
    {since : String} {cutoff : Int} (dated : parseIsoDate env since = some cutoff) {report : VerifyReport}
    (verified : verifySince env dir since (some key.verifyingKey) = .ok report)
    (clean : report.firstFailure = none) (signed : report.unsignedLines = 0) :
    ∃ contiguous, contiguous <:+: recordAll env ⟨start, some key⟩ calls ∧
      List.Forall₂ (SameContent env) (walkedRows env dir cutoff) contiguous := by
  obtain ⟨after, _, passes, rfl⟩ := (verifySince_clean_iff dated).mp ⟨verified, clean⟩
  obtain ⟨linked, accepted, rfl⟩ := passes
  have allSigned : ∀ row ∈ walkedRows env dir cutoff, row.sig ≠ "" := by
    have none : (walkedRows env dir cutoff).countP (fun row => row.sig = "") = 0 := by
      simpa using signed
    intro row walked
    simpa using List.countP_eq_zero.mp none row walked
  have copied : ∀ row ∈ walkedRows env dir cutoff,
      ∃ original ∈ recordAll env ⟨start, some key⟩ calls, SameContent env row original := by
    intro row walked
    obtain ⟨bytes, signature, decoded, exact, verifies⟩ :=
      checkSignature_verifies (allSigned row walked) (accepted row walked)
    exact unforged row (walkedRows_held walked) bytes signature decoded exact verifies
  -- A walked row stands for a recorded one, so its hash is among those that do not collide.
  have told : ∀ row ∈ walkedRows env dir cutoff, ∀ other ∈ recordAll env ⟨start, some key⟩ calls,
      selfHash env row = selfHash env other → SameContent env row other := by
    intro row walked other present same
    obtain ⟨original, recorded, content⟩ := copied row walked
    have digests := sha256_eq_of_selfHash (content.selfHash_eq.symm.trans same)
    exact content.trans
      (collisionFree _ (List.mem_map_of_mem recorded) _ (List.mem_map_of_mem present) digests)
  have unlinked : ∀ row ∈ walkedRows env dir cutoff, selfHash env row ≠ start := by
    intro row walked
    obtain ⟨original, recorded, content⟩ := copied row walked
    rw [content.selfHash_eq]
    exact unlooped original recorded
  have named : ∀ row ∈ walkedRows env dir cutoff, ∀ original ∈ recordAll env ⟨start, some key⟩ calls,
      SameContent env row original → SameContent env row original ∧ row.prevHash = original.prevHash :=
    fun row walked original recorded content =>
      ⟨content, shows row (walkedRows_held walked) original recorded content⟩
  have copiedNamed : ∀ row ∈ walkedRows env dir cutoff,
      ∃ original ∈ recordAll env ⟨start, some key⟩ calls,
        SameContent env row original ∧ row.prevHash = original.prevHash := by
    intro row walked
    obtain ⟨original, recorded, content⟩ := copied row walked
    exact ⟨original, recorded, named row walked original recorded content⟩
  have originals := recordAll_linked ⟨start, some key⟩ calls
  obtain ⟨contiguous, part, aligned⟩ := infix_of_copies originals linked copiedNamed
    (fun _ _ copies => copies.2)
    (fun row walked other recorded same =>
      named row walked other recorded (told row walked other recorded same))
    unlinked
  exact ⟨contiguous, part, aligned.imp fun _ _ copies => copies.1⟩

section Samples

/-- The lines of two recorded rows were moved to a file with an earlier date, and the third row was dropped. -/
def renamed : Directory :=
  ⟨[⟨"forensic-2026-06-01.jsonl", [some (sampleLine eveRow), some (sampleLine morningRow)]⟩],
    List.nodup_singleton _⟩

theorem renamed_dated :
    fileDate sampleEnvironment "forensic-2026-06-01.jsonl" = some 20260601 ∧
      parseIsoDate sampleEnvironment "2026-06-01" = some 20260601 := by
  decide +kernel

theorem rowsOf_renamed :
    rowsOf sampleEnvironment [some (sampleLine eveRow), some (sampleLine morningRow)] = [eveRow, morningRow] := by
  have inked (row : ForensicDecision) : blank (sampleLine row) = false := sampleText_inked _ _ _
  have first : lineRow sampleEnvironment (some (sampleLine eveRow)) = some eveRow := by
    rw [lineRow, Option.bind_some, inked, eveRow_reads]
    rfl
  have second : lineRow sampleEnvironment (some (sampleLine morningRow)) = some morningRow := by
    rw [lineRow, Option.bind_some, inked, morningRow_reads]
    rfl
  rw [rowsOf, List.filterMap_cons_some first, List.filterMap_cons_some second, List.filterMap_nil]

theorem renamed_walked : walkedRows sampleEnvironment renamed 20260601 = [eveRow, morningRow] := by
  simp [walkedRows, walkedFiles, listForensicFiles, renamed, datedBefore, renamed_dated.1, rowsOf_renamed]

theorem renamed_holds {row : ForensicDecision} (held : renamed.Holds sampleEnvironment row) :
    row = eveRow ∨ row = morningRow := by
  obtain ⟨file, present, held⟩ := held
  obtain rfl := List.mem_singleton.mp present
  rw [rowsOf_renamed] at held
  simpa using held

theorem renamed_verified :
    verifySince sampleEnvironment renamed "2026-06-01" (some daemonKey.verifyingKey) =
      .ok ⟨2, 0, none⟩ := by
  have seed : seedHash sampleEnvironment renamed 20260601 = chainHeadPrevHash := by
    simp [seedHash, listForensicFiles, renamed, datedBefore, renamed_dated.1]
  refine ((verifySince_clean_iff renamed_dated.2).mpr ⟨⟨morningHash, 2, 0⟩, ?_, ?_, rfl⟩).1
  · intro file kept line held
    have present := List.mem_of_mem_filter
      ((List.perm_insertionSort _ _).mem_iff.mp (List.mem_of_mem_filter kept))
    obtain rfl := List.mem_singleton.mp present
    rcases List.mem_pair.mp held with rfl | rfl
    · exact ⟨sampleLine eveRow, rfl, .inr (by simp [eveRow_reads, Except.toOption])⟩
    · exact ⟨sampleLine morningRow, rfl, .inr (by simp [morningRow_reads, Except.toOption])⟩
  · rw [renamed_walked, seed]
    refine ⟨⟨rfl, selfHash_eveRow.symm, trivial⟩, ?_, ?_⟩
    · intro row present
      rcases List.mem_pair.mp present with rfl | rfl
      · have accepted := @formRow_signed sampleEnvironment daemonKey ⟨chainHeadPrevHash, some daemonKey⟩ rfl
          (oldDate, beforeMidnight) refusal
        exact formRow_eve ▸ accepted
      · have accepted := @formRow_signed sampleEnvironment daemonKey ⟨eveHash, some daemonKey⟩ rfl
          (newDate, afterMidnight) refusal
        exact formRow_morning ▸ accepted
    · have signed : eveRow.sig ≠ "" ∧ morningRow.sig ≠ "" := by simp [eveRow, morningRow, sampleRow]
      simp [tip, selfHash_morningRow, signed]

def recordedCalls : List (sampleEnvironment.calendar.Instant × Report) :=
  [((oldDate, beforeMidnight), refusal), ((newDate, afterMidnight), refusal), ((newDate, nextSecond), refusal)]

theorem recordAll_calls :
    recordAll sampleEnvironment ⟨chainHeadPrevHash, some daemonKey⟩ recordedCalls =
      [eveRow, morningRow, nextRow] := by
  simp only [recordedCalls, recordAll, tryRecordDecision, formRow_eve, selfHash_eveRow, formRow_morning,
    selfHash_morningRow, formRow_next]

/-- The kernel computes the bytes and the hashes of the recorded rows once for all samples. -/
theorem recorded_computed :
    CollisionFree sampleEnvironment.sha256
        ([eveRow, morningRow, nextRow].map (canonicalBytes sampleEnvironment)) ∧
      (∀ row ∈ [eveRow, morningRow, nextRow], selfHash sampleEnvironment row ≠ chainHeadPrevHash) ∧
      ∀ row ∈ [eveRow, morningRow], ∀ original ∈ [eveRow, morningRow, nextRow],
        canonicalBytes sampleEnvironment row = canonicalBytes sampleEnvironment original →
          row.prevHash = original.prevHash := by
  decide +kernel

/-- The renamed file holds the first two of the three recorded rows. -/
theorem renamed_contiguous :
    ∃ contiguous, contiguous <:+:
        recordAll sampleEnvironment ⟨chainHeadPrevHash, some daemonKey⟩ recordedCalls ∧
      List.Forall₂ (SameContent sampleEnvironment) (walkedRows sampleEnvironment renamed 20260601)
        contiguous := by
  apply clean_contiguous daemonKey chainHeadPrevHash recordedCalls renamed _ _ _ _ _ renamed_verified rfl rfl
  · intro row held _ _ _ _ _
    rw [recordAll_calls]
    rcases renamed_holds held with rfl | rfl
    · exact ⟨eveRow, by simp, rfl⟩
    · exact ⟨morningRow, by simp, rfl⟩
  · intro row held original recorded same
    rw [recordAll_calls] at recorded
    exact recorded_computed.2.2 row (List.mem_pair.mpr (renamed_holds held)) original recorded same
  · rw [recordAll_calls]
    exact recorded_computed.1
  · rw [recordAll_calls]
    exact recorded_computed.2.1
  · exact renamed_dated.2

end Samples
end AiMemory.ForensicLog
