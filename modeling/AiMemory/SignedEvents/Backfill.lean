import AiMemory.SignedEvents.Reachable

/-
This file embeds the migration that numbers and links the rows of an older table.
-/

namespace AiMemory.SignedEvents
open AiMemory.Machine AiMemory.Library

section Model

variable (sha256 : Bytes → Digest)

/-- The row that carries the greatest sequence. -/
def chainHead (rows : List EventRow) : Option SignedEvent :=
  ((rows.filter fun row => row.sequence.isSome).map EventRow.toEvent).foldl latestHead none

/-- The migration reads every row without its cause. -/
def SignedEvent.causeless (event : SignedEvent) : SignedEvent := { event with causeHash := none }

/-- The last sequence so far and the hash that the next row has to name. -/
structure StampState where
  lastSeq : Int64
  prevHash : Digest

def backfillStart (rows : List EventRow) : StampState :=
  let nextSeq := ((chainHead rows).map (·.sequence)).getD 0
  if 0 < nextSeq then
    match rows.find? fun row => row.sequence = some nextSeq with
    | some head => ⟨nextSeq, sha256 (canonicalChainBytes head.toEvent.causeless)⟩
    | none => ⟨nextSeq, zeroHash⟩
  else ⟨nextSeq, zeroHash⟩

def stampRow (state : StampState) (row : EventRow) : EventRow :=
  { row with prevHash := some (Blob.ofDigest state.prevHash), sequence := some (state.lastSeq + 1) }

def StampState.after (state : StampState) (row : EventRow) : StampState :=
  ⟨state.lastSeq + 1, sha256 (canonicalChainBytes (stampRow state row).toEvent.causeless)⟩

/-- The updates run in the order of the rows, and the run ends with the update that fails. -/
def stampPending : Nat → StampState → List EventRow → List EventRow
  | _, _, [] => []
  | updates, state, row :: rest =>
      match row.sequence, updates with
      | some _, updates => row :: stampPending updates state rest
      | none, 0 => row :: rest
      | none, updates + 1 => stampRow state row :: stampPending updates (state.after sha256 row) rest

/-- The call gets as many updates through. -/
def migrateV34BackfillChain (updates : Nat) (rows : List EventRow) : List EventRow :=
  if rows.all fun row => row.sequence.isSome then rows else stampPending sha256 updates (backfillStart sha256 rows) rows

/-- An older binary inserts its row without the columns of the chain and of the cause. -/
inductive LegacyCall where
  | insert (body : EventBody)
  | backfill (updates : Nat)
  | append (call : AppendCall)

def legacyStep (rows : List EventRow) : LegacyCall → List EventRow
  | .insert body => (insertRow rows ⟨{ body with causeHash := none }, none, none⟩).toOption.getD rows
  | .backfill updates => migrateV34BackfillChain sha256 updates rows
  | .append call => appendStep sha256 rows call

/-- The migration goes on from a head that binds no cause. -/
def CauselessHead (rows : List EventRow) : LegacyCall → Prop
  | .backfill _ => ∀ head, chainHead rows = some head → head.causeHash = none
  | _ => True

end Model

section Stamped

variable {sha256 : Bytes → Digest}

def stampAll (sha256 : Bytes → Digest) : StampState → List EventRow → List EventRow
  | _, [] => []
  | state, row :: rest => stampRow state row :: stampAll sha256 (state.after sha256 row) rest

def StampState.link (state : StampState) : Int64 × Bytes := (state.lastSeq + 1, state.prevHash.1)

/-- The updates skip the numbered rows and stamp the first pending ones. -/
theorem stampPending_append {numbered pending : List EventRow} (named : ∀ row ∈ numbered, row.sequence.isSome)
    (unnamed : ∀ row ∈ pending, row.sequence = none) (updates : Nat) (state : StampState) :
    stampPending sha256 updates state (numbered ++ pending) =
      numbered ++ (stampAll sha256 state (pending.take updates) ++ pending.drop updates) := by
  induction numbered with
  | cons row rest ih =>
      obtain ⟨here, later⟩ := List.forall_mem_cons.mp named
      obtain ⟨sequence, stored⟩ := Option.isSome_iff_exists.mp here
      simp only [List.cons_append, stampPending, stored, ih later]
  | nil =>
      rw [List.nil_append, List.nil_append]
      induction pending generalizing updates state with
      | nil => simp [stampPending, stampAll]
      | cons row rest ih =>
          obtain ⟨here, later⟩ := List.forall_mem_cons.mp unnamed
          cases updates with
          | zero => simp only [stampPending, here, List.take_zero, stampAll, List.drop_zero, List.nil_append]
          | succ updates =>
              simp only [stampPending, here, ih later, List.take_succ_cons, stampAll, List.drop_succ_cons,
                List.cons_append]

theorem length_stampAll (state : StampState) (rows : List EventRow) :
    (stampAll sha256 state rows).length = rows.length := by
  induction rows generalizing state with
  | nil => rfl
  | cons row rest ih => rw [stampAll, List.length_cons, ih, List.length_cons]

theorem causeless_eq {event : SignedEvent} (causeless : event.causeHash = none) : event.causeless = event := by
  rw [SignedEvent.causeless, ← causeless]

/-- The stamped rows go on from the link of the state, and the last one hands on the link of the state after them. -/
theorem linked_stampAll (state : StampState) {rows : List EventRow} (causeless : ∀ row ∈ rows, row.causeHash = none) :
    Linked SignedEvent.namedLink (SignedEvent.nextLink sha256) state.link
        ((stampAll sha256 state rows).map EventRow.toEvent) ∧
      tip (SignedEvent.nextLink sha256) state.link ((stampAll sha256 state rows).map EventRow.toEvent) =
        (rows.foldl (StampState.after sha256) state).link := by
  induction rows generalizing state with
  | nil => exact ⟨trivial, rfl⟩
  | cons row rest ih =>
      obtain ⟨here, later⟩ := List.forall_mem_cons.mp causeless
      have next : SignedEvent.nextLink sha256 (stampRow state row).toEvent = (state.after sha256 row).link := by
        rw [StampState.link, StampState.after, causeless_eq
          (show (stampRow state row).toEvent.causeHash = none from here)]
        rfl
      obtain ⟨linked, tipped⟩ := ih (state.after sha256 row) later
      rw [stampAll, List.map_cons, Linked, tip, next]
      exact ⟨⟨rfl, linked⟩, tipped⟩

end Stamped

section Runs

variable {sha256 : Bytes → Digest}

/-- The numbered rows form one chain, and the pending ones come after them. -/
structure Halves (sha256 : Bytes → Digest) (numbered pending : List EventRow) : Prop where
  appended : Appended sha256 numbered
  unnumbered : ∀ row ∈ pending, row.sequence = none
  causeless : ∀ row ∈ pending, row.causeHash = none
  room : (numbered ++ pending).length < 2 ^ 63

variable {numbered pending rows : List EventRow}

/-- The head of the chain is the last numbered row. -/
theorem Halves.chainHead_eq (halves : Halves sha256 numbered pending) :
    chainHead (numbered ++ pending) = (numbered.map EventRow.toEvent).foldl latestHead none := by
  have skipped : pending.filter (fun row => row.sequence.isSome) = [] :=
    List.filter_eq_nil_iff.mpr fun row present => by simp [halves.unnumbered row present]
  have kept : numbered.filter (fun row => row.sequence.isSome) = numbered :=
    List.filter_eq_self.mpr fun row present => halves.appended.numbered present
  rw [chainHead, List.filter_append, skipped, kept, List.append_nil]

/-- The migration goes on from the link that the numbered rows hand on. -/
theorem Halves.start_link (halves : Halves sha256 numbered pending)
    (causeless : ∀ head, chainHead (numbered ++ pending) = some head → head.causeHash = none) :
    (backfillStart sha256 (numbered ++ pending)).link =
      tip (SignedEvent.nextLink sha256) firstLink (numbered.map EventRow.toEvent) := by
  have head := halves.chainHead_eq
  rcases List.eq_nil_or_concat numbered with rfl | ⟨earlier, last, rfl⟩
  · rw [backfillStart, head]
    rfl
  · rw [List.concat_eq_append] at *
    have room : (List.map EventRow.toEvent (earlier ++ [last])).length < 2 ^ 63 := by simpa using halves.appended.room
    have ascending := halves.appended.chained.ascending room
    have positive := halves.appended.chained.positive room
      (List.mem_map_of_mem (List.mem_append_right earlier (List.mem_singleton_self last)))
    obtain ⟨sequence, stored⟩ := Option.isSome_iff_exists.mp
      (halves.appended.numbered (List.mem_append_right earlier (List.mem_singleton_self last)))
    have read : last.toEvent.sequence = sequence := by rw [EventRow.toEvent, stored, Option.getD_some]
    rw [List.map_append, List.map_singleton] at head ascending ⊢
    have below : ∀ event ∈ earlier.map EventRow.toEvent, event.sequence < last.toEvent.sequence := by
      intro event present
      exact (List.pairwise_append.mp ascending).2.2 event present _ (List.mem_singleton_self _)
    rw [foldl_latestHead_concat below] at head
    have found : (earlier ++ [last] ++ pending).find? (fun row => row.sequence = some sequence) = some last := by
      have before : earlier.find? (fun row => row.sequence = some sequence) = none := by
        apply List.find?_eq_none.mpr
        intro row present same
        have less := below _ (List.mem_map_of_mem present)
        rw [EventRow.toEvent, of_decide_eq_true same, read] at less
        exact Int64.lt_irrefl less
      rw [List.append_assoc, List.find?_append, before]
      simp [stored]
    rw [tip_concat, backfillStart, head]
    simp only [Option.map_some, Option.getD_some, read, found] at positive ⊢
    rw [if_pos positive, causeless_eq (causeless _ head), StampState.link, SignedEvent.nextLink, read]

/-- What the migration leaves of a table: as many pending rows as it had updates for are numbered. -/
theorem Halves.backfill_eq (halves : Halves sha256 numbered pending) (updates : Nat) :
    migrateV34BackfillChain sha256 updates (numbered ++ pending) =
      (numbered ++ stampAll sha256 (backfillStart sha256 (numbered ++ pending)) (pending.take updates)) ++
        pending.drop updates := by
  rw [migrateV34BackfillChain, stampPending_append (fun row present => halves.appended.numbered present)
    halves.unnumbered]
  split
  · rename_i named
    obtain rfl : pending = [] := by
      apply List.eq_nil_iff_forall_not_mem.mpr
      intro row present
      have := List.all_eq_true.mp named row (List.mem_append_right _ present)
      rw [halves.unnumbered row present] at this
      cases this
    simp [stampAll]
  · rw [List.append_assoc]

/-- A backfill numbers the first pending rows. -/
theorem Halves.backfill (halves : Halves sha256 numbered pending)
    (causeless : ∀ head, chainHead (numbered ++ pending) = some head → head.causeHash = none) (updates : Nat) :
    Halves sha256 (numbered ++ stampAll sha256 (backfillStart sha256 (numbered ++ pending)) (pending.take updates))
      (pending.drop updates) where
  appended :=
    { room := by
        have room := halves.room
        rw [List.length_append] at room ⊢
        rw [length_stampAll, List.length_take]
        omega
      chained := by
        have linked := @linked_stampAll sha256 (backfillStart sha256 (numbered ++ pending)) (pending.take updates)
          fun row present => halves.causeless row (List.mem_of_mem_take present)
        rw [halves.start_link causeless] at linked
        rw [List.map_append]
        exact (linked_append _ _ _).mpr ⟨halves.appended.chained, linked.1⟩ }
  unnumbered row present := halves.unnumbered row (List.mem_of_mem_drop present)
  causeless row present := halves.causeless row (List.mem_of_mem_drop present)
  room := by
    have room := halves.room
    rw [List.length_append] at room
    rw [List.length_append, List.length_append, length_stampAll, List.length_take, List.length_drop]
    omega

/-- The verifier reads the numbered rows only, and they are one chain. -/
theorem Halves.verify (halves : Halves sha256 numbered pending)
    (daemonVerifier recorderVerifier : Option VerifyingKey) :
    (verifyChain sha256 daemonVerifier recorderVerifier (numbered ++ pending) none).chainBreak = none := by
  have skipped : (pending.map EventRow.toEvent).filter (fun event => 0 < event.sequence) = [] := by
    apply List.filter_eq_nil_iff.mpr
    intro event listed
    obtain ⟨row, present, rfl⟩ := List.mem_map.mp listed
    simp [EventRow.toEvent, halves.unnumbered row present]
  have same : selectAbove (numbered ++ pending) 0 = selectAbove numbered 0 := by
    rw [selectAbove, List.map_append, List.filter_append, skipped, List.append_nil, selectAbove]
  rw [verifyChain_clean_iff, same, halves.appended.select_eq]
  exact halves.appended.chained

/-- A call keeps the two halves, and an append waits for the end of the migration. -/
theorem Halves.step (halves : Halves sha256 numbered pending) (call : LegacyCall)
    (causeless : CauselessHead (numbered ++ pending) call) :
    ∃ later rest, legacyStep sha256 (numbered ++ pending) call = later ++ rest ∧ Halves sha256 later rest := by
  cases call with
  | insert body =>
      rw [legacyStep]
      cases inserted : insertRow (numbered ++ pending) ⟨{ body with causeHash := none }, none, none⟩ with
      | error _ => exact ⟨numbered, pending, rfl, halves⟩
      | ok after =>
          obtain ⟨rfl, room⟩ := insertRow_ok inserted
          refine ⟨numbered, pending ++ [⟨{ body with causeHash := none }, none, none⟩], List.append_assoc _ _ _,
            halves.appended, ?_, ?_, ?_⟩
          · exact List.forall_mem_append.mpr ⟨halves.unnumbered, List.forall_mem_singleton.mpr rfl⟩
          · exact List.forall_mem_append.mpr ⟨halves.causeless, List.forall_mem_singleton.mpr rfl⟩
          · rwa [← List.append_assoc, List.length_append, List.length_singleton]
  | backfill updates => exact ⟨_, _, halves.backfill_eq updates, halves.backfill causeless updates⟩
  | append call =>
      rw [legacyStep]
      cases pending with
      | nil =>
          have after := halves.appended.step call
          rw [List.append_nil]
          exact ⟨_, [], (List.append_nil _).symm, after, nofun, nofun, by simpa using after.room⟩
      | cons row rest =>
          have waits : ∃ message, appendSignedEventNoTx sha256 (numbered ++ row :: rest) call = .error message := by
            have null : 0 < (numbered ++ row :: rest).countP fun row => row.sequence.isNone := by
              apply List.countP_pos_iff.mpr
              exact ⟨row, by simp, by simp [halves.unnumbered row List.mem_cons_self]⟩
            rw [appendSignedEventNoTx, readChainHead, if_pos null]
            exact ⟨_, rfl⟩
          obtain ⟨message, refused⟩ := waits
          rw [appendStep, refused]
          exact ⟨numbered, row :: rest, rfl, halves⟩

end Runs
end AiMemory.SignedEvents
