import AiMemory.DeferredAudit.Queue

/-
This file proves when no refusal is lost or doubled across crashes and recoveries.
-/

namespace AiMemory.DeferredAudit
open AiMemory.Crdt AiMemory.Library AiMemory.Machine AiMemory.Rules

section Definitions

variable (env : Environment)

/-- The rows of a refusal in the chain and in the dead-letter table. -/
def copies (tables : Tables) (hash : Digest) : Nat :=
  tables.signedEvents.countP (isRefusalOf hash) + tables.signedEventsDlq.countP (isRefusalOf hash)

/-- The events that carry a payload hash. -/
def shares (events : List (Event env)) (hash : Digest) : Nat := (events.map (payloadHash env)).count hash

/-- Each submit of the payload has left one row at most, and each one whose append returned has left a row or a frame
that the replay still reads. -/
structure Settled (before : Tables) (state : State env) (event : Event env) : Prop where
  once : copies state.tables (payloadHash env event) ≤
    copies before (payloadHash env event) + shares env state.submitted (payloadHash env event)
  kept : copies before (payloadHash env event) + shares env state.accepted (payloadHash env event) ≤
    copies state.tables (payloadHash env event) + shares env (replay env state.journal) (payloadHash env event)

/-- One submit of the run carries the payload, and no row did before. -/
def Lone (before : Tables) (state : State env) (event : Event env) : Prop :=
  copies before (payloadHash env event) = 0 ∧ shares env state.submitted (payloadHash env event) = 1

/-- The payload is too large for a frame, or the write fails before its first byte. -/
def WritesNothing (event : Event env) (outcome : WriteOutcome) : Prop :=
  u32Limit ≤ (canonicalBytes env event).length ∨ outcome = .failed 0

/-- Each append that the recovery makes reaches the chain or the dead-letter table. -/
def EachLands : List (Event env) → List SinkAnswers → Tables → Prop
  | [], _, _ => True
  | event :: rest, answers, tables =>
      if tables.chained (payloadHash env event) then EachLands rest answers tables
      else
        match answers with
        | [] => True
        | answer :: later =>
            (sinkAppend answer).isSome ∧ EachLands rest later (tables.land env event (sinkAppend answer))

/-- Submits bring payloads that read back and write nothing after a torn frame, and a recovery meets only payloads of
one submit without a dead-letter row and truncates only when each of its appends landed. -/
def Careful (before : Tables) (state : State env) : Label env → Prop
  | .submit event outcome =>
      ReadsBack env event ∧ (tornTail env state.journal = [] ∨ WritesNothing env event outcome)
  | .recover answers truncates =>
      state.live = false →
        (∀ event ∈ replay env state.journal, Lone env before state event ∧
          state.tables.signedEventsDlq.countP (isRefusalOf (payloadHash env event)) = 0) ∧
        (truncates = true → EachLands env (replay env state.journal) answers state.tables)
  | .drain _ => True
  | .crash => True

end Definitions

variable {env : Environment}

section Copies

theorem isRefusalOf_auditRow (event : Event env) (hash : Digest) :
    isRefusalOf hash (auditRow env event) = decide (payloadHash env event = hash) := by
  simp [isRefusalOf, auditRow]

/-- A landed append adds one row of its own hash. -/
theorem copies_land (tables : Tables) (event : Event env) (outcome : Option AppendOutcome) (hash : Digest) :
    copies (tables.land env event outcome) hash =
      copies tables hash + if outcome.isSome ∧ payloadHash env event = hash then 1 else 0 := by
  cases outcome with
  | none => simp [Tables.land]
  | some outcome =>
      cases outcome with
      | appended =>
          simp only [Tables.land, copies, List.countP_append, List.countP_singleton, isRefusalOf_auditRow,
            decide_eq_true_eq, Option.isSome_some, true_and]
          omega
      | dlqLanded =>
          simp only [Tables.land, copies, List.countP_append, List.countP_singleton, isRefusalOf_auditRow,
            decide_eq_true_eq, Option.isSome_some, true_and]
          omega

/-- A row of another hash leaves the dead-letter rows of this one. -/
theorem dlq_land_other {tables : Tables} {event : Event env} {outcome : Option AppendOutcome}
    {hash : Digest} (other : payloadHash env event ≠ hash) :
    (tables.land env event outcome).signedEventsDlq.countP (isRefusalOf hash) =
      tables.signedEventsDlq.countP (isRefusalOf hash) := by
  cases outcome with
  | none => rfl
  | some outcome =>
      cases outcome with
      | appended => rfl
      | dlqLanded => simp [Tables.land, isRefusalOf_auditRow, other]

/-- A recovery passes over an event that is on the chain. -/
theorem recoverEvents_chained {event : Event env} {tables : Tables}
    (chained : tables.chained (payloadHash env event) = true) (rest : List (Event env))
    (answers : List SinkAnswers) :
    recoverEvents env (event :: rest) answers tables = recoverEvents env rest answers tables := by
  cases answers <;> exact if_pos chained

/-- A recovery appends an event that is not on the chain with the next answer. -/
theorem recoverEvents_append {event : Event env} {tables : Tables}
    (unchained : ¬ tables.chained (payloadHash env event) = true) (rest : List (Event env))
    (answer : SinkAnswers) (later : List SinkAnswers) :
    recoverEvents env (event :: rest) (answer :: later) tables =
      recoverEvents env rest later (tables.land env event (sinkAppend answer)) :=
  if_neg unchained

/-- A recovery without an answer stops at the first event that is not on the chain. -/
theorem recoverEvents_stops {event : Event env} {tables : Tables}
    (unchained : ¬ tables.chained (payloadHash env event) = true) (rest : List (Event env)) :
    recoverEvents env (event :: rest) [] tables = (tables, false) :=
  if_neg unchained

/-- An event that is on the chain asks for no answer. -/
theorem eachLands_chained {event : Event env} {tables : Tables}
    (chained : tables.chained (payloadHash env event) = true) {rest : List (Event env)}
    {answers : List SinkAnswers} :
    EachLands env (event :: rest) answers tables = EachLands env rest answers tables := by
  cases answers <;> exact if_pos chained

/-- An event that is not on the chain consumes an answer. -/
theorem eachLands_append {event : Event env} {tables : Tables}
    (unchained : ¬ tables.chained (payloadHash env event) = true) (rest : List (Event env))
    (answer : SinkAnswers) (later : List SinkAnswers) :
    EachLands env (event :: rest) (answer :: later) tables ↔
      (sinkAppend answer).isSome ∧ EachLands env rest later (tables.land env event (sinkAppend answer)) :=
  iff_of_eq (if_neg unchained)

/-- What a recovery does to the rows of a refusal. -/
structure Recovered (events : List (Event env)) (tables after : Tables) : Prop where
  others : ∀ hash ∉ events.map (payloadHash env), copies after hash = copies tables hash
  grows : ∀ event ∈ events, copies tables (payloadHash env event) ≤ copies after (payloadHash env event)
  once : ∀ event ∈ events, copies after (payloadHash env event) ≤ 1

section Recovery

variable {event : Event env} {rest : List (Event env)} {tables after : Tables}

/-- An event that the chain holds already is passed over. -/
theorem Recovered.skip (recovered : Recovered rest tables after)
    (fresh : payloadHash env event ∉ rest.map (payloadHash env))
    (once : copies tables (payloadHash env event) ≤ 1) : Recovered (event :: rest) tables after := by
  have kept := recovered.others _ fresh
  refine ⟨?_, ?_, ?_⟩
  · intro hash absent
    exact recovered.others hash fun present => absent (List.mem_cons_of_mem _ present)
  · exact List.forall_mem_cons.mpr ⟨Nat.le_of_eq kept.symm, recovered.grows⟩
  · exact List.forall_mem_cons.mpr ⟨kept ▸ once, recovered.once⟩

/-- A landed event leaves the copies of the others. -/
theorem copies_land_rest (fresh : payloadHash env event ∉ rest.map (payloadHash env))
    (outcome : Option AppendOutcome) {other : Event env} (present : other ∈ rest) :
    copies (tables.land env event outcome) (payloadHash env other) = copies tables (payloadHash env other) := by
  have apart : payloadHash env event ≠ payloadHash env other := fun same =>
    fresh (same ▸ List.mem_map_of_mem present)
  rw [copies_land, if_neg fun both => apart both.2, Nat.add_zero]

/-- An event of which no row exists lands once or not at all. -/
theorem Recovered.land {outcome : Option AppendOutcome}
    (recovered : Recovered rest (tables.land env event outcome) after)
    (fresh : payloadHash env event ∉ rest.map (payloadHash env))
    (none : copies tables (payloadHash env event) = 0) :
    Recovered (event :: rest) tables after ∧
      (outcome.isSome → copies after (payloadHash env event) = 1) := by
  have kept := recovered.others _ fresh
  rw [copies_land, none, Nat.zero_add] at kept
  refine ⟨⟨?_, ?_, ?_⟩, ?_⟩
  · intro hash absent
    have apartHash : payloadHash env event ≠ hash := fun same => absent (same ▸ List.mem_cons_self)
    rw [recovered.others hash fun present => absent (List.mem_cons_of_mem _ present), copies_land,
      if_neg fun both => apartHash both.2, Nat.add_zero]
  · refine List.forall_mem_cons.mpr ⟨none ▸ Nat.zero_le _, ?_⟩
    intro other present
    exact copies_land_rest fresh outcome present ▸ recovered.grows other present
  · refine List.forall_mem_cons.mpr ⟨?_, recovered.once⟩
    rw [kept]
    split <;> omega
  · intro landed
    rw [kept, if_pos ⟨landed, rfl⟩]

end Recovery

/-- A recovery that finishes, with every append landed, leaves one row of each event. -/
theorem recoverEvents_recovered {events : List (Event env)} {answers : List SinkAnswers} {tables : Tables}
    (lone : (events.map (payloadHash env)).Nodup)
    (once : ∀ event ∈ events, copies tables (payloadHash env event) ≤ 1)
    (noDlq : ∀ event ∈ events,
      tables.signedEventsDlq.countP (isRefusalOf (payloadHash env event)) = 0) :
    Recovered events tables (recoverEvents env events answers tables).1 ∧
      ((recoverEvents env events answers tables).2 = true → EachLands env events answers tables →
        ∀ event ∈ events,
          copies (recoverEvents env events answers tables).1 (payloadHash env event) = 1) := by
  induction events generalizing answers tables with
  | nil => exact ⟨⟨fun _ _ => rfl, by simp, by simp⟩, by simp⟩
  | cons event rest ih =>
      rw [List.map_cons, List.nodup_cons] at lone
      obtain ⟨fresh, restLone⟩ := lone
      obtain ⟨eventOnce, restOnce⟩ := List.forall_mem_cons.mp once
      obtain ⟨eventNoDlq, restNoDlq⟩ := List.forall_mem_cons.mp noDlq
      by_cases chained : tables.chained (payloadHash env event)
      · rw [recoverEvents_chained chained]
        obtain ⟨recovered, complete⟩ := @ih answers tables restLone restOnce restNoDlq
        have counted : copies tables (payloadHash env event) = 1 := by
          have positive : 0 < tables.signedEvents.countP (isRefusalOf (payloadHash env event)) :=
            List.countP_pos_iff.mpr (List.any_eq_true.mp chained)
          unfold copies at eventOnce ⊢
          omega
        refine ⟨recovered.skip fresh eventOnce, ?_⟩
        intro finished landed
        rw [eachLands_chained chained] at landed
        exact List.forall_mem_cons.mpr
          ⟨(recovered.others _ fresh).trans counted, complete finished landed⟩
      · have unchained : tables.signedEvents.countP (isRefusalOf (payloadHash env event)) = 0 := by
          rw [List.countP_eq_zero]
          intro row present refusal
          exact chained (List.any_eq_true.mpr ⟨row, present, refusal⟩)
        have none : copies tables (payloadHash env event) = 0 := by
          unfold copies
          omega
        cases answers with
        | nil =>
            rw [recoverEvents_stops chained]
            refine ⟨⟨fun _ _ => rfl, fun _ _ => Nat.le_refl _, once⟩, ?_⟩
            intro finished
            exact absurd finished Bool.false_ne_true
        | cons answer later =>
            rw [recoverEvents_append chained]
            have landedOnce : ∀ other ∈ rest,
                copies (tables.land env event (sinkAppend answer)) (payloadHash env other) ≤ 1 := by
              intro other present
              rw [copies_land_rest fresh (sinkAppend answer) present]
              exact restOnce other present
            have landedNoDlq : ∀ other ∈ rest,
                (tables.land env event (sinkAppend answer)).signedEventsDlq.countP
                  (isRefusalOf (payloadHash env other)) = 0 := by
              intro other present
              have apart : payloadHash env event ≠ payloadHash env other := fun same =>
                fresh (same ▸ List.mem_map_of_mem present)
              exact (dlq_land_other apart).trans (restNoDlq other present)
            obtain ⟨recovered, complete⟩ := @ih later _ restLone landedOnce landedNoDlq
            obtain ⟨whole, once⟩ := recovered.land fresh none
            refine ⟨whole, ?_⟩
            intro finished landed
            obtain ⟨here, there⟩ := (eachLands_append chained rest answer later).mp landed
            exact List.forall_mem_cons.mpr ⟨once here, complete finished there⟩

end Copies

section Journal

/-- The event that the replay reads from the frame of an event. -/
def image (event : Event env) : Event env :=
  (fromCanonicalBytes env (canonicalBytes env event)).getD event

/-- What an event is read back as is written like the event. -/
theorem ReadsBack.image_eq {event : Event env} (back : ReadsBack env event) :
    fromCanonicalBytes env (canonicalBytes env event) = some (image event) ∧
      canonicalBytes env (image event) = canonicalBytes env event := by
  obtain ⟨again, read, same⟩ := back
  have found : image event = again := by rw [image, read, Option.getD_some]
  rw [found]
  exact ⟨read, same⟩

/-- An event and what it is read back as have one hash. -/
theorem ReadsBack.payloadHash_eq {event : Event env} (back : ReadsBack env event) :
    payloadHash env (image event) = payloadHash env event :=
  congrArg env.sha256 back.image_eq.2

/-- The frame of the event was written whole and can be read. -/
def Framed (event : Event env) : Prop :=
  ReadsBack env event ∧ (canonicalBytes env event).length < u32Limit

theorem frame_ne_nil (event : Event env) : frame env event ≠ [] := by
  intro empty
  have size := congrArg List.length empty
  rw [frame, List.length_append, length_leBytes, List.length_nil] at size
  omega

/-- The journal of whole frames and torn bytes is read in its parts. -/
theorem scan_journal {frames : List (Event env)} {torn : Bytes} (framed : ∀ event ∈ frames, Framed event)
    (stops : readFrame env torn = none) :
    scan (readFrame env) (frames.flatMap (frame env) ++ torn) = (frames.map image, torn) := by
  apply scan_append _ stops fun event _ => frame_ne_nil event
  intro event present rest
  exact readFrame_frame (framed event present).2 (framed event present).1.image_eq.1 rest

end Journal

section Shares

theorem shares_nil (hash : Digest) : shares env [] hash = 0 := rfl

/-- The last event adds to the share of its own hash. -/
theorem shares_concat (events : List (Event env)) (event : Event env) (hash : Digest) :
    shares env (events ++ [event]) hash = shares env events hash + if payloadHash env event = hash then 1 else 0 := by
  rw [shares, List.map_append, List.count_append, List.map_singleton, List.count_singleton, shares]
  simp only [beq_iff_eq]

/-- The first event adds to the share of its own hash. -/
theorem shares_cons (event : Event env) (rest : List (Event env)) (hash : Digest) :
    shares env (event :: rest) hash = shares env rest hash + if payloadHash env event = hash then 1 else 0 := by
  rw [shares, List.map_cons, List.count_cons, shares]
  simp only [beq_iff_eq]

/-- A hash of no event has no share. -/
theorem shares_eq_zero {events : List (Event env)} {hash : Digest} (absent : hash ∉ events.map (payloadHash env)) :
    shares env events hash = 0 := List.count_eq_zero.mpr absent

/-- A part has no larger share than the whole. -/
theorem shares_le {part whole : List (Event env)} (sublist : part.Sublist whole) (hash : Digest) :
    shares env part hash ≤ shares env whole hash := (sublist.map _).count_le _

/-- A payload of one event belongs to that event. -/
theorem eq_of_shares_eq_one {events : List (Event env)} {first second : Event env} (present : first ∈ events)
    (listed : second ∈ events) (same : payloadHash env first = payloadHash env second)
    (sole : shares env events (payloadHash env second) = 1) : first = second := by
  rw [shares, List.count_eq_countP, List.countP_map, List.countP_eq_length_filter] at sole
  obtain ⟨only, alone⟩ := List.length_eq_one_iff.mp sole
  have one : ∀ event ∈ events, payloadHash env event = payloadHash env second → event = only := by
    intro event member shared
    exact List.mem_singleton.mp (alone ▸ List.mem_filter.mpr ⟨member, beq_iff_eq.mpr shared⟩)
  exact (one first present same).trans (one second listed rfl).symm

end Shares

section Invariant

/-- The journal holds frames of submitted events. Each submit stands for one row or place in the queue at most, and
each one whose append returned for a row or a frame. -/
structure Invariant (before : Tables) (state : State env) (frames : List (Event env)) (torn : Bytes) : Prop where
  journal : state.journal = frames.flatMap (frame env) ++ torn
  stops : readFrame env torn = none
  framed : ∀ event ∈ frames, Framed event
  written : frames.Sublist state.submitted
  accepted : state.accepted.Sublist state.submitted
  boot : state.live = false → state.queue = []
  once : ∀ hash, copies state.tables hash + shares env state.queue hash ≤
    copies before hash + shares env state.submitted hash
  kept : ∀ hash, copies before hash + shares env state.accepted hash ≤
    copies state.tables hash + shares env frames hash

variable {before : Tables} {state : State env} {frames : List (Event env)} {torn : Bytes}

/-- The tables before the run and an empty journal meet the invariant. -/
theorem Invariant.start (tables : Tables) : Invariant tables (State.start env tables) [] [] where
  journal := rfl
  stops := readFrame_nil
  framed := fun _ present => absurd present List.not_mem_nil
  written := List.Sublist.refl _
  accepted := List.Sublist.refl _
  boot := fun _ => rfl
  once := fun _ => Nat.le_refl _
  kept := fun _ => Nat.le_refl _

/-- The journal is replayed up to its torn tail. -/
theorem Invariant.replay_eq (invariant : Invariant before state frames torn) :
    replay env state.journal = frames.map image ∧ tornTail env state.journal = torn := by
  have scanned := scan_journal invariant.framed invariant.stops
  rw [replay, tornTail, invariant.journal, scanned]
  exact ⟨rfl, rfl⟩

/-- The events of the frames carry the hashes of their frames. -/
theorem Invariant.image_hashes (invariant : Invariant before state frames torn) :
    (frames.map image).map (payloadHash env) = frames.map (payloadHash env) := by
  rw [List.map_map]
  exact List.map_congr_left fun event present => (invariant.framed event present).1.payloadHash_eq

/-- The replayed events have the shares of the frames. -/
theorem Invariant.shares_replay (invariant : Invariant before state frames torn) (hash : Digest) :
    shares env (replay env state.journal) hash = shares env frames hash := by
  rw [shares, invariant.replay_eq.1, invariant.image_hashes, shares]

/-- The invariant settles every event. -/
theorem Invariant.settled (invariant : Invariant before state frames torn) (event : Event env) :
    Settled env before state event where
  once := (Nat.le_add_right _ _).trans (invariant.once _)
  kept := (invariant.shares_replay _).symm ▸ invariant.kept _

/-- A payload of one submit has one row, or it has none and the replay reads its frame. -/
theorem Invariant.settled_lone (invariant : Invariant before state frames torn) {event : Event env}
    (lone : Lone env before state event) (accepted : event ∈ state.accepted) :
    copies state.tables (payloadHash env event) = 1 ∨ copies state.tables (payloadHash env event) = 0 ∧
      ∃ again ∈ replay env state.journal, canonicalBytes env again = canonicalBytes env event := by
  obtain ⟨unrowed, sole⟩ := lone
  have once := invariant.once (payloadHash env event)
  have kept := invariant.kept (payloadHash env event)
  have listed : 0 < shares env state.accepted (payloadHash env event) :=
    List.count_pos_iff.mpr (List.mem_map_of_mem accepted)
  rw [unrowed, sole] at once
  by_cases none : copies state.tables (payloadHash env event) = 0
  · have framed : 0 < shares env frames (payloadHash env event) := by omega
    obtain ⟨other, present, same⟩ := List.mem_map.mp (List.count_pos_iff.mp framed)
    obtain rfl := eq_of_shares_eq_one (invariant.written.subset present) (invariant.accepted.subset accepted) same sole
    refine .inr ⟨none, image other, ?_, (invariant.framed other present).1.image_eq.2⟩
    rw [invariant.replay_eq.1]
    exact List.mem_map_of_mem present
  · exact .inl (by omega)

/-- An append writes nothing, a whole frame or the start of a frame. -/
theorem append_cases (journal : Bytes) (event : Event env) (outcome : WriteOutcome) :
    append env journal event outcome = (journal, false) ∨
      (canonicalBytes env event).length < u32Limit ∧
        ((append env journal event outcome).1 = journal ++ frame env event ∨
          (append env journal event outcome).2 = false ∧ ∃ written < (frame env event).length,
            (append env journal event outcome).1 = journal ++ (frame env event).take written) := by
  unfold append
  split
  · exact .inl rfl
  · rename_i short
    refine .inr ⟨Nat.lt_of_not_le short, ?_⟩
    cases outcome with
    | durable => exact .inl rfl
    | failed written =>
        by_cases whole : (frame env event).length ≤ written
        · exact .inl (congrArg (journal ++ ·) (List.take_of_length_le whole))
        · exact .inr ⟨rfl, written, Nat.lt_of_not_le whole, rfl⟩

/-- A write that writes nothing leaves the journal. -/
theorem append_of_writesNothing {event : Event env} {outcome : WriteOutcome}
    (nothing : WritesNothing env event outcome) (journal : Bytes) :
    (append env journal event outcome).1 = journal := by
  unfold append
  split
  · rfl
  · rename_i short
    rcases nothing with large | unwritten
    · exact absurd large short
    · subst unwritten
      exact List.append_nil journal

/-- The journal keeps its frames or gains the frame of the event. -/
def Grown (frames : List (Event env)) (event : Event env) (after : List (Event env)) : Prop :=
  after = frames ∨ after = frames ++ [event] ∧ (canonicalBytes env event).length < u32Limit

section Submit

variable {event : Event env} {outcome : WriteOutcome}

/-- A grown journal is framed. -/
theorem Invariant.framed_grown (invariant : Invariant before state frames torn) (back : ReadsBack env event)
    {after : List (Event env)} (grown : Grown frames event after) : ∀ other ∈ after, Framed other := by
  rcases grown with rfl | ⟨rfl, short⟩
  · exact invariant.framed
  · intro other present
    rcases List.mem_append.mp present with old | new
    · exact invariant.framed other old
    · obtain rfl := List.mem_singleton.mp new
      exact ⟨back, short⟩

/-- The queue, the tables and the record of the submits do not depend on what the journal holds. -/
theorem Invariant.submit_of_grown (invariant : Invariant before state frames torn) (back : ReadsBack env event)
    {after : List (Event env)} {rest : Bytes}
    (journal : (append env state.journal event outcome).1 = after.flatMap (frame env) ++ rest)
    (stops : readFrame env rest = none) (grown : Grown frames event after)
    (durable : (append env state.journal event outcome).2 = true → after = frames ++ [event]) :
    Invariant before (step env state (.submit event outcome)) after rest where
  journal := journal
  stops := stops
  framed := invariant.framed_grown back grown
  written := by
    rcases grown with rfl | ⟨rfl, _⟩
    · exact invariant.written.trans (List.sublist_append_left _ _)
    · exact invariant.written.append (List.Sublist.refl _)
  accepted := by
    simp only [step, DeferredAudit.submit]
    split
    · exact invariant.accepted.append (List.Sublist.refl _)
    · exact invariant.accepted.trans (List.sublist_append_left _ _)
  boot := fun down => absurd down (by simp [step, DeferredAudit.submit])
  once := by
    intro hash
    have counted := invariant.once hash
    simp only [step, DeferredAudit.submit, shares_concat]
    omega
  kept := by
    intro hash
    have counted := invariant.kept hash
    have more : shares env frames hash ≤ shares env after hash := by
      rcases grown with rfl | ⟨rfl, _⟩
      · exact Nat.le_refl _
      · exact shares_le (List.sublist_append_left _ _) hash
    simp only [step, DeferredAudit.submit]
    split
    · rename_i done
      rw [durable done, shares_concat, shares_concat]
      omega
    · omega

/-- A careful submission keeps the invariant. -/
theorem Invariant.submit (invariant : Invariant before state frames torn)
    (careful : Careful env before state (.submit event outcome)) :
    ∃ frames torn, Invariant before (step env state (.submit event outcome)) frames torn := by
  obtain ⟨back, writable⟩ := careful
  rcases append_cases state.journal event outcome with
    nothing | ⟨short, whole | ⟨failed, written, part, start⟩⟩
  · refine ⟨frames, torn, invariant.submit_of_grown back ?_ invariant.stops (.inl rfl) ?_⟩
    · rw [nothing]
      exact invariant.journal
    · rw [nothing]
      exact fun done => absurd done Bool.false_ne_true
  · have untorn : torn = [] := by
      rcases writable with empty | nothing
      · exact invariant.replay_eq.2.symm.trans empty
      · have same := append_of_writesNothing nothing state.journal
        rw [whole] at same
        exact absurd (List.append_right_eq_self.mp same) (frame_ne_nil event)
    refine ⟨frames ++ [event], [], invariant.submit_of_grown back ?_ readFrame_nil (.inr ⟨rfl, short⟩) fun _ => rfl⟩
    rw [whole, invariant.journal, untorn, List.flatMap_append, List.flatMap_singleton, List.append_nil,
      List.append_nil]
  · have notDurable : (append env state.journal event outcome).2 = true → False :=
      fun done => Bool.false_ne_true (failed.symm.trans done)
    rcases writable with empty | nothing
    · have untorn : torn = [] := invariant.replay_eq.2.symm.trans empty
      have startRead : readFrame env ((frame env event).take written) = none := readFrame_take short part
      refine ⟨frames, _, invariant.submit_of_grown back ?_ startRead (.inl rfl) ?_⟩
      · rw [start, invariant.journal, untorn, List.append_nil]
      · exact fun done => (notDurable done).elim
    · have same := append_of_writesNothing nothing state.journal
      refine ⟨frames, torn,
        invariant.submit_of_grown back (same.trans invariant.journal) invariant.stops (.inl rfl) ?_⟩
      exact fun done => (notDurable done).elim

end Submit

/-- The row of a drained event takes its place in the queue. -/
theorem Invariant.drain (invariant : Invariant before state frames torn) (answers : SinkAnswers) :
    Invariant before (step env state (.drain answers)) frames torn := by
  cases found : state.queue with
  | nil =>
      have same : step env state (.drain answers) = state := by
        simp only [step, DeferredAudit.drain, found]
      exact same.symm ▸ invariant
  | cons event rest =>
      have next : step env state (.drain answers) =
          { state with queue := rest, tables := state.tables.land env event (sinkAppend answers) } := by
        simp only [step, DeferredAudit.drain, found]
      rw [next]
      exact {
        journal := invariant.journal
        stops := invariant.stops
        framed := invariant.framed
        written := invariant.written
        accepted := invariant.accepted
        boot := fun down => absurd (found.symm.trans (invariant.boot down)) (List.cons_ne_nil _ _)
        once := fun hash => by
          have counted := invariant.once hash
          rw [found, shares_cons] at counted
          dsimp only
          rw [copies_land]
          split_ifs at counted ⊢ with landed same
          · omega
          · exact absurd landed.2 same
          · omega
          · omega
        kept := fun hash => by
          have counted := invariant.kept hash
          dsimp only
          rw [copies_land]
          omega }

/-- A crash keeps the invariant. -/
theorem Invariant.crash (invariant : Invariant before state frames torn) :
    Invariant before (step env state .crash) frames torn where
  journal := invariant.journal
  stops := invariant.stops
  framed := invariant.framed
  written := invariant.written
  accepted := invariant.accepted
  boot := fun _ => rfl
  once := fun hash => (Nat.add_le_add_left (Nat.zero_le _) _).trans (invariant.once hash)
  kept := invariant.kept

/-- A recovery loses no row. -/
theorem Recovered.le {events : List (Event env)} {tables after : Tables}
    (recovered : Recovered events tables after) (hash : Digest) : copies tables hash ≤ copies after hash := by
  by_cases present : hash ∈ events.map (payloadHash env)
  · obtain ⟨event, found, rfl⟩ := List.mem_map.mp present
    exact recovered.grows event found
  · exact Nat.le_of_eq (recovered.others hash present).symm

section Recover

variable {answers : List SinkAnswers} {truncates : Bool} {after : Tables}

/-- A recovery writes the tables, and it drops the journal where it finishes and is asked to. -/
theorem Invariant.step_recover (invariant : Invariant before state frames torn) (down : state.live = false) :
    DeferredAudit.step env state (.recover answers truncates) =
      { state with
        journal := if (recoverEvents env (frames.map image) answers state.tables).2 && truncates then []
          else state.journal
        tables := (recoverEvents env (frames.map image) answers state.tables).1 } := by
  simp only [DeferredAudit.step, down, recoverDeferredAudit, invariant.replay_eq.1, Bool.false_eq_true, if_false]

/-- Frames of lone payloads differ in their hashes. -/
theorem Invariant.lone_frames (invariant : Invariant before state frames torn)
    (lone : ∀ event ∈ frames.map image, Lone env before state event) :
    ((frames.map image).map (payloadHash env)).Nodup := by
  refine List.nodup_iff_count_le_one.mpr fun hash => ?_
  by_cases present : hash ∈ (frames.map image).map (payloadHash env)
  · obtain ⟨event, found, rfl⟩ := List.mem_map.mp present
    have part := shares_le invariant.written (payloadHash env event)
    rw [invariant.image_hashes]
    exact part.trans (lone event found).2.le
  · exact (List.count_eq_zero.mpr present).le.trans (Nat.zero_le 1)

/-- A lone payload has one row at most. -/
theorem Invariant.once_of_lone (invariant : Invariant before state frames torn) {event : Event env}
    (lone : Lone env before state event) : copies state.tables (payloadHash env event) ≤ 1 := by
  obtain ⟨unrowed, sole⟩ := lone
  have counted := invariant.once (payloadHash env event)
  omega

/-- After a recovery no submit of a lone payload stands for two rows. -/
theorem Invariant.once_recovered (invariant : Invariant before state frames torn) (down : state.live = false)
    (lone : ∀ event ∈ frames.map image, Lone env before state event)
    (recovered : Recovered (frames.map image) state.tables after) (hash : Digest) :
    copies after hash + shares env state.queue hash ≤ copies before hash + shares env state.submitted hash := by
  have counted := invariant.once hash
  by_cases present : hash ∈ (frames.map image).map (payloadHash env)
  · obtain ⟨event, found, rfl⟩ := List.mem_map.mp present
    obtain ⟨unrowed, sole⟩ := lone event found
    have oneAtMost := recovered.once event found
    rw [invariant.boot down, shares_nil]
    omega
  · rw [recovered.others hash present]
    exact counted

/-- A recovery that leaves one row of each frame needs its journal no more. -/
theorem Invariant.dropJournal (invariant : Invariant before state frames torn) (down : state.live = false)
    (lone : ∀ event ∈ frames.map image, Lone env before state event)
    (recovered : Recovered (frames.map image) state.tables after)
    (complete : ∀ event ∈ frames.map image, copies after (payloadHash env event) = 1) :
    Invariant before { state with journal := [], tables := after } [] [] where
  journal := rfl
  stops := readFrame_nil
  framed := fun _ present => absurd present List.not_mem_nil
  written := List.nil_sublist _
  accepted := invariant.accepted
  boot := invariant.boot
  once := invariant.once_recovered down lone recovered
  kept := fun hash => by
    have counted := invariant.kept hash
    dsimp only
    by_cases present : hash ∈ (frames.map image).map (payloadHash env)
    · obtain ⟨event, found, rfl⟩ := List.mem_map.mp present
      obtain ⟨unrowed, sole⟩ := lone event found
      have one := complete event found
      have part := shares_le invariant.accepted (payloadHash env event)
      omega
    · rw [recovered.others hash present]
      rw [invariant.image_hashes] at present
      rwa [shares_eq_zero present] at counted

/-- A recovery that keeps its journal loses no row. -/
theorem Invariant.keepJournal (invariant : Invariant before state frames torn) (down : state.live = false)
    (lone : ∀ event ∈ frames.map image, Lone env before state event)
    (recovered : Recovered (frames.map image) state.tables after) :
    Invariant before { state with tables := after } frames torn where
  journal := invariant.journal
  stops := invariant.stops
  framed := invariant.framed
  written := invariant.written
  accepted := invariant.accepted
  boot := invariant.boot
  once := invariant.once_recovered down lone recovered
  kept := fun hash => (invariant.kept hash).trans (Nat.add_le_add_right (recovered.le hash) _)

/-- A careful recovery keeps the invariant. -/
theorem Invariant.recover (invariant : Invariant before state frames torn)
    (careful : Careful env before state (.recover answers truncates)) :
    ∃ frames torn, Invariant before (DeferredAudit.step env state (.recover answers truncates)) frames torn := by
  cases down : state.live with
  | true =>
      have same : DeferredAudit.step env state (.recover answers truncates) = state := by
        simp only [DeferredAudit.step, down, if_true]
      exact ⟨frames, torn, same.symm ▸ invariant⟩
  | false =>
      obtain ⟨met, landed⟩ := careful down
      rw [invariant.replay_eq.1] at met landed
      have lone : ∀ event ∈ frames.map image, Lone env before state event := fun event present => (met event present).1
      obtain ⟨recovered, complete⟩ := @recoverEvents_recovered env (frames.map image) answers state.tables
        (invariant.lone_frames lone) (fun event present => invariant.once_of_lone (lone event present))
        fun event present => (met event present).2
      rw [invariant.step_recover down]
      split
      · rename_i truncated
        obtain ⟨finished, asked⟩ := Bool.and_eq_true_iff.mp truncated
        exact ⟨[], [], invariant.dropJournal down lone recovered (complete finished (landed asked))⟩
      · exact ⟨frames, torn, invariant.keepJournal down lone recovered⟩

end Recover

/-- A careful step keeps the invariant. -/
theorem Invariant.step {label : Label env} (invariant : Invariant before state frames torn)
    (careful : Careful env before state label) :
    ∃ frames torn, Invariant before (DeferredAudit.step env state label) frames torn := by
  cases label with
  | submit event outcome => exact invariant.submit careful
  | drain answers => exact ⟨frames, torn, invariant.drain answers⟩
  | crash => exact ⟨frames, torn, invariant.crash⟩
  | recover answers truncates => exact invariant.recover careful

end Invariant

/-- A run whose steps are all careful settles every refusal whose journal append returned; one whose payload is alone
has exactly one row, or none and a frame that the replay reads. -/
theorem run_settled {tables : Tables} {labels : List (Label env)}
    (careful : EveryStep (step env) (Careful env tables) (State.start env tables) labels) :
    ∀ event ∈ (run (step env) (State.start env tables) labels).accepted,
      Settled env tables (run (step env) (State.start env tables) labels) event ∧
        (Lone env tables (run (step env) (State.start env tables) labels) event →
          copies (run (step env) (State.start env tables) labels).tables (payloadHash env event) = 1 ∨
          copies (run (step env) (State.start env tables) labels).tables (payloadHash env event) = 0 ∧
            ∃ again ∈ replay env (run (step env) (State.start env tables) labels).journal,
              canonicalBytes env again = canonicalBytes env event) := by
  have reached : ∃ frames torn, Invariant tables (run (step env) (State.start env tables) labels) frames torn := by
    refine @run_invariant _ _ _ _ (fun state => ∃ frames torn, Invariant tables state frames torn) ?_ _ _ careful ?_
    · intro state label careful invariant
      obtain ⟨frames, torn, held⟩ := invariant
      exact held.step careful
    · exact ⟨[], [], Invariant.start tables⟩
  obtain ⟨frames, torn, invariant⟩ := reached
  exact fun event accepted => ⟨invariant.settled event, fun lone => invariant.settled_lone lone accepted⟩

section Samples

def spawnJson (binary : String) : Json :=
  ((Json.empty.insert "kind" (.string "process_spawn")).insert "binary" (.string binary)).insert "args"
    (.array 0 fun index => index.elim0)

def refuseJson (ruleId reason : String) : Json :=
  ((Json.empty.insert "decision" (.string "refuse")).insert "rule_id" (.string ruleId)).insert "reason"
    (.string reason)

def refusalJson (timestamp : String) : Json :=
  (((Json.empty.insert "action" (spawnJson "nc")).insert
    "decision" (refuseJson "R007" "no raw sockets")).insert
    "agent_id" (.string "shell")).insert "timestamp" (.string timestamp)

def refusalText (timestamp : String) : String :=
  "\x7b\"action\":\x7b\"args\":[],\"binary\":\"nc\",\"kind\":\"process_spawn\"\x7d,\"agent_id\":\"shell\"," ++
    "\"decision\":\x7b\"decision\":\"refuse\",\"reason\":\"no raw sockets\",\"rule_id\":\"R007\"\x7d," ++
    "\"timestamp\":\"" ++ timestamp ++ "\"\x7d"

def tenOClock : String := "2026-06-16T10:00:00+00:00"

def oneSecondLater : String := "2026-06-16T10:00:01+00:00"

/-- The serializer on the refusals of one command. -/
def refusalSerde : Serde where
  toVec json := ((json.get "timestamp").bind Json.asStr).elim [] fun timestamp => utf8 (refusalText timestamp)
  fromSlice bytes :=
    ([tenOClock, oneSecondLater].find? fun timestamp => bytes = utf8 (refusalText timestamp)).map refusalJson
  actionToValue
    | .processSpawn binary _ => spawnJson binary
    | _ => .null
  actionFromValue json := ((json.get "binary").bind Json.asStr).map fun binary => .processSpawn binary []
  decisionToValue
    | .refuse ruleId reason => refuseJson ruleId reason
    | _ => .null
  decisionFromValue json := do
    let ruleId ← (json.get "rule_id").bind Json.asStr
    let reason ← (json.get "reason").bind Json.asStr
    return .refuse ruleId reason

def refusalEnvironment : Environment where
  serde := refusalSerde
  chrono := Chrono.ofTable [(tenOClock, 0), (oneSecondLater, 1)]
  sha256 := digestOfTable
    [(utf8 (refusalText tenOClock), 0xc50eb716d5041b6d2a311a84cf33d265402d1a9945dd4296000816d8d0ed60c0),
      (utf8 (refusalText oneSecondLater), 0x21eb7da8b9191b512ade5d6e0fb047287992b51a533adfc8b257fbd45d6487db)]

def refusalAt (second : Int) : Event refusalEnvironment :=
  ⟨"shell", .processSpawn "nc" [], .refuse "R007" "no raw sockets", second⟩

theorem refusalAt_readsBack (second : Int) (found : second = 0 ∨ second = 1) :
    ReadsBack refusalEnvironment (refusalAt second) := by
  have first : refusalEnvironment.serde.fromSlice (utf8 (refusalText tenOClock)) = some (refusalJson tenOClock) := by
    simp [refusalEnvironment, refusalSerde]
  have apart : utf8 (refusalText oneSecondLater) ≠ utf8 (refusalText tenOClock) := by decide +kernel
  have later : refusalEnvironment.serde.fromSlice (utf8 (refusalText oneSecondLater)) =
      some (refusalJson oneSecondLater) := by
    simp [refusalEnvironment, refusalSerde, apart]
  rcases found with rfl | rfl
  · have text : canonicalBytes refusalEnvironment (refusalAt 0) = utf8 (refusalText tenOClock) := rfl
    refine ⟨refusalAt 0, ?_, rfl⟩
    rw [text, fromCanonicalBytes, first]
    rfl
  · have text : canonicalBytes refusalEnvironment (refusalAt 1) = utf8 (refusalText oneSecondLater) := rfl
    refine ⟨refusalAt 1, ?_, rfl⟩
    rw [text, fromCanonicalBytes, later]
    rfl

theorem refusalAt_short (second : Int) (found : second = 0 ∨ second = 1) :
    ¬ u32Limit ≤ (canonicalBytes refusalEnvironment (refusalAt second)).length := by
  rcases found with rfl | rfl <;> decide +kernel

theorem refusalAt_framed (second : Int) (found : second = 0 ∨ second = 1) : Framed (refusalAt second) :=
  ⟨refusalAt_readsBack second found, Nat.lt_of_not_le (refusalAt_short second found)⟩

def emptyTables : Tables := ⟨[], []⟩

def chainAnswers : SinkAnswers := ⟨true, [.race, .ok], false⟩

def closedAnswers : SinkAnswers := ⟨false, [], false⟩

/-- The drainer chains the first refusal before the crash, and the next boot recovers the second one; the last answer
is never asked for. -/
def crashAndRecover : List (Label refusalEnvironment) :=
  [.submit (refusalAt 0) .durable, .drain chainAnswers, .submit (refusalAt 1) .durable, .crash,
    .recover [chainAnswers, closedAnswers] true]

def crashedState : State refusalEnvironment where
  journal := frame refusalEnvironment (refusalAt 0) ++ frame refusalEnvironment (refusalAt 1)
  queue := []
  tables := ⟨[auditRow refusalEnvironment (refusalAt 0)], []⟩
  live := false
  submitted := [refusalAt 0, refusalAt 1]
  accepted := [refusalAt 0, refusalAt 1]

theorem crashedState_reached : run (step refusalEnvironment) (State.start refusalEnvironment emptyTables)
    (crashAndRecover.take 4) = crashedState := by
  simp [crashAndRecover, step, submit, append, drain, refusalAt_short, State.start]
  rfl

/-- The recovery passes over the chained refusal and appends the other one. -/
theorem crashedState_recovers : Careful refusalEnvironment emptyTables crashedState
    (.recover [chainAnswers, closedAnswers] true) := by
  have framed : ∀ event ∈ [refusalAt 0, refusalAt 1], Framed event := by
    simp [refusalAt_framed]
  have replayed : replay refusalEnvironment crashedState.journal = [image (refusalAt 0), image (refusalAt 1)] := by
    have journal : crashedState.journal =
        [refusalAt 0, refusalAt 1].flatMap (frame refusalEnvironment) ++ [] := by simp [crashedState]
    rw [replay, journal, scan_journal framed readFrame_nil]
    rfl
  have first := (refusalAt_readsBack 0 (.inl rfl)).payloadHash_eq
  have second := (refusalAt_readsBack 1 (.inr rfl)).payloadHash_eq
  intro _
  rw [replayed]
  constructor
  · intro event present
    have known : payloadHash refusalEnvironment event = payloadHash refusalEnvironment (refusalAt 0) ∨
        payloadHash refusalEnvironment event = payloadHash refusalEnvironment (refusalAt 1) := by
      rcases List.mem_pair.mp present with same | same
      · exact .inl ((congrArg _ same).trans first)
      · exact .inr ((congrArg _ same).trans second)
    refine ⟨⟨rfl, ?_⟩, rfl⟩
    rcases known with same | same <;> rw [same] <;> decide +kernel
  · intro _
    have chained : crashedState.tables.chained (payloadHash refusalEnvironment (image (refusalAt 0))) = true := by
      rw [first]
      decide +kernel
    have unchained : ¬ crashedState.tables.chained (payloadHash refusalEnvironment (image (refusalAt 1))) = true := by
      rw [second]
      decide +kernel
    rw [eachLands_chained chained, eachLands_append unchained]
    exact ⟨rfl, trivial⟩

/-- The refusal that the crash took from the queue has its one row. -/
theorem crashAndRecover_settled :
    let final := run (step refusalEnvironment) (State.start refusalEnvironment emptyTables) crashAndRecover
    refusalAt 1 ∈ final.accepted ∧ Settled refusalEnvironment emptyTables final (refusalAt 1) ∧
      (Lone refusalEnvironment emptyTables final (refusalAt 1) →
        copies final.tables (payloadHash refusalEnvironment (refusalAt 1)) = 1 ∨
        copies final.tables (payloadHash refusalEnvironment (refusalAt 1)) = 0 ∧
          ∃ again ∈ replay refusalEnvironment final.journal,
            canonicalBytes refusalEnvironment again = canonicalBytes refusalEnvironment (refusalAt 1)) := by
  have accepted : refusalAt 1 ∈
      (run (step refusalEnvironment) (State.start refusalEnvironment emptyTables) crashAndRecover).accepted := by
    simp [crashAndRecover, step, submit, append, drain, refusalAt_short]
  have whole : tornTail refusalEnvironment (frame refusalEnvironment (refusalAt 0)) = [] := by
    have scanned := @scan_journal refusalEnvironment [refusalAt 0] [] (by simp [refusalAt_framed]) readFrame_nil
    simp only [List.flatMap_singleton, List.append_nil] at scanned
    exact congrArg Prod.snd scanned
  have journal : (step refusalEnvironment (step refusalEnvironment
      (State.start refusalEnvironment emptyTables) (.submit (refusalAt 0) .durable)) (.drain chainAnswers)).journal =
        frame refusalEnvironment (refusalAt 0) := by
    simp [step, submit, append, drain, refusalAt_short, State.start]
  have recovers := crashedState_reached.symm ▸ crashedState_recovers
  refine ⟨accepted, @run_settled refusalEnvironment emptyTables crashAndRecover
    ⟨?_, trivial, ?_, trivial, recovers, trivial⟩ (refusalAt 1) accepted⟩
  · exact ⟨refusalAt_readsBack 0 (.inl rfl), .inl rfl⟩
  · exact ⟨refusalAt_readsBack 1 (.inr rfl), .inl (journal.symm ▸ whole)⟩

/-- The first append leaves one byte of its frame, and the second returns. -/
def appendAfterTorn : List (Label refusalEnvironment) :=
  [.submit (refusalAt 0) (.failed 1), .submit (refusalAt 1) .durable, .crash, .recover [] true]

/-- The second refusal has neither a row nor a readable frame. -/
theorem appendAfterTorn_lost :
    let final := run (step refusalEnvironment) (State.start refusalEnvironment emptyTables) appendAfterTorn
    refusalAt 1 ∈ final.accepted ∧ Lone refusalEnvironment emptyTables final (refusalAt 1) ∧
      ¬ Settled refusalEnvironment emptyTables final (refusalAt 1) := by
  have torn : replay refusalEnvironment ((frame refusalEnvironment (refusalAt 0)).take 1 ++
      frame refusalEnvironment (refusalAt 1)) = [] := by
    have unread : (readFrame refusalEnvironment ((frame refusalEnvironment (refusalAt 0)).take 1 ++
        frame refusalEnvironment (refusalAt 1))).isNone := by
      decide +kernel
    exact congrArg Prod.fst (scan_torn (Option.isNone_iff_eq_none.mp unread))
  intro final
  have reached : final = ⟨[], [], emptyTables, false, [refusalAt 0, refusalAt 1], [refusalAt 1]⟩ := by
    simp [final, appendAfterTorn, step, submit, append, refusalAt_short, State.start,
      recoverDeferredAudit, torn, recoverEvents]
  rw [reached]
  refine ⟨List.mem_singleton_self _, ⟨rfl, by decide +kernel⟩, fun settled => ?_⟩
  have kept := settled.kept
  revert kept
  decide +kernel

end Samples
end AiMemory.DeferredAudit
