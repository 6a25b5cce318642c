import AiMemory.Machine.Numbers
import AiMemory.SignedEvents.Chain

/-
This file proves that every reachable table is one chain and that the verifier accepts it.
-/

namespace AiMemory.SignedEvents
open AiMemory.Machine AiMemory.Library

variable (sha256 : Bytes → Digest)

/-- The table has room for its sequences and forms one chain in the order of its rows. -/
structure Appended (rows : List EventRow) : Prop where
  room : rows.length < 2 ^ 63
  chained : Chained sha256 (rows.map EventRow.toEvent)

variable {sha256}

/-- A chained list that fits its numbers ascends. -/
theorem Chained.ascending {events : List SignedEvent} (chained : Chained sha256 events)
    (room : events.length < 2 ^ 63) :
    events.Pairwise fun first second => first.sequence < second.sequence := by
  have listed : (events.map (·.sequence)).Pairwise (· < ·) := by
    rw [sequences_of_chained sha256 chained, List.pairwise_map]
    refine (List.pairwise_lt_range' 1).imp_of_mem fun _ present smaller => ?_
    have bound := (List.mem_range'_1.mp present).2
    exact int64_ofNat_lt smaller (by omega)
  exact List.pairwise_map.mp listed

/-- Every number of a chained list is positive. -/
theorem Chained.positive {events : List SignedEvent} (chained : Chained sha256 events)
    (room : events.length < 2 ^ 63) {event : SignedEvent} (present : event ∈ events) :
    0 < event.sequence := by
  have listed := @List.mem_map_of_mem _ _ _ _ (·.sequence) present
  rw [sequences_of_chained sha256 chained] at listed
  obtain ⟨number, between, numbered⟩ := List.mem_map.mp listed
  have bounds := List.mem_range'_1.mp between
  rw [← numbered]
  exact @int64_ofNat_lt 0 _ (by omega) (by omega)

/-- A row of a chain carries its sequence. -/
theorem Appended.numbered {rows : List EventRow} (appended : Appended sha256 rows) {row : EventRow}
    (present : row ∈ rows) : row.sequence.isSome := by
  have positive := appended.chained.positive (by simpa using appended.room)
    (@List.mem_map_of_mem _ _ _ _ EventRow.toEvent present)
  cases stored : row.sequence with
  | some sequence => rfl
  | none => simp [EventRow.toEvent, stored] at positive

/-- The query returns a chain in the order of its rows. -/
theorem Appended.select_eq {rows : List EventRow} (appended : Appended sha256 rows) :
    selectAbove rows 0 = rows.map EventRow.toEvent := by
  have room : (rows.map EventRow.toEvent).length < 2 ^ 63 := by simpa using appended.room
  have all := List.filter_eq_self.mpr fun event present =>
    decide_eq_true (appended.chained.positive room present)
  rw [selectAbove, all]
  exact ((appended.chained.ascending room).imp Int64.le_of_lt).insertionSort_eq

/-- The head is a row of the table. -/
theorem foldl_latestHead_mem {events : List SignedEvent} {start : Option SignedEvent} {head : SignedEvent}
    (read : events.foldl latestHead start = some head) : start = some head ∨ head ∈ events := by
  apply foldl_choice_mem _ read
  intro held event
  cases held with
  | none => exact .inr rfl
  | some held =>
      rw [latestHead]
      split
      · exact .inr rfl
      · exact .inl rfl

/-- The last row of an ascending table is its head. -/
theorem foldl_latestHead_concat {events : List SignedEvent} {last : SignedEvent}
    (below : ∀ event ∈ events, event.sequence < last.sequence) :
    (events ++ [last]).foldl latestHead none = some last := by
  rw [List.foldl_append, List.foldl_cons, List.foldl_nil]
  cases read : events.foldl latestHead none with
  | none => rfl
  | some head =>
      have present := (foldl_latestHead_mem read).resolve_left (by simp)
      simp [latestHead, Int64.le_of_lt (below head present)]

/-- The head read of a chain returns the link that the next row has to name. -/
theorem Appended.readChainHead_eq {rows : List EventRow} (appended : Appended sha256 rows) :
    ∃ maxSeq prevHash, readChainHead sha256 rows = .ok (maxSeq, prevHash) ∧
      (maxSeq + 1, prevHash.1) =
        tip (SignedEvent.nextLink sha256) firstLink (rows.map EventRow.toEvent) := by
  have none_null : (rows.countP fun row => row.sequence.isNone) = 0 :=
    List.countP_eq_zero.mpr fun row present => by
      simp [Option.isSome_iff_ne_none.mp (appended.numbered present)]
  have all : (rows.filter fun row => row.sequence.isSome) = rows :=
    List.filter_eq_self.mpr fun row present => appended.numbered present
  rw [readChainHead, none_null, all]
  rcases List.eq_nil_or_concat rows with rfl | ⟨earlier, last, rfl⟩
  · exact ⟨0, zeroHash, rfl, rfl⟩
  · rw [List.concat_eq_append, List.map_append, List.map_singleton] at *
    have ascending := appended.chained.ascending (by simpa using appended.room)
    rw [List.map_append, List.map_singleton, List.pairwise_append] at ascending
    rw [foldl_latestHead_concat fun event present =>
      ascending.2.2 event present _ (List.mem_singleton.mpr rfl)]
    exact ⟨_, _, rfl, by rw [tip_concat]; rfl⟩

/-- An accepted row stands at the end of the table and fits into it. -/
theorem insertRow_ok {rows after : List EventRow} {row : EventRow}
    (stored : insertRow rows row = .ok after) :
    after = rows ++ [row] ∧ rows.length + 1 < 2 ^ 63 := by
  unfold insertRow at stored
  split at stored
  · cases stored
  split at stored
  · cases stored
  split at stored
  · cases stored
  · exact ⟨(Except.ok.inj stored).symm, by omega⟩

/-- An append keeps the chain. -/
theorem Appended.step {rows : List EventRow} (appended : Appended sha256 rows) (call : AppendCall) :
    Appended sha256 (appendStep sha256 rows call) := by
  obtain ⟨maxSeq, prevHash, head, expected⟩ := appended.readChainHead_eq
  have stored : appendSignedEventNoTx sha256 rows call =
      insertRow rows (appendedRow sha256 call maxSeq prevHash) := by
    rw [appendSignedEventNoTx, head]
  rw [appendStep, stored]
  cases inserted : insertRow rows (appendedRow sha256 call maxSeq prevHash) with
  | error _ => exact appended
  | ok after =>
      obtain ⟨rfl, room⟩ := insertRow_ok inserted
      refine ⟨by simpa using room, ?_⟩
      rw [List.map_append, List.map_singleton]
      exact (linked_concat _ _ _).mpr ⟨appended.chained, expected⟩

/-- Every reachable table is one chain. -/
theorem appended_of_reachable {rows : List EventRow} (reachable : Reachable sha256 rows) :
    Appended sha256 rows := by
  obtain ⟨calls, rfl⟩ := reachable
  exact run_invariant_always (fun _ call appended => appended.step call) calls
    ⟨by simp, trivial⟩

/-- The verifier accepts every reachable table. -/
theorem verifyChain_reachable (daemonVerifier recorderVerifier : Option VerifyingKey)
    {rows : List EventRow} (reachable : Reachable sha256 rows) :
    (verifyChain sha256 daemonVerifier recorderVerifier rows none).chainBreak = none := by
  have appended := appended_of_reachable reachable
  rw [verifyChain_clean_iff, appended.select_eq]
  exact appended.chained

end AiMemory.SignedEvents
