import AiMemory.SignedEvents.Reachable

/-
This file proves which single tampering steps the verifier of the chain reports.
-/

namespace AiMemory.SignedEvents
open AiMemory.Machine AiMemory.Library

/-- A tampering step rewrites, removes or adds one row of the stored table. -/
inductive Tampering where
  | change (index : Nat) (row : EventRow)
  | delete (index : Nat)
  | insert (index : Nat) (row : EventRow)
  deriving DecidableEq

def Tampering.apply (rows : List EventRow) : Tampering → List EventRow
  | change index row => rows.take index ++ row :: rows.drop (index + 1)
  | delete index => rows.take index ++ rows.drop (index + 1)
  | insert index row => rows.take index ++ row :: rows.drop index

section Definitions

variable (sha256 : Bytes → Digest) (rows : List EventRow)

/-- A new head carries the sequence and the hash that the next append would write. -/
def LinkedHead (row : EventRow) : Prop :=
  (readChainHead sha256 rows).toOption.map (fun head => (some (head.1 + 1), some (Blob.ofDigest head.2))) =
    some (row.sequence, row.prevHash)

instance (row : EventRow) : Decidable (LinkedHead sha256 rows row) :=
  inferInstanceAs (Decidable (_ = _))

/-- A change alters a committed column of the row. -/
def AltersCommitted (stored changed : EventRow) : Prop :=
  changed.prevHash = stored.prevHash ∧
    (changed.toEventBody ≠ stored.toEventBody ∨ changed.sequence ≠ stored.sequence)

instance (stored changed : EventRow) : Decidable (AltersCommitted stored changed) :=
  inferInstanceAs (Decidable (_ ∧ _))

/-- The step touches a row below the head, or it adds a row that is no linked head. -/
def Tampering.Valid : Tampering → Prop
  | change index changed =>
      index + 1 < rows.length ∧ ∀ stored ∈ rows[index]?, AltersCommitted stored changed
  | delete index => index + 1 < rows.length
  | insert _ row => ¬ LinkedHead sha256 rows row

instance : (tampering : Tampering) → Decidable (tampering.Valid sha256 rows)
  | .change _ _ => inferInstanceAs (Decidable (_ ∧ ∀ _ ∈ _, _))
  | .delete _ => inferInstanceAs (Decidable (_ < _))
  | .insert _ _ => inferInstanceAs (Decidable (¬ _))

/-- The change turns an absent signature into an empty one, or an empty one into an absent one. -/
def SwapsEmptySignature (stored changed : EventRow) : Prop :=
  stored.signature = none ∧ changed = { stored with signature := some Blob.empty } ∨
    stored.signature = some Blob.empty ∧ changed = { stored with signature := none }

/-- The verifier does not see an empty signature swap or a row outside its sequence filter. -/
def Tampering.Unseen : Tampering → Prop
  | change index changed => ∀ stored ∈ rows[index]?, SwapsEmptySignature stored changed
  | delete _ => False
  | insert _ row => row.sequence.getD 0 ≤ 0

end Definitions

section Rows

/-- The stored columns of a numbered row follow from what the verifier reads of them. -/
theorem changed_of_committed {stored changed : EventRow} (numbered : 0 < stored.toEvent.sequence)
    (same : changed.toEvent.committed = stored.toEvent.committed)
    (sameHash : changed.prevHash = stored.prevHash) :
    changed = { stored with signature := changed.signature } ∧
      changed.signature.getD Blob.empty = stored.signature.getD Blob.empty := by
  obtain ⟨⟨id, agentId, eventType, payloadHash, signature, attestLevel, timestamp, causeHash⟩,
    prevHash, sequence⟩ := stored
  obtain ⟨⟨_, _, _, _, changedSignature, _, _, _⟩, _, changedSequence⟩ := changed
  simp only [SignedEvent.committed, EventRow.toEvent, Prod.mk.injEq] at same numbered sameHash
  obtain ⟨rfl, rfl, rfl, rfl, signatures, rfl, rfl, sequences, rfl⟩ := same
  subst sameHash
  have sameSequence : changedSequence = sequence := by
    cases sequence with
    | none => simp at numbered
    | some number =>
        cases changedSequence with
        | none =>
            simp only [Option.getD_none, Option.getD_some] at sequences numbered
            simp [← sequences] at numbered
        | some changedNumber => exact congrArg some sequences
  subst sameSequence
  exact ⟨rfl, signatures⟩

/-- An altered row that reads the same differs in an empty signature only. -/
theorem swapsEmptySignature_iff {stored changed : EventRow} (numbered : 0 < stored.toEvent.sequence)
    (alters : AltersCommitted stored changed) :
    SwapsEmptySignature stored changed ↔ changed.toEvent.committed = stored.toEvent.committed := by
  constructor
  · rintro (⟨absent, rfl⟩ | ⟨empty, rfl⟩)
    · simp [SignedEvent.committed, EventRow.toEvent, absent]
    · simp [SignedEvent.committed, EventRow.toEvent, empty]
  · intro same
    obtain ⟨onlySignature, signatures⟩ := changed_of_committed numbered same alters.1
    have differs : changed.signature ≠ stored.signature := by
      intro sameSignature
      have equal : changed = stored := by rw [onlySignature, sameSignature]
      simp [AltersCommitted, equal] at alters
    cases before : stored.signature with
    | none =>
        cases after : changed.signature with
        | none => exact absurd (after.trans before.symm) differs
        | some signature =>
            simp only [before, after, Option.getD_none, Option.getD_some] at signatures
            exact .inl ⟨before, by rw [onlySignature, after, signatures]⟩
    | some signature =>
        cases after : changed.signature with
        | none =>
            simp only [before, after, Option.getD_none, Option.getD_some] at signatures
            exact .inr ⟨by rw [before, signatures], by rw [onlySignature, after]⟩
        | some other =>
            simp only [before, after, Option.getD_some] at signatures
            exact absurd (by rw [before, after, signatures]) differs

/-- The window holds the events above its lower bound. -/
theorem mem_selectAbove {rows : List EventRow} {lower : Int64} {event : SignedEvent} :
    event ∈ selectAbove rows lower ↔ (∃ row ∈ rows, row.toEvent = event) ∧ lower < event.sequence := by
  simp [selectAbove, List.mem_insertionSort]

/-- Two rows below the head split the table. -/
theorem rows_split {rows : List EventRow} {index : Nat} (below : index + 1 < rows.length) :
    ∃ stored follower after, rows[index]? = some stored ∧ rows.drop (index + 1) = follower :: after ∧
      rows = rows.take index ++ stored :: follower :: after := by
  have first : index < rows.length := by omega
  refine ⟨rows[index], rows[index + 1], rows.drop (index + 1 + 1), List.getElem?_eq_getElem first,
    List.drop_eq_getElem_cons below, ?_⟩
  rw [← List.drop_eq_getElem_cons below, ← List.drop_eq_getElem_cons first, List.take_append_drop]

end Rows

section Detection

variable {sha256 : Bytes → Digest}

/-- A clean table keeps a row that reads the same as the predecessor of each of its later rows. -/
theorem exists_committed_of_clean {before after tampered : List EventRow} {stored follower : EventRow}
    (appended : Appended sha256 (before ++ stored :: follower :: after))
    (clean : Chained sha256 (selectAbove tampered 0)) (kept : follower ∈ tampered)
    (collisionFree : CollisionFree sha256 (stored.canonical :: tampered.map EventRow.canonical)) :
    ∃ row ∈ tampered, row.toEvent.committed = stored.toEvent.committed := by
  have chained := appended.chained
  have room : ((before ++ stored :: follower :: after).map EventRow.toEvent).length < 2 ^ 63 := by
    simpa using appended.room
  have storedPositive : 0 < stored.toEvent.sequence := chained.positive room (by simp)
  have followerPositive : 0 < follower.toEvent.sequence := chained.positive room (by simp)
  have handed : follower.toEvent.namedLink = stored.toEvent.nextLink sha256 := by
    rw [Chained, List.map_append, linked_append] at chained
    exact chained.2.2.1
  have selected : follower.toEvent ∈ selectAbove tampered 0 :=
    mem_selectAbove.mpr ⟨⟨follower, kept, rfl⟩, followerPositive⟩
  rcases exists_next_of_linked clean selected with first | ⟨earlier, present, next⟩
  · -- The first row of a chain has no predecessor in it.
    have zero : stored.toEvent.sequence + 1 = 0 + 1 :=
      congrArg Prod.fst (handed.symm.trans first)
    rw [Int64.add_left_inj] at zero
    simp [zero] at storedPositive
  · obtain ⟨⟨row, held, rfl⟩, _⟩ := mem_selectAbove.mp present
    have digests := congrArg Prod.snd (next.trans handed)
    refine ⟨row, held, canonicalChainBytes_inj.mp (collisionFree _ ?_ _ ?_ (Subtype.ext digests))⟩
    · exact List.mem_cons_of_mem _ (List.mem_map_of_mem held)
    · exact List.mem_cons_self

/-- No other row of a chain reads the same as one of its rows. -/
theorem not_committed_of_other {before after : List EventRow} {stored : EventRow}
    (appended : Appended sha256 (before ++ stored :: after)) {row : EventRow}
    (other : row ∈ before ++ after) : row.toEvent.committed ≠ stored.toEvent.committed := by
  intro same
  have sequences : row.toEvent.sequence = stored.toEvent.sequence := by
    simp only [SignedEvent.committed, Prod.mk.injEq] at same
    exact same.2.2.2.2.2.2.2.1
  have ascending := appended.chained.ascending (by simpa using appended.room)
  rw [List.pairwise_map, List.pairwise_append, List.pairwise_cons] at ascending
  rcases List.mem_append.mp other with earlier | later
  · have below := ascending.2.2 row earlier stored List.mem_cons_self
    simp [sequences] at below
  · have above := ascending.2.1.1 row later
    simp [sequences] at above

/-- A row that the chain reads the same leaves the chain as it was. -/
theorem Appended.replace {before after : List EventRow} {stored changed : EventRow}
    (appended : Appended sha256 (before ++ stored :: after))
    (same : changed.toEvent.committed = stored.toEvent.committed)
    (sameHash : changed.prevHash = stored.prevHash) :
    Appended sha256 (before ++ changed :: after) := by
  have sequences : changed.toEvent.sequence = stored.toEvent.sequence := by
    simp only [SignedEvent.committed, Prod.mk.injEq] at same
    exact same.2.2.2.2.2.2.2.1
  refine ⟨by simpa using appended.room, ?_⟩
  have chained := appended.chained
  rw [Chained, List.map_append, List.map_cons] at chained ⊢
  refine (linked_replace ?_ ?_).mpr chained
  · have hashes : changed.toEvent.prevHash = stored.toEvent.prevHash := by
      simp [EventRow.toEvent, sameHash]
    rw [SignedEvent.namedLink, SignedEvent.namedLink, sequences, hashes]
  · rw [SignedEvent.nextLink, SignedEvent.nextLink, canonicalChainBytes_inj.mpr same, sequences]

/-- An inserted row outside the sequence filter is not selected. -/
theorem selectAbove_insert {before after : List EventRow} {row : EventRow}
    (hidden : row.sequence.getD 0 ≤ 0) :
    selectAbove (before ++ row :: after) 0 = selectAbove (before ++ after) 0 := by
  have rejected : ¬ 0 < row.toEvent.sequence := Int64.not_lt.mpr hidden
  simp [selectAbove, List.filter_append, List.filter_cons_of_neg, rejected]

/-- A chain ends at the sequence after its last row. -/
theorem tip_sequence {events : List SignedEvent} {start : Int64 × Bytes}
    (linked : Linked SignedEvent.namedLink (SignedEvent.nextLink sha256) start events) :
    (tip (SignedEvent.nextLink sha256) start events).1 = start.1 + Int64.ofNat events.length := by
  induction events generalizing start with
  | nil => simp [tip]
  | cons event rest ih =>
      obtain ⟨named, linked⟩ := linked
      have first : event.sequence = start.1 := congrArg Prod.fst named
      rw [tip, ih linked, SignedEvent.nextLink, first, List.length_cons, Int64.ofNat_add,
        Int64.add_assoc, Int64.add_comm 1]
      rfl

/-- The one extra row of a clean table carries the sequence after the head. -/
theorem sequence_of_clean {rows tampered : List EventRow} {row : EventRow}
    (appended : Appended sha256 rows) (clean : Chained sha256 (selectAbove tampered 0))
    (extra : tampered.Perm (row :: rows)) (visible : 0 < row.toEvent.sequence) :
    row.toEvent.sequence =
      (tip (SignedEvent.nextLink sha256) firstLink (rows.map EventRow.toEvent)).1 := by
  have room : (rows.map EventRow.toEvent).length < 2 ^ 63 := by simpa using appended.room
  have selected : (selectAbove tampered 0).Perm (row.toEvent :: rows.map EventRow.toEvent) := by
    have all : ∀ event ∈ row.toEvent :: rows.map EventRow.toEvent,
        decide (0 < event.sequence) = true := by
      intro event present
      rcases List.mem_cons.mp present with rfl | held
      · exact decide_eq_true visible
      · exact decide_eq_true (appended.chained.positive room held)
    have filtered := (extra.map EventRow.toEvent).filter fun event => decide (0 < event.sequence)
    rw [List.map_cons, List.filter_eq_self.mpr all] at filtered
    exact (List.perm_insertionSort _ _).trans filtered
  have numbers := selected.map (·.sequence)
  rw [sequences_of_chained sha256 clean, selected.length_eq, List.map_cons,
    sequences_of_chained sha256 appended.chained, List.length_cons, List.range'_1_concat,
    List.map_append, List.map_singleton] at numbers
  have last := (List.perm_append_left_iff _).mp (numbers.trans (List.perm_append_singleton _ _).symm)
  rw [tip_sequence appended.chained, List.singleton_perm_singleton.mp last |>.symm, Int64.ofNat_add]
  rfl

/-- The one extra row of a clean table names the tip of the chain. -/
theorem namedLink_of_clean {rows tampered : List EventRow} {row : EventRow}
    (appended : Appended sha256 rows) (clean : Chained sha256 (selectAbove tampered 0))
    (extra : tampered.Perm (row :: rows)) (visible : 0 < row.toEvent.sequence) :
    row.toEvent.namedLink =
      tip (SignedEvent.nextLink sha256) firstLink (rows.map EventRow.toEvent) := by
  have room : (rows.map EventRow.toEvent).length < 2 ^ 63 := by simpa using appended.room
  have sequence := sequence_of_clean appended clean extra visible
  have selected : row.toEvent ∈ selectAbove tampered 0 :=
    mem_selectAbove.mpr ⟨⟨row, extra.mem_iff.mpr List.mem_cons_self, rfl⟩, visible⟩
  rcases List.eq_nil_or_concat (rows.map EventRow.toEvent) with empty | ⟨earlier, last, split⟩
  · -- The extra row is the first row of its chain.
    rcases exists_next_of_linked clean selected with first | ⟨other, present, next⟩
    · rw [empty]
      exact first
    · obtain ⟨⟨held, kept, rfl⟩, _⟩ := mem_selectAbove.mp present
      have only : held = row := by
        rw [List.map_eq_nil_iff.mp empty] at extra
        simpa using extra.mem_iff.mp kept
      have again : row.toEvent.sequence + 1 = row.toEvent.sequence := by
        rw [only] at next
        exact congrArg Prod.fst next
      simp at again
  · rw [List.concat_eq_append] at split
    have chained := appended.chained
    rw [split] at chained room sequence ⊢
    rw [tip_concat] at sequence ⊢
    have lastPositive : 0 < last.sequence := chained.positive room (by simp)
    rcases exists_next_of_linked clean selected with first | ⟨other, present, next⟩
    · have zero : last.sequence + 1 = 0 + 1 := sequence.symm.trans (congrArg Prod.fst first)
      rw [Int64.add_left_inj] at zero
      simp [zero] at lastPositive
    · obtain ⟨⟨held, kept, rfl⟩, _⟩ := mem_selectAbove.mp present
      have sameSequence : held.toEvent.sequence = last.sequence := by
        have sums : held.toEvent.sequence + 1 = last.sequence + 1 :=
          (congrArg Prod.fst next).trans sequence
        exact (Int64.add_left_inj 1).mp sums
      rcases List.mem_cons.mp (extra.mem_iff.mp kept) with rfl | stored
      · have again : last.sequence = last.sequence + 1 := sameSequence.symm.trans sequence
        simp at again
      · have listed : held.toEvent ∈ earlier ++ [last] := by
          rw [← split]
          exact List.mem_map_of_mem stored
        rcases List.mem_append.mp listed with before | head
        · have below := (List.pairwise_append.mp (chained.ascending room)).2.2 _ before last
            (List.mem_singleton.mpr rfl)
          simp [sameSequence] at below
        · rw [← next, List.mem_singleton.mp head]

/-- A row that names the tip of the chain is a linked head. -/
theorem linkedHead_of_namedLink {rows : List EventRow} {row : EventRow}
    (appended : Appended sha256 rows) (visible : 0 < row.toEvent.sequence)
    (names : row.toEvent.namedLink =
      tip (SignedEvent.nextLink sha256) firstLink (rows.map EventRow.toEvent)) :
    LinkedHead sha256 rows row := by
  obtain ⟨maxSeq, prevHash, head, expected⟩ := appended.readChainHead_eq
  rw [← expected] at names
  simp only [LinkedHead, head, Except.toOption, Option.map_some, Option.some.injEq, Prod.mk.injEq]
  obtain ⟨body, storedHash, storedSequence⟩ := row
  constructor
  · cases storedSequence with
    | none => simp [EventRow.toEvent] at visible
    | some sequence => exact congrArg some (congrArg Prod.fst names).symm
  · cases storedHash with
    | none =>
        have width := prevHash.2
        have none_read : ([] : Bytes) = prevHash.1 := congrArg Prod.snd names
        simp [← none_read] at width
    | some hash => exact congrArg some (Blob.ext (congrArg Prod.snd names).symm)

/-- The digest separates one stored row from the rows of the tampered table. -/
theorem canonical_collisionFree {rows tampered : List EventRow} {stored : EventRow}
    (collisionFree : CollisionFree sha256 ((rows ++ tampered).map EventRow.canonical))
    (held : stored ∈ rows) :
    CollisionFree sha256 (stored.canonical :: tampered.map EventRow.canonical) := by
  apply collisionFree.mono
  rw [List.map_append]
  exact List.cons_subset.mpr ⟨List.mem_append_left _ (List.mem_map_of_mem held),
    List.subset_append_right _ _⟩

/-- A changed row stays clean exactly when it swaps an empty signature. -/
theorem change_clean_iff {rows : List EventRow} {index : Nat} {changed : EventRow}
    (appended : Appended sha256 rows) (valid : (Tampering.change index changed).Valid sha256 rows)
    (collisionFree : CollisionFree sha256
      ((rows ++ (Tampering.change index changed).apply rows).map EventRow.canonical)) :
    Chained sha256 (selectAbove ((Tampering.change index changed).apply rows) 0) ↔
      (Tampering.change index changed).Unseen rows := by
  obtain ⟨below, alters⟩ := valid
  obtain ⟨stored, follower, after, found, dropped, split⟩ := rows_split below
  have storedAlters := alters stored found
  have held : stored ∈ rows := List.mem_of_getElem? found
  have numbered : 0 < stored.toEvent.sequence :=
    appended.chained.positive (by simpa using appended.room) (List.mem_map_of_mem held)
  have unseen : (Tampering.change index changed).Unseen rows ↔
      changed.toEvent.committed = stored.toEvent.committed := by
    simp [Tampering.Unseen, found, swapsEmptySignature_iff numbered storedAlters]
  have separated := canonical_collisionFree collisionFree held
  rw [unseen]
  rw [Tampering.apply, dropped] at separated ⊢
  rw [split] at appended
  constructor
  · intro clean
    obtain ⟨row, present, same⟩ := exists_committed_of_clean appended clean (by simp) separated
    have only : row = changed := by
      by_contra different
      refine not_committed_of_other appended ?_ same
      simp only [List.mem_append, List.mem_cons] at present ⊢
      tauto
    rw [← only, same]
  · intro same
    have replaced := appended.replace same storedAlters.1
    rw [replaced.select_eq]
    exact replaced.chained

/-- A removed row below the head always breaks the chain. -/
theorem delete_broken {rows : List EventRow} {index : Nat} (appended : Appended sha256 rows)
    (below : index + 1 < rows.length)
    (collisionFree : CollisionFree sha256
      ((rows ++ (Tampering.delete index).apply rows).map EventRow.canonical)) :
    ¬ Chained sha256 (selectAbove ((Tampering.delete index).apply rows) 0) := by
  obtain ⟨stored, follower, after, found, dropped, split⟩ := rows_split below
  have held : stored ∈ rows := List.mem_of_getElem? found
  intro clean
  have separated := canonical_collisionFree collisionFree held
  rw [split] at appended
  rw [Tampering.apply, dropped] at clean separated
  obtain ⟨row, present, same⟩ := exists_committed_of_clean appended clean (by simp) separated
  exact not_committed_of_other appended present same

/-- An inserted row that is no linked head stays clean exactly outside the sequence filter. -/
theorem insert_clean_iff {rows : List EventRow} {index : Nat} {row : EventRow}
    (appended : Appended sha256 rows) (unlinked : ¬ LinkedHead sha256 rows row) :
    Chained sha256 (selectAbove ((Tampering.insert index row).apply rows) 0) ↔
      (Tampering.insert index row).Unseen rows := by
  rw [Tampering.apply, Tampering.Unseen]
  constructor
  · intro clean
    by_contra visible
    have positive : 0 < row.toEvent.sequence := Int64.not_le.mp visible
    have extra : (rows.take index ++ row :: rows.drop index).Perm (row :: rows) := by
      apply List.perm_middle.trans
      rw [List.take_append_drop]
    exact unlinked (linkedHead_of_namedLink appended positive
      (namedLink_of_clean appended clean extra positive))
  · intro hidden
    rw [selectAbove_insert hidden, List.take_append_drop, appended.select_eq]
    exact appended.chained

end Detection

/-- The verifier reports exactly the tampering steps that it can see. -/
theorem verifyChain_detects_iff (sha256 : Bytes → Digest)
    (daemonVerifier recorderVerifier : Option VerifyingKey) (rows : List EventRow)
    (reachable : Reachable sha256 rows) (tampering : Tampering)
    (valid : tampering.Valid sha256 rows)
    (collisionFree : CollisionFree sha256 ((rows ++ tampering.apply rows).map EventRow.canonical)) :
    (verifyChain sha256 daemonVerifier recorderVerifier (tampering.apply rows) none).chainBreak.isSome ↔
      ¬ tampering.Unseen rows := by
  have appended := appended_of_reachable reachable
  rw [Option.isSome_iff_ne_none, ne_eq, verifyChain_clean_iff, not_iff_not]
  cases tampering with
  | change index changed => exact change_clean_iff appended valid collisionFree
  | delete index => exact iff_of_false (delete_broken appended valid collisionFree) id
  | insert index row => exact insert_clean_iff appended valid

section Samples

def secondId : Text := ⟨"e2", by decide⟩

def thirdId : Text := ⟨"e3", by decide⟩

/-- The digests are those of the canonical bytes of the three sample events. -/
def sampleSha256 : Bytes → Digest :=
  digestOfTable
    [(canonicalChainBytes (SignedEvent.base firstId alice 1),
        0x71b39f45009272a81ce7e0a01ba702fa40e2594b9ee369622fc2526d7546f929),
      (canonicalChainBytes (SignedEvent.base secondId alice 2),
        0x2e108f6808cb84a2ca0adda0b9d18a14ba5d3b54f033228e4597af008f99226d),
      (canonicalChainBytes (SignedEvent.base thirdId alice 0),
        0x16f4ad3d0668dbb43cdc2d1b7658e78a368d3231c50038a71d5d4a98a3a017dc)]

def sampleCalls : List AppendCall :=
  [⟨SignedEvent.base firstId alice 0, fun _ => none⟩,
    ⟨SignedEvent.base secondId alice 0, fun _ => none⟩]

def sampleRows : List EventRow := run (appendStep sampleSha256) [] sampleCalls

/-- A removed first row breaks the chain of the two appended rows. -/
theorem removedRow_detected :
    (Tampering.delete 0).Valid sampleSha256 sampleRows ∧
      (verifyChain sampleSha256 none none ((Tampering.delete 0).apply sampleRows) none).chainBreak.isSome :=
  ⟨by decide, (verifyChain_detects_iff sampleSha256 none none sampleRows ⟨sampleCalls, rfl⟩
    (.delete 0) (by decide) (by decide +kernel)).mpr id⟩

/-- No append writes a row without a sequence and a link. -/
def unnumberedRow : EventRow :=
  { SignedEvent.base thirdId alice 0 with prevHash := none, sequence := none }

/-- The verifier accepts the two appended rows together with the inserted row. -/
theorem unnumberedRow_unseen :
    Reachable sampleSha256 sampleRows ∧ (Tampering.insert 2 unnumberedRow).Valid sampleSha256 sampleRows ∧
      CollisionFree sampleSha256
        ((sampleRows ++ (Tampering.insert 2 unnumberedRow).apply sampleRows).map EventRow.canonical) ∧
      (verifyChain sampleSha256 none none ((Tampering.insert 2 unnumberedRow).apply sampleRows) none
        ).chainBreak = none :=
  ⟨⟨sampleCalls, rfl⟩, by decide, by decide +kernel, by decide +kernel⟩

end Samples
end AiMemory.SignedEvents
