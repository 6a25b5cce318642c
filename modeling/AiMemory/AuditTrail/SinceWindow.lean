import AiMemory.AuditTrail.WitnessedLength

/-
This file proves which rows of a time window the report on the audit trail walks.
-/

namespace AiMemory.AuditTrail
open AiMemory.Checkpoints AiMemory.Library AiMemory.Machine AiMemory.SignedEvents AiMemory.Witness

/-- The sequences run from 1 on without a gap, whatever the timestamps are. -/
structure Contiguous (rows : List EventRow) : Prop where
  room : rows.length < 2 ^ 63
  numbered : (rows.map EventRow.sequence).Perm
    ((List.range' 1 rows.length).map fun number => some (Int64.ofNat number))

section Numbers

variable {rows : List EventRow}

/-- The sequences of a contiguous table are the numbers from one to its length. -/
theorem Contiguous.mem_iff (contiguous : Contiguous rows) (sequence : Option Int64) :
    (∃ row ∈ rows, row.sequence = sequence) ↔
      ∃ number, 1 ≤ number ∧ number ≤ rows.length ∧ sequence = some (Int64.ofNat number) := by
  have listed := contiguous.numbered.mem_iff (a := sequence)
  simp only [List.mem_map, List.mem_range'_1] at listed
  rw [listed]
  constructor
  · rintro ⟨number, ⟨low, high⟩, rfl⟩
    exact ⟨number, low, by omega, rfl⟩
  · rintro ⟨number, low, high, rfl⟩
    exact ⟨number, ⟨low, by omega⟩, rfl⟩

/-- Every row carries a positive number. -/
theorem Contiguous.number (contiguous : Contiguous rows) {row : EventRow} (stored : row ∈ rows) :
    ∃ number, 1 ≤ number ∧ number ≤ rows.length ∧ row.sequence = some (Int64.ofNat number) ∧
      row.toEvent.sequence = Int64.ofNat number := by
  obtain ⟨number, low, high, same⟩ := (contiguous.mem_iff row.sequence).mp ⟨row, stored, rfl⟩
  exact ⟨number, low, high, same, by simp [EventRow.toEvent, same]⟩

theorem Contiguous.positive (contiguous : Contiguous rows) {row : EventRow} (stored : row ∈ rows) :
    0 < row.toEvent.sequence := by
  obtain ⟨number, low, high, _, same⟩ := contiguous.number stored
  have room := contiguous.room
  rw [same]
  exact @int64_ofNat_lt 0 number low (by omega)

/-- A row of a contiguous table is stored under its own number. -/
theorem Contiguous.sequence_eq (contiguous : Contiguous rows) {row : EventRow} (stored : row ∈ rows) :
    row.sequence = some row.toEvent.sequence := by
  obtain ⟨number, _, _, numbered, same⟩ := contiguous.number stored
  rw [numbered, same]

/-- A row below the floor of the window is not walked. -/
theorem floor_lt_iff (contiguous : Contiguous rows) (since : String) {row : EventRow} (stored : row ∈ rows) :
    sinceFloor rows (some since) < row.toEvent.sequence ↔
      ∀ earlier ∈ rows, earlier.timestamp.text < since →
        earlier.toEvent.sequence < row.toEvent.sequence := by
  have present (sequence : Int64) :
      sequence ∈ sequencesOf (rows.filter fun row => row.timestamp.text < since) ↔
        ∃ earlier ∈ rows, earlier.timestamp.text < since ∧ earlier.toEvent.sequence = sequence := by
    simp only [sequencesOf, List.mem_filterMap, List.mem_filter, decide_eq_true_eq, and_assoc]
    refine exists_congr fun earlier => and_congr_right fun held => and_congr_right fun _ => ?_
    rw [contiguous.sequence_eq held, Option.some.injEq]
  show ((sequencesOf (rows.filter fun row => row.timestamp.text < since)).max?).getD 0 < _ ↔ _
  cases highest : (sequencesOf (rows.filter fun row => row.timestamp.text < since)).max? with
  | none =>
      have empty := List.max?_eq_none_iff.mp highest
      refine iff_of_true (contiguous.positive stored) fun earlier held before => ?_
      have listed := (present _).mpr ⟨earlier, held, before, rfl⟩
      rw [empty] at listed
      exact absurd listed List.not_mem_nil
  | some floor =>
      obtain ⟨reached, above⟩ := List.max?_eq_some_iff.mp highest
      rw [Option.getD_some]
      constructor
      · intro walked earlier held before
        exact Int64.lt_of_le_of_lt (above _ ((present _).mpr ⟨earlier, held, before, rfl⟩)) walked
      · intro below
        obtain ⟨earlier, held, before, same⟩ := (present floor).mp reached
        rw [← same]
        exact below earlier held before

/-- The walk starts above the floor. -/
theorem lower_eq (contiguous : Contiguous rows) (since : Option String) :
    (if 0 < sinceFloor rows since then some (sinceFloor rows since) else none).getD 0 =
      sinceFloor rows since := by
  split
  · rfl
  · rename_i low
    -- The floor is the number of a row, or 0 without a row before the window.
    cases since with
    | none => rfl
    | some since =>
        show (0 : Int64) = ((sequencesOf (rows.filter fun row => row.timestamp.text < since)).max?).getD 0
        have low : ¬ 0 < ((sequencesOf (rows.filter fun row => row.timestamp.text < since)).max?).getD 0 := low
        cases highest : (sequencesOf (rows.filter fun row => row.timestamp.text < since)).max? with
        | none => rfl
        | some floor =>
            obtain ⟨row, listed, same⟩ := List.mem_filterMap.mp (List.max?_eq_some_iff.mp highest).1
            have stored := (List.mem_filter.mp listed).1
            rw [contiguous.sequence_eq stored, Option.some.injEq] at same
            rw [highest, Option.getD_some, ← same] at low
            exact absurd (contiguous.positive stored) low

/-- Two rows of one sequence read the same, so the number of a row is its place. -/
theorem Contiguous.unique (contiguous : Contiguous rows) {first second : EventRow} (firstHeld : first ∈ rows)
    (secondHeld : second ∈ rows) (same : first.toEvent.sequence = second.toEvent.sequence) :
    first = second := by
  have distinct : (rows.map EventRow.sequence).Nodup := by
    apply contiguous.numbered.nodup_iff.mpr
    rw [List.nodup_map_iff_inj_on List.nodup_range']
    intro low lowHeld high highHeld equal
    have room := contiguous.room
    have lows := List.mem_range'_1.mp lowHeld
    have highs := List.mem_range'_1.mp highHeld
    have numbers := congrArg Int64.toInt (Option.some.inj equal)
    rw [Int64.toInt_ofNat_of_lt (by omega), Int64.toInt_ofNat_of_lt (by omega)] at numbers
    omega
  apply List.inj_on_of_nodup_map distinct firstHeld secondHeld
  rw [contiguous.sequence_eq firstHeld, contiguous.sequence_eq secondHeld, same]

end Numbers

section Links

variable (sha256 : Bytes → Digest)

/-- The row names the hash of the row before it. -/
def NamesPredecessor (rows : List EventRow) (row : EventRow) : Prop :=
  row.toEvent.prevHash.bytes = (startHash sha256 rows (row.toEvent.sequence - 1)).1

instance (rows : List EventRow) (row : EventRow) : Decidable (NamesPredecessor sha256 rows row) :=
  inferInstanceAs (Decidable (_ = _))

/-- The link of one row is overwritten. -/
def relink (rows : List EventRow) (index : Nat) (row : EventRow) (hash : Option Blob) : List EventRow :=
  (Tampering.change index { row with prevHash := hash }).apply rows

/-- The columns of a row without its link. -/
def unlinked (row : EventRow) : EventRow := { row with prevHash := none }

variable {sha256} {rows : List EventRow} {index : Nat} {row : EventRow} {hash : Option Blob}

/-- An overwritten link leaves the other columns of the table. -/
theorem map_unlinked_relink (found : rows[index]? = some row) :
    (relink rows index row hash).map unlinked = rows.map unlinked := by
  obtain ⟨within, same⟩ := List.getElem?_eq_some_iff.mp found
  have split : rows = rows.take index ++ row :: rows.drop (index + 1) := by
    rw [← same, ← List.drop_eq_getElem_cons within, List.take_append_drop]
  rw [relink, Tampering.apply]
  conv_rhs => rw [split]
  simp [unlinked]

theorem relinked_mem (rows : List EventRow) (index : Nat) (row : EventRow) (hash : Option Blob) :
    { row with prevHash := hash } ∈ relink rows index row hash := by
  simp [relink, Tampering.apply]

theorem sequence_map_unlinked (rows : List EventRow) :
    (rows.map unlinked).map EventRow.sequence = rows.map EventRow.sequence := by
  simp [Function.comp_def, unlinked]

theorem sinceFloor_unlinked (rows : List EventRow) (since : Option String) :
    sinceFloor (rows.map unlinked) since = sinceFloor rows since := by
  cases since <;> simp [sinceFloor, sequencesOf, List.filter_map, List.filterMap_map, Function.comp_def, unlinked]

/-- The hash that a walk starts from does not depend on the stored links. -/
theorem startHash_unlinked (rows : List EventRow) (lower : Int64) :
    startHash sha256 (rows.map unlinked) lower = startHash sha256 rows lower := by
  have found : ((rows.map unlinked).map EventRow.toEvent).find? (fun event => event.sequence = lower) =
      (((rows.map EventRow.toEvent).find? fun event => event.sequence = lower).map fun event =>
        { event with prevHash := Blob.empty }) := by
    simp only [List.map_map, List.find?_map, Option.map_map]
    rfl
  rw [startHash, startHash, found]
  cases (rows.map EventRow.toEvent).find? fun event => event.sequence = lower <;> rfl

/-- Contiguity does not depend on the stored links. -/
theorem Contiguous.of_unlinked {others : List EventRow} (contiguous : Contiguous rows)
    (same : others.map unlinked = rows.map unlinked) : Contiguous others := by
  have lengths : others.length = rows.length := by simpa using congrArg List.length same
  have sequences : others.map EventRow.sequence = rows.map EventRow.sequence := by
    rw [← sequence_map_unlinked others, same, sequence_map_unlinked]
  constructor
  · rw [lengths]
    exact contiguous.room
  · rw [lengths, sequences]
    exact contiguous.numbered

/-- A row outside the walk is not read, whatever its link is. -/
theorem selectAbove_relink (found : rows[index]? = some row) {lower : Int64}
    (outside : ¬ lower < row.toEvent.sequence) :
    selectAbove (relink rows index row hash) lower = selectAbove rows lower := by
  obtain ⟨within, same⟩ := List.getElem?_eq_some_iff.mp found
  have split : rows = rows.take index ++ row :: rows.drop (index + 1) := by
    rw [← same, ← List.drop_eq_getElem_cons within, List.take_append_drop]
  have hidden : ¬ lower < (EventRow.toEvent { row with prevHash := hash }).sequence := outside
  have dropped (changed : EventRow) (low : ¬ lower < changed.toEvent.sequence) :
      ((rows.take index ++ changed :: rows.drop (index + 1)).map EventRow.toEvent).filter
          (fun event => lower < event.sequence) =
        ((rows.take index ++ rows.drop (index + 1)).map EventRow.toEvent).filter
          fun event => lower < event.sequence := by
    simp [List.filter_append, List.filter_cons_of_neg, low]
  rw [selectAbove, selectAbove, relink, Tampering.apply, dropped _ hidden]
  conv_rhs => rw [split]
  rw [dropped row outside]

/-- The row at the start of a resumed walk is found by its number. -/
theorem startHash_of_mem (contiguous : Contiguous rows) (stored : row ∈ rows) :
    startHash sha256 rows row.toEvent.sequence = sha256 (canonicalChainBytes row.toEvent) := by
  rw [startHash, if_pos (contiguous.positive stored)]
  cases found : (rows.map EventRow.toEvent).find? fun event => event.sequence = row.toEvent.sequence with
  | none =>
      have missing := List.find?_eq_none.mp found row.toEvent (List.mem_map_of_mem stored)
      simp at missing
  | some event =>
      obtain ⟨other, held, rfl⟩ := List.mem_map.mp (List.mem_of_find?_eq_some found)
      have same := contiguous.unique held stored (by simpa using List.find?_some found)
      rw [same]

/-- In a clean walk every walked row names its predecessor. -/
theorem namesPredecessor_of_linked (contiguous : Contiguous rows) {lower : Int64}
    (linked : Linked SignedEvent.namedLink (SignedEvent.nextLink sha256)
      (lower + 1, (startHash sha256 rows lower).1) (selectAbove rows lower))
    (stored : row ∈ rows) (walked : lower < row.toEvent.sequence) : NamesPredecessor sha256 rows row := by
  have selected : row.toEvent ∈ selectAbove rows lower := mem_selectAbove.mpr ⟨⟨row, stored, rfl⟩, walked⟩
  rw [NamesPredecessor]
  rcases exists_next_of_linked linked selected with first | ⟨earlier, before, next⟩
  · have numbered : row.toEvent.sequence = lower + 1 := congrArg Prod.fst first
    have hashed : row.toEvent.prevHash.bytes = (startHash sha256 rows lower).1 := congrArg Prod.snd first
    rw [hashed, numbered, Int64.add_sub_cancel]
  · obtain ⟨⟨other, held, rfl⟩, _⟩ := mem_selectAbove.mp before
    have numbered : other.toEvent.sequence + 1 = row.toEvent.sequence := congrArg Prod.fst next
    have hashed : (sha256 (canonicalChainBytes other.toEvent)).1 = row.toEvent.prevHash.bytes :=
      congrArg Prod.snd next
    rw [← hashed, ← numbered, Int64.add_sub_cancel, startHash_of_mem contiguous held]

end Links

section Report

variable (env : Witness.Environment) (host : Host) (db : Database) (since : String)

/-- Over a contiguous table the windowed report checks the links of its own rows. -/
theorem chainIntact_iff (contiguous : Contiguous db.signedEvents) :
    (verifyAuditTrail env host db (some since)).chainIntact = true ↔
      Linked SignedEvent.namedLink (SignedEvent.nextLink env.checkpoints.sha256)
        (sinceFloor db.signedEvents (some since) + 1,
          (startHash env.checkpoints.sha256 db.signedEvents (sinceFloor db.signedEvents (some since))).1)
        (selectAbove db.signedEvents (sinceFloor db.signedEvents (some since))) := by
  show (verifyChain _ _ _ _ _).chainBreak.isNone = true ↔ _
  rw [Option.isNone_iff_eq_none, verifyChain, walk_clean_iff, lower_eq contiguous]
  exact and_iff_right rfl

variable (notBefore : String → String → Prop)

def WindowWalked : Prop :=
  ∀ row ∈ db.signedEvents, notBefore row.timestamp.text since →
    row.toEvent ∈ selectAbove db.signedEvents (sinceFloor db.signedEvents (some since))

/-- An overwritten link of a row of the window breaks the chain in the report. -/
def LinksReported : Prop :=
  ∀ index row, db.signedEvents[index]? = some row → notBefore row.timestamp.text since → ∀ hash,
    ¬ NamesPredecessor env.checkpoints.sha256 (relink db.signedEvents index row hash)
      { row with prevHash := hash } →
    (verifyAuditTrail env host { db with signedEvents := relink db.signedEvents index row hash }
      (some since)).chainIntact = false

/-- No row that sorts before the window follows a row of the window. -/
def WindowLast (rows : List EventRow) : Prop :=
  ∀ row ∈ rows, notBefore row.timestamp.text since → ∀ earlier ∈ rows, earlier.timestamp.text < since →
    earlier.toEvent.sequence < row.toEvent.sequence

instance [DecidableRel notBefore] (rows : List EventRow) : Decidable (WindowLast since notBefore rows) :=
  inferInstanceAs (Decidable (∀ _ ∈ _, _ → ∀ _ ∈ _, _ → _))

variable {env host db since notBefore}

/-- The walk covers the window exactly when the rows of the window come last. -/
theorem windowWalked_iff (contiguous : Contiguous db.signedEvents) :
    WindowWalked db since notBefore ↔ WindowLast since notBefore db.signedEvents := by
  refine forall_congr' fun row => forall_congr' fun stored => forall_congr' fun _ => ?_
  rw [← floor_lt_iff contiguous since stored, mem_selectAbove]
  exact and_iff_right ⟨row, stored, rfl⟩

/-- A walk over the whole window reports the links of the window. -/
theorem linksReported_of_walked (contiguous : Contiguous db.signedEvents)
    (walked : WindowWalked db since notBefore) : LinksReported env host db since notBefore := by
  intro index row found inWindow hash broken
  have stored := List.mem_of_getElem? found
  have same := @map_unlinked_relink _ _ _ hash found
  have floor : sinceFloor (relink db.signedEvents index row hash) (some since) =
      sinceFloor db.signedEvents (some since) := by
    rw [← sinceFloor_unlinked, same, sinceFloor_unlinked]
  have relinked := contiguous.of_unlinked same
  rw [← Bool.not_eq_true, chainIntact_iff env host _ since relinked]
  intro linked
  have above := (mem_selectAbove.mp (walked row stored inWindow)).2
  rw [← floor] at above
  exact broken (namesPredecessor_of_linked relinked linked (relinked_mem _ _ _ _) above)

/-- On a clean report an overwritten link outside the walk changes nothing. -/
theorem walked_of_linksReported (contiguous : Contiguous db.signedEvents)
    (intact : (verifyAuditTrail env host db (some since)).chainIntact = true)
    (reported : LinksReported env host db since notBefore) : WindowWalked db since notBefore := by
  intro row stored inWindow
  rw [mem_selectAbove]
  refine ⟨⟨row, stored, rfl⟩, ?_⟩
  by_contra outside
  obtain ⟨index, found⟩ := List.mem_iff_getElem?.mp stored
  have same := @map_unlinked_relink _ _ _ none found
  have floor : sinceFloor (relink db.signedEvents index row none) (some since) =
      sinceFloor db.signedEvents (some since) := by
    rw [← sinceFloor_unlinked, same, sinceFloor_unlinked]
  have start (lower : Int64) : startHash env.checkpoints.sha256 (relink db.signedEvents index row none) lower =
      startHash env.checkpoints.sha256 db.signedEvents lower := by
    rw [← startHash_unlinked, same, startHash_unlinked]
  have broken : ¬ NamesPredecessor env.checkpoints.sha256 (relink db.signedEvents index row none)
      { row with prevHash := none } := by
    intro names
    have width := (startHash env.checkpoints.sha256 (relink db.signedEvents index row none)
      ((EventRow.toEvent { row with prevHash := none }).sequence - 1)).2
    rw [← names] at width
    simp [EventRow.toEvent, Blob.empty] at width
  have unseen := reported index row found inWindow none broken
  rw [← Bool.not_eq_true, chainIntact_iff env host _ since (contiguous.of_unlinked same)] at unseen
  apply unseen
  show Linked _ _ (sinceFloor (relink db.signedEvents index row none) (some since) + 1, _) (selectAbove _ _)
  rw [floor, start, selectAbove_relink found outside]
  exact (chainIntact_iff env host db since contiguous).mp intact

/-- The report covers a window exactly when no row before the window follows one of its rows. -/
theorem window_covered_iff (contiguous : Contiguous db.signedEvents) :
    (WindowWalked db since notBefore ∧ LinksReported env host db since notBefore ↔
        WindowLast since notBefore db.signedEvents) ∧
      ((verifyAuditTrail env host db (some since)).chainIntact = true →
        (LinksReported env host db since notBefore ↔ WindowLast since notBefore db.signedEvents)) := by
  constructor
  · rw [← windowWalked_iff contiguous]
    exact ⟨And.left, fun walked => ⟨walked, linksReported_of_walked contiguous walked⟩⟩
  · intro intact
    rw [← windowWalked_iff contiguous]
    exact ⟨walked_of_linksReported contiguous intact, linksReported_of_walked contiguous⟩

end Report

section Samples

/-- The second event is appended last and happened first. -/
def lateCalls : List AppendCall :=
  [⟨SignedEvent.base firstId alice 0, fun _ => none⟩,
    ⟨{ SignedEvent.base secondId alice 0 with
        timestamp := ⟨"2026-06-16T09:00:00+00:00", by decide⟩ }, fun _ => none⟩]

def lateRows : List EventRow := run (appendStep trailSha256) [] lateCalls

def lateDatabase : Database := ⟨lateRows, [], 0, []⟩

theorem lateRows_contiguous : Contiguous lateRows := ⟨by decide +kernel, by decide +kernel⟩

/-- A window that holds both events is covered. -/
theorem wholeWindow_covered :
    WindowWalked lateDatabase "2026-06-16T08:00:00+00:00" (fun ts since => since ≤ ts) ∧
      LinksReported trailEnvironment trailHost lateDatabase "2026-06-16T08:00:00+00:00"
        fun ts since => since ≤ ts :=
  (@window_covered_iff trailEnvironment trailHost lateDatabase _ _ lateRows_contiguous).1.mpr (by decide +kernel)

def firstRow : EventRow :=
  { SignedEvent.base firstId alice 1 with
    prevHash := some (Blob.ofDigest zeroHash), sequence := some 1 }

/-- The late row raises the floor above the first row, so the report does not see that its link is gone. -/
theorem lateRow_hides_link :
    (Reachable trailSha256 lateRows ∧ Contiguous lateRows ∧ lateRows[0]? = some firstRow) ∧
      "2026-06-16T09:30:00+00:00" ≤ firstRow.timestamp.text ∧
      ¬ NamesPredecessor trailSha256 (relink lateRows 0 firstRow none) { firstRow with prevHash := none } ∧
      (verifyAuditTrail trailEnvironment trailHost
        { lateDatabase with signedEvents := relink lateRows 0 firstRow none }
        (some "2026-06-16T09:30:00+00:00")).chainIntact = true :=
  ⟨⟨⟨lateCalls, rfl⟩, lateRows_contiguous, by decide +kernel⟩, by decide +kernel, by decide +kernel,
    by decide +kernel⟩

end Samples
end AiMemory.AuditTrail
