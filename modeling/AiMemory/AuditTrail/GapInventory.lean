import AiMemory.AuditTrail.SinceWindow
import AiMemory.Library.MissingRanges

/-
This file proves which holes in the sequences the report on the audit trail lists.
-/

namespace AiMemory.AuditTrail
open AiMemory.Library AiMemory.Machine AiMemory.SignedEvents AiMemory.Witness

section Words

/-- The sort of machine words is ascending. -/
theorem int64_sorted {Item : Type} (rank : Item → Int64) (items : List Item) :
    (items.insertionSort fun first second => rank first ≤ rank second).Pairwise
      fun first second => rank first ≤ rank second := by
  have : Std.Total fun first second : Item => rank first ≤ rank second :=
    ⟨fun first second => Int64.le_total (rank first) (rank second)⟩
  have : IsTrans Item fun first second => rank first ≤ rank second := ⟨fun _ _ _ => Int64.le_trans⟩
  exact List.pairwise_insertionSort _ items

/-- The successor of a word below another word does not wrap. -/
theorem toInt_succ {first second : Int64} (below : first < second) : (first + 1).toInt = first.toInt + 1 := by
  have bounds := Int64.lt_iff_toInt_lt.mp below
  have high := second.toInt_lt
  have low := first.le_toInt
  rw [Int64.toInt_add, Int64.toInt_one, Int.bmod_eq_of_le] <;> omega

theorem toInt_pred {first second : Int64} (below : first < second) : (second - 1).toInt = second.toInt - 1 := by
  have bounds := Int64.lt_iff_toInt_lt.mp below
  have high := second.toInt_lt
  have low := first.le_toInt
  rw [Int64.toInt_sub, Int64.toInt_one, Int.bmod_eq_of_le] <;> omega

end Words

section Scan

def bounds (gap : Int64 × Int64) : Int × Int := (gap.1.toInt, gap.2.toInt)

/-- The scan over words is the scan over numbers, since no successor that a later word is compared with wraps. -/
theorem gapStep_foldl {window : List Int64}
    (ascending : window.Pairwise fun first second => first ≤ second ∧ (0 < first → first ≠ second))
    {scan : GapScan} {expected : Int} (aligned : window ≠ [] → scan.expected.toInt = expected) :
    (window.foldl gapStep scan).gaps.map bounds =
      scan.gaps.map bounds ++ missingRanges expected (window.map Int64.toInt) := by
  induction window generalizing scan expected with
  | nil => simp [missingRanges]
  | cons first rest ih =>
      have parts := List.pairwise_cons.mp ascending
      have start := aligned (List.cons_ne_nil _ _)
      have realigned : rest ≠ [] → (gapStep scan first).expected.toInt = first.toInt + 1 := by
        intro more
        obtain ⟨second, held⟩ := List.exists_mem_of_ne_nil rest more
        obtain ⟨low, distinct⟩ := parts.1 second held
        rcases Int64.lt_or_eq_of_le low with below | same
        · exact toInt_succ below
        · -- An equal word is not positive, so it is below the greatest word.
          have nonpositive : first ≤ 0 := Int64.not_lt.mp fun positive => distinct positive same
          exact toInt_succ (Int64.lt_of_le_of_lt nonpositive (by decide : (0 : Int64) < 1))
      rw [List.foldl_cons, ih parts.2 realigned, List.map_cons, missingRanges, ← start]
      by_cases gap : scan.expected < first
      · rw [if_pos (Int64.lt_iff_toInt_lt.mp gap), gapStep, if_pos gap, List.map_append, List.append_assoc]
        simp only [bounds, List.map_cons, List.map_nil, List.singleton_append, toInt_pred gap]
      · rw [if_neg fun below => gap (Int64.lt_iff_toInt_lt.mpr below), gapStep, if_neg gap]

/-- Along words that each meet the expectation, the scan lists nothing. -/
theorem gapStep_met {events : List SignedEvent} {sha256 : Bytes → Digest} {scan : GapScan} {hash : Bytes}
    (linked : Linked SignedEvent.namedLink (SignedEvent.nextLink sha256) (scan.expected, hash) events) :
    ((events.map (·.sequence)).foldl gapStep scan).gaps = scan.gaps := by
  induction events generalizing scan hash with
  | nil => rfl
  | cons event rest ih =>
      obtain ⟨named, linked⟩ := linked
      have met : event.sequence = scan.expected := congrArg Prod.fst named
      rw [List.map_cons, List.foldl_cons]
      refine (@ih (gapStep scan event.sequence) (sha256 (canonicalChainBytes event)).1 linked).trans ?_
      rw [gapStep, if_neg (by rw [met]; exact Int64.lt_irrefl)]

end Scan

section Inventory

/-- A number strictly between the floor and the greatest sequence that no row carries. -/
def Missing (rows : List EventRow) (floor : Int64) (number : Int) : Prop :=
  floor.toInt < number ∧ (∃ sequence ∈ sequencesOf rows, number < sequence.toInt) ∧
    ∀ sequence ∈ sequencesOf rows, sequence.toInt ≠ number

/-- The positive sequences are distinct. -/
def PositivesDistinct (rows : List EventRow) : Prop :=
  ((sequencesOf rows).filter fun sequence => 0 < sequence).Nodup

instance (rows : List EventRow) : Decidable (PositivesDistinct rows) :=
  inferInstanceAs (Decidable (List.Nodup _))

def windowSequences (rows : List EventRow) (floor : Int64) : List Int64 :=
  ((sequencesOf rows).filter fun sequence => floor < sequence).insertionSort (· ≤ ·)

variable {rows : List EventRow} {floor : Int64}

/-- The window holds the sequences above the floor. -/
theorem mem_windowSequences {sequence : Int64} :
    sequence ∈ windowSequences rows floor ↔ sequence ∈ sequencesOf rows ∧ floor < sequence := by
  rw [windowSequences, List.mem_insertionSort, List.mem_filter, decide_eq_true_eq]

/-- The window comes in ascending order, and no positive sequence comes twice. -/
theorem windowSequences_ascending (distinct : PositivesDistinct rows) :
    (windowSequences rows floor).Pairwise fun first second => first ≤ second ∧ (0 < first → first ≠ second) := by
  refine (int64_sorted id _).and ?_
  have positives : ((windowSequences rows floor).filter fun sequence => 0 < sequence).Nodup := by
    refine (((List.perm_insertionSort _ _).filter _).nodup_iff).mpr ?_
    rw [List.filter_comm]
    exact List.Nodup.filter _ distinct
  rw [List.Nodup, List.pairwise_filter] at positives
  refine ((int64_sorted id ((sequencesOf rows).filter fun sequence => floor < sequence)).and positives).imp ?_
  rintro first second ⟨low, apart⟩ positive
  have above : 0 < second := Int64.lt_of_lt_of_le positive low
  exact apart (decide_eq_true positive) (decide_eq_true above)

/-- A number is missing exactly when the window steps over it. -/
theorem missing_iff_skipped (number : Int) :
    Missing rows floor number ↔
      Skipped (floor.toInt + 1) ((windowSequences rows floor).map Int64.toInt) number := by
  constructor
  · rintro ⟨low, ⟨later, held, passed⟩, absent⟩
    refine ⟨low, ⟨later.toInt, ?_, passed⟩, fun listed => ?_⟩
    · refine List.mem_map_of_mem (mem_windowSequences.mpr ⟨held, Int64.lt_iff_toInt_lt.mpr ?_⟩)
      omega
    · obtain ⟨sequence, listed, same⟩ := List.mem_map.mp listed
      exact absent sequence (mem_windowSequences.mp listed).1 same
  · rintro ⟨low, ⟨later, listed, passed⟩, absent⟩
    obtain ⟨sequence, kept, rfl⟩ := List.mem_map.mp listed
    refine ⟨low, ⟨sequence, (mem_windowSequences.mp kept).1, passed⟩, fun other held same => ?_⟩
    have above : floor < other := Int64.lt_iff_toInt_lt.mpr (by omega)
    exact absent (List.mem_map.mpr ⟨other, mem_windowSequences.mpr ⟨held, above⟩, same⟩)

/-- The scan reads numbers, and it starts right above the floor. -/
theorem sequenceGaps_bounds (distinct : PositivesDistinct rows) :
    (sequenceGaps rows floor).map bounds =
      missingRanges (floor.toInt + 1) ((windowSequences rows floor).map Int64.toInt) := by
  refine (gapStep_foldl (windowSequences_ascending distinct) fun more => ?_).trans (List.nil_append _)
  obtain ⟨sequence, listed⟩ := List.exists_mem_of_ne_nil _ more
  exact toInt_succ (mem_windowSequences.mp listed).2

theorem windowNumbers_ascending (distinct : PositivesDistinct rows) :
    ((windowSequences rows floor).map Int64.toInt).Pairwise (· ≤ ·) :=
  List.pairwise_map.mpr ((windowSequences_ascending distinct).imp fun both => Int64.le_iff_toInt_le.mp both.1)

theorem windowNumbers_reached :
    ∀ number ∈ (windowSequences rows floor).map Int64.toInt, floor.toInt + 1 ≤ number + 1 := by
  intro number listed
  obtain ⟨sequence, kept, rfl⟩ := List.mem_map.mp listed
  have above := Int64.lt_iff_toInt_lt.mp (mem_windowSequences.mp kept).2
  omega

/-- From every floor the scan lists the maximal ranges of missing sequences. -/
theorem sequenceGaps_inventory (distinct : PositivesDistinct rows) :
    Inventory (Missing rows floor) ((sequenceGaps rows floor).map bounds) := by
  rw [sequenceGaps_bounds distinct, show Missing rows floor = _ from funext fun number =>
    propext (missing_iff_skipped number)]
  exact missingRanges_inventory (windowNumbers_ascending distinct) windowNumbers_reached

/-- No gap is reported exactly when no number is missing. -/
theorem sequenceGaps_eq_nil_iff (distinct : PositivesDistinct rows) :
    sequenceGaps rows floor = [] ↔ ∀ number, ¬ Missing rows floor number := by
  rw [← List.map_eq_nil_iff (f := bounds), sequenceGaps_bounds distinct,
    missingRanges_eq_nil_iff (windowNumbers_ascending distinct) windowNumbers_reached]
  exact forall_congr' fun number => not_congr (missing_iff_skipped number).symm

end Inventory

section Windows

variable (sha256 : Bytes → Digest) (rows : List EventRow)

/-- A floor below zero bounds the scan for gaps, but not the walk over the chain. -/
def walkFloor (floor : Int64) : Int64 := (if 0 < floor then some floor else none).getD 0

theorem walkFloor_of_nonneg {floor : Int64} (above : 0 ≤ floor) : walkFloor floor = floor := by
  rw [walkFloor]
  split
  · rfl
  · rename_i low
    exact Int64.le_antisymm above (Int64.not_lt.mp low)

theorem walkFloor_of_neg {floor : Int64} (below : floor < 0) : walkFloor floor = 0 := by
  rw [walkFloor, if_neg (Int64.not_lt.mpr (Int64.le_of_lt below))]
  rfl

/-- The walk reads the sequences of the window. -/
theorem selectAbove_sequences {floor : Int64} (above : 0 ≤ floor) :
    (selectAbove rows floor).map (·.sequence) = windowSequences rows floor := by
  have kept : (((rows.map EventRow.toEvent).filter fun event => floor < event.sequence).map (·.sequence)) =
      (sequencesOf rows).filter fun sequence => floor < sequence := by
    induction rows with
    | nil => rfl
    | cons row rest ih =>
        rw [List.map_cons, sequencesOf, List.filterMap_cons]
        cases stored : row.sequence with
        | none =>
            -- An absent sequence reads as zero, which is not above the floor.
            have outside : ¬ floor < row.toEvent.sequence := by
              rw [EventRow.toEvent, stored]
              exact Int64.not_lt.mpr above
            rw [List.filter_cons_of_neg (by simpa using outside)]
            exact ih
        | some sequence =>
            have same : row.toEvent.sequence = sequence := by rw [EventRow.toEvent, stored, Option.getD_some]
            simp only [List.filter_cons, same, apply_ite, List.map_cons]
            rw [ih]
            split <;> rfl
  have arranged : ((selectAbove rows floor).map (·.sequence)).Perm (windowSequences rows floor) := by
    refine ((List.perm_insertionSort _ _).map _).trans ?_
    rw [kept]
    exact (List.perm_insertionSort _ _).symm
  refine arranged.eq_of_pairwise (fun _ _ _ _ low high => Int64.le_antisymm low high) ?_ (int64_sorted id _)
  exact List.pairwise_map.mpr (int64_sorted SignedEvent.sequence _)

/-- An unbroken walk leaves no gap in its own window. -/
theorem sequenceGaps_of_linked {rows : List EventRow} {floor : Int64} {hash : Bytes} (above : 0 ≤ floor)
    (linked : Linked SignedEvent.namedLink (SignedEvent.nextLink sha256) (floor + 1, hash)
      (selectAbove rows floor)) : sequenceGaps rows floor = [] := by
  have met := @gapStep_met _ sha256 ⟨floor + 1, []⟩ _ linked
  rw [selectAbove_sequences rows above] at met
  exact met

variable (env : Witness.Environment) (host : Host) (db : Database) (since : Option String)

/-- The report calls the chain intact exactly when the walked rows are linked from the start hash. -/
theorem report_intact_iff :
    (verifyAuditTrail env host db since).chainIntact = true ↔
      Linked SignedEvent.namedLink (SignedEvent.nextLink env.checkpoints.sha256)
        (walkFloor (sinceFloor db.signedEvents since) + 1,
          (startHash env.checkpoints.sha256 db.signedEvents (walkFloor (sinceFloor db.signedEvents since))).1)
        (selectAbove db.signedEvents (walkFloor (sinceFloor db.signedEvents since))) := by
  show (verifyChain _ _ _ _ _).chainBreak.isNone = true ↔ _
  rw [Option.isNone_iff_eq_none, verifyChain, walk_clean_iff]
  exact and_iff_right rfl

/-- The report lists every gap of its window, and a listed gap breaks the chain. -/
structure ExactGaps : Prop where
  inventory : Inventory (Missing db.signedEvents (sinceFloor db.signedEvents since))
    ((verifyAuditTrail env host db since).sequenceGaps.map bounds)
  flagged : (verifyAuditTrail env host db since).sequenceGaps ≠ [] →
    (verifyAuditTrail env host db since).chainIntact = false

/-- The floor is not negative, or no number up to zero is missing above it, or the positive rows are not a chain. -/
def GapsWalked : Prop :=
  0 ≤ sinceFloor rows since ∨ (∀ number ≤ 0, ¬ Missing rows (sinceFloor rows since) number) ∨
    ¬ Chained sha256 (selectAbove rows 0)

variable {sha256 rows env host db since}

/-- Below a negative floor the walk sees exactly the missing numbers above zero. -/
theorem missing_of_positive {floor : Int64} (below : floor < 0) {number : Int} (positive : 0 < number) :
    Missing rows floor number ↔ Missing rows 0 number := by
  have low := Int64.lt_iff_toInt_lt.mp below
  rw [Int64.toInt_zero] at low
  rw [Missing, Missing, Int64.toInt_zero]
  exact and_congr_left fun _ => iff_of_true (by omega) positive

/-- The inventory is exact, and it agrees with the walk exactly when both see the same missing numbers. -/
theorem exactGaps_iff (distinct : PositivesDistinct db.signedEvents) :
    ExactGaps env host db since ↔ GapsWalked env.checkpoints.sha256 db.signedEvents since := by
  have inventory : Inventory (Missing db.signedEvents (sinceFloor db.signedEvents since))
      ((verifyAuditTrail env host db since).sequenceGaps.map bounds) := sequenceGaps_inventory distinct
  have intact := report_intact_iff env host db since
  have listed : (verifyAuditTrail env host db since).sequenceGaps =
      sequenceGaps db.signedEvents (sinceFloor db.signedEvents since) := rfl
  by_cases above : 0 ≤ sinceFloor db.signedEvents since
  · -- Both scans start at the floor.
    refine iff_of_true ⟨inventory, fun gaps => ?_⟩ (.inl above)
    rw [walkFloor_of_nonneg above] at intact
    rw [← Bool.not_eq_true, intact]
    exact fun linked => gaps (sequenceGaps_of_linked _ above linked)
  · have below := Int64.not_le.mp above
    rw [walkFloor_of_neg below] at intact
    have chained : (verifyAuditTrail env host db since).chainIntact = true ↔
        Chained env.checkpoints.sha256 (selectAbove db.signedEvents 0) := intact
    constructor
    · intro exact
      by_cases broken : Chained env.checkpoints.sha256 (selectAbove db.signedEvents 0)
      · refine .inr (.inl ?_)
        have empty : sequenceGaps db.signedEvents (sinceFloor db.signedEvents since) = [] := by
          by_contra gaps
          have dirty := exact.flagged gaps
          rw [chained.mpr broken] at dirty
          exact absurd dirty (by decide)
        exact fun number _ => (sequenceGaps_eq_nil_iff distinct).mp empty number
      · exact .inr (.inr broken)
    · rintro (impossible | covered | broken)
      · exact absurd impossible above
      · refine ⟨inventory, fun gaps => ?_⟩
        rw [← Bool.not_eq_true, chained]
        intro linked
        have walked := (sequenceGaps_eq_nil_iff distinct).mp (sequenceGaps_of_linked _ Int64.le_rfl linked)
        refine gaps (listed.trans ((sequenceGaps_eq_nil_iff distinct).mpr fun number missing => ?_))
        rcases Int.lt_or_le 0 number with positive | nonpositive
        · exact walked number ((missing_of_positive below positive).mp missing)
        · exact covered number nonpositive missing
      · refine ⟨inventory, fun _ => ?_⟩
        rw [← Bool.not_eq_true, chained]
        exact broken

end Windows

section Samples

/-- The rows after the first one are gone up to the fourth. -/
def holedRows : List EventRow :=
  [firstRow, { SignedEvent.base secondId alice 4 with prevHash := none, sequence := some 4 }]

def holedDatabase : Database := ⟨holedRows, [], 0, []⟩

/-- Without a window the report lists the hole and calls the chain broken. -/
theorem holedDatabase_exact :
    (verifyAuditTrail trailEnvironment trailHost holedDatabase none).sequenceGaps = [(2, 3)] ∧
      ExactGaps trailEnvironment trailHost holedDatabase none :=
  ⟨by decide +kernel, (@exactGaps_iff trailEnvironment trailHost holedDatabase none (by decide +kernel)).mpr
    (.inl (by decide +kernel))⟩

/-- A row with a negative sequence stands before the window. -/
def negativeRow : EventRow :=
  { SignedEvent.base secondId alice 0 with
    timestamp := ⟨"2026-06-16T09:15:00+00:00", by decide⟩, prevHash := none, sequence := some (-5) }

def negativeDatabase : Database := ⟨[negativeRow, firstRow], [], 0, []⟩

/-- The scan starts at the negative floor and the walk at zero, so the report lists a gap in an intact chain. -/
theorem negativeFloor_not_exact :
    PositivesDistinct negativeDatabase.signedEvents ∧
      (verifyAuditTrail trailEnvironment trailHost negativeDatabase
        (some "2026-06-16T09:30:00+00:00")).sequenceGaps = [(-4, 0)] ∧
      (verifyAuditTrail trailEnvironment trailHost negativeDatabase
        (some "2026-06-16T09:30:00+00:00")).chainIntact = true ∧
      ¬ ExactGaps trailEnvironment trailHost negativeDatabase (some "2026-06-16T09:30:00+00:00") :=
  ⟨by decide +kernel, by decide +kernel, by decide +kernel, fun exact =>
    absurd (exact.flagged (by decide +kernel)) (by decide +kernel)⟩

end Samples
end AiMemory.AuditTrail
