import Mathlib.Data.List.Basic

/-
This file develops the ranges of numbers that an ascending list leaves out.
-/

namespace AiMemory.Library

/-- Every number of the range has the property, and neither neighbour has it. -/
structure MaximalRange (property : Int → Prop) (range : Int × Int) : Prop where
  ordered : range.1 ≤ range.2
  filled : ∀ number, range.1 ≤ number → number ≤ range.2 → property number
  below : ¬ property (range.1 - 1)
  above : ¬ property (range.2 + 1)

/-- The ranges are the maximal ones, in increasing order and never adjacent. -/
structure Inventory (property : Int → Prop) (ranges : List (Int × Int)) : Prop where
  mem_iff : ∀ range, range ∈ ranges ↔ MaximalRange property range
  apart : ranges.Pairwise fun first second => first.2 + 1 < second.1

/-- A number from the expected one on that a later member of the list passes over. -/
def Skipped (expected : Int) (present : List Int) (number : Int) : Prop :=
  expected ≤ number ∧ (∃ later ∈ present, number < later) ∧ number ∉ present

def missingRanges (expected : Int) : List Int → List (Int × Int)
  | [] => []
  | number :: rest =>
      if expected < number then (expected, number - 1) :: missingRanges (number + 1) rest
      else missingRanges (number + 1) rest

theorem MaximalRange.congr {property other : Int → Prop} (same : ∀ number, property number ↔ other number)
    {range : Int × Int} : MaximalRange property range ↔ MaximalRange other range := by
  rw [show property = other from funext fun number => propext (same number)]

section Scan

variable {expected first : Int} {rest : List Int}

/-- After the first member, only the numbers above it are left to skip. -/
theorem skipped_cons_iff (ascending : (first :: rest).Pairwise (· ≤ ·)) (reached : expected ≤ first + 1)
    (number : Int) :
    Skipped expected (first :: rest) number ↔
      expected ≤ number ∧ number < first ∨ Skipped (first + 1) rest number := by
  have least := (List.pairwise_cons.mp ascending).1
  constructor
  · rintro ⟨low, ⟨later, held, passed⟩, absent⟩
    have differs : number ≠ first := fun same => absent (same ▸ List.mem_cons_self)
    rcases Int.lt_or_gt_of_ne differs with before | after
    · exact .inl ⟨low, before⟩
    · refine .inr ⟨by omega, ?_, fun held => absent (List.mem_cons_of_mem _ held)⟩
      rcases List.mem_cons.mp held with rfl | held
      · omega
      · exact ⟨later, held, passed⟩
  · rintro (⟨low, before⟩ | ⟨low, ⟨later, held, passed⟩, absent⟩)
    · refine ⟨low, ⟨first, List.mem_cons_self, before⟩, fun held => ?_⟩
      rcases List.mem_cons.mp held with same | held
      · omega
      · have above := least number held
        omega
    · refine ⟨by omega, ⟨later, List.mem_cons_of_mem _ held, passed⟩, fun held => ?_⟩
      rcases List.mem_cons.mp held with same | held
      · omega
      · exact absent held

/-- The head is never skipped, so a maximal range lies before it or after it. -/
theorem maximalRange_cons_iff (ascending : (first :: rest).Pairwise (· ≤ ·)) (reached : expected ≤ first + 1)
    (range : Int × Int) :
    MaximalRange (Skipped expected (first :: rest)) range ↔
      expected < first ∧ range = (expected, first - 1) ∨ MaximalRange (Skipped (first + 1) rest) range := by
  rw [MaximalRange.congr (skipped_cons_iff ascending reached)]
  constructor
  · intro maximal
    have ordered := maximal.ordered
    rcases maximal.filled range.1 (Int.le_refl _) ordered with ⟨low, before⟩ | later
    · have stays : range.2 < first := by
        by_contra passes
        rcases maximal.filled first (by omega) (by omega) with ⟨_, impossible⟩ | ⟨impossible, _⟩ <;> omega
      have starts : ¬ expected ≤ range.1 - 1 := fun low => maximal.below (.inl ⟨low, by omega⟩)
      have ends : ¬ range.2 + 1 < first := fun high => maximal.above (.inl ⟨by omega, high⟩)
      exact .inl ⟨by omega, Prod.ext (by simp only; omega) (by simp only; omega)⟩
    · have start := later.1
      refine .inr ⟨ordered, fun number low high => ?_, fun skipped => maximal.below (.inr skipped),
        fun skipped => maximal.above (.inr skipped)⟩
      rcases maximal.filled number low high with ⟨_, impossible⟩ | skipped
      · omega
      · exact skipped
  · rintro (⟨open_, rfl⟩ | maximal)
    · refine ⟨by simp only; omega, fun number low high => .inl ⟨low, by simp only at high; omega⟩, ?_, ?_⟩
      · rintro (⟨impossible, _⟩ | ⟨impossible, _⟩) <;> simp only at impossible <;> omega
      · rintro (⟨_, impossible⟩ | ⟨impossible, _⟩) <;> simp only at impossible <;> omega
    · have ordered := maximal.ordered
      have start := (maximal.filled range.1 (Int.le_refl _) ordered).1
      refine ⟨ordered, fun number low high => .inr (maximal.filled number low high), ?_, ?_⟩
      · rintro (⟨_, impossible⟩ | skipped)
        · omega
        · exact maximal.below skipped
      · rintro (⟨_, impossible⟩ | skipped)
        · omega
        · exact maximal.above skipped

end Scan

variable {expected : Int} {present : List Int}

/-- The scan lists exactly the maximal skipped ranges. -/
theorem missingRanges_inventory (ascending : present.Pairwise (· ≤ ·))
    (reached : ∀ number ∈ present, expected ≤ number + 1) :
    Inventory (Skipped expected present) (missingRanges expected present) := by
  induction present generalizing expected with
  | nil =>
      refine ⟨fun range => iff_of_false List.not_mem_nil fun maximal => ?_, List.Pairwise.nil⟩
      obtain ⟨_, ⟨_, impossible, _⟩, _⟩ := maximal.filled range.1 (Int.le_refl _) maximal.ordered
      exact List.not_mem_nil impossible
  | cons first rest ih =>
      have rests := List.pairwise_cons.mp ascending
      have later := ih rests.2 fun number held => Int.add_le_add_right (rests.1 number held) 1
      have head := maximalRange_cons_iff ascending (reached first List.mem_cons_self)
      by_cases gap : expected < first
      · rw [missingRanges, if_pos gap]
        refine ⟨fun range => ?_, List.pairwise_cons.mpr ⟨fun range held => ?_, later.apart⟩⟩
        · rw [List.mem_cons, later.mem_iff, head, and_iff_right gap]
        · have maximal := (later.mem_iff range).mp held
          have start := (maximal.filled range.1 (Int.le_refl _) maximal.ordered).1
          simp only
          omega
      · rw [missingRanges, if_neg gap]
        refine ⟨fun range => ?_, later.apart⟩
        rw [later.mem_iff, head, or_iff_right fun found => gap found.1]

/-- The inventory is empty exactly when nothing is skipped. -/
theorem missingRanges_eq_nil_iff (ascending : present.Pairwise (· ≤ ·))
    (reached : ∀ number ∈ present, expected ≤ number + 1) :
    missingRanges expected present = [] ↔ ∀ number, ¬ Skipped expected present number := by
  induction present generalizing expected with
  | nil =>
      refine iff_of_true rfl fun number skipped => ?_
      obtain ⟨_, ⟨_, impossible, _⟩, _⟩ := skipped
      exact List.not_mem_nil impossible
  | cons first rest ih =>
      have rests := List.pairwise_cons.mp ascending
      have later := ih rests.2 fun number held => Int.add_le_add_right (rests.1 number held) 1
      have head := skipped_cons_iff ascending (reached first List.mem_cons_self)
      by_cases gap : expected < first
      · rw [missingRanges, if_pos gap]
        exact iff_of_false (List.cons_ne_nil _ _) fun none =>
          none expected ((head expected).mpr (.inl ⟨Int.le_refl _, gap⟩))
      · rw [missingRanges, if_neg gap, later]
        refine forall_congr' fun number => ?_
        rw [head number, or_iff_right fun found => gap (by omega)]

end AiMemory.Library
