import Mathlib.Order.MinMax

/-
This file develops the merge of last-writer-wins registers and of optional registers.
-/

namespace AiMemory.Library

universe u v
variable {Stamp : Type u} {Value : Type v}

/-- The flag hands the register to its right side. -/
def pick (rightWins : Bool) (left right : Value) : Value := if rightWins then right else left

@[simp] theorem pick_true (left right : Value) : pick true left right = right := rfl

@[simp] theorem pick_false (left right : Value) : pick false left right = left := rfl

@[simp] theorem pick_self (rightWins : Bool) (value : Value) :
    pick rightWins value value = value := by cases rightWins <;> rfl

/-- The strict winner of a pair does not depend on the order of its sides. -/
theorem pick_not (rightWins : Bool) (left right : Value) :
    pick (!rightWins) left right = pick rightWins right left := by cases rightWins <;> rfl

/-- A side keeps the register when the other side already lost to it. -/
theorem pick_absorb {first second : Bool} (lost : first = false → second = false)
    (left right : Value) : pick second (pick first left right) right = pick first left right := by
  cases first with
  | true => simp
  | false => simp [lost rfl]

/-- The larger of two values; a tie keeps the left value. -/
def larger [LT Value] [DecidableLT Value] (left right : Value) : Value :=
  if left < right then right else left

theorem larger_eq_max [LinearOrder Value] (left right : Value) :
    larger left right = max left right := by
  unfold larger
  split_ifs with below
  · exact (max_eq_right below.le).symm
  · exact (max_eq_left (not_lt.mp below)).symm

/-- A second comparison with the same right side changes nothing. -/
theorem larger_absorb [LT Value] [DecidableLT Value] (irrefl : ∀ value : Value, ¬ value < value)
    (left right : Value) : larger (larger left right) right = larger left right := by
  by_cases below : left < right <;> simp [larger, below, irrefl]

/-- Two sides that exchange their values keep what the first exchange chose. -/
theorem larger_exchange [LT Value] [DecidableLT Value] (irrefl : ∀ value : Value, ¬ value < value)
    (left right : Value) :
    larger (larger left right) (larger right (larger left right)) = larger left right := by
  by_cases below : left < right
  · simp [larger, below, irrefl]
  · by_cases above : right < left
    · simp [larger, below, above, irrefl]
    · simp [larger, below, above]

section Optional

variable (join : Value → Value → Value)

/-- A present value beats absence, and two present values join. -/
def joinOption : Option Value → Option Value → Option Value
  | some left, some right => some (join left right)
  | some left, none => some left
  | none, right => right

@[simp] theorem joinOption_none_left (right : Option Value) :
    joinOption join none right = right := rfl

@[simp] theorem joinOption_none_right (left : Option Value) :
    joinOption join left none = left := by cases left <;> rfl

@[simp] theorem joinOption_some (left right : Value) :
    joinOption join (some left) (some right) = some (join left right) := rfl

variable {join}

/-- A join of optional values commutes with its join. -/
theorem joinOption_comm (comm : ∀ left right, join left right = join right left)
    (left right : Option Value) : joinOption join left right = joinOption join right left := by
  cases left <;> cases right <;> simp [comm]

/-- A join of optional values can be regrouped like its join. -/
theorem joinOption_assoc
    (assoc : ∀ left middle right, join (join left middle) right = join left (join middle right))
    (left middle right : Option Value) :
    joinOption join (joinOption join left middle) right =
      joinOption join left (joinOption join middle right) := by
  cases left <;> cases middle <;> cases right <;> simp [assoc]

/-- A second join with the same right side changes nothing when the values absorb it. -/
theorem joinOption_absorb {again : Value → Value → Value}
    (idem : ∀ value, again value value = value)
    {left right : Option Value}
    (absorb : ∀ first ∈ left, ∀ second ∈ right, again (join first second) second = join first second) :
    joinOption again (joinOption join left right) right = joinOption join left right := by
  cases left <;> cases right <;> simp_all

/-- Two sides that exchange optional values keep what the first exchange chose when their values do. -/
theorem joinOption_exchange (idem : ∀ value, join value value = value) {left right : Option Value}
    (exchange : ∀ first ∈ left, ∀ second ∈ right,
      join (join first second) (join second (join first second)) = join first second) :
    joinOption join (joinOption join left right) (joinOption join right (joinOption join left right)) =
      joinOption join left right := by
  cases left <;> cases right <;> simp_all

end Optional

/-- Two optional values coincide when no two present values differ. -/
def Coincide (agree : Value → Value → Prop) (left right : Option Value) : Prop :=
  ∀ first ∈ left, ∀ second ∈ right, agree first second

@[simp] theorem coincide_some (agree : Value → Value → Prop) (left right : Value) :
    Coincide agree (some left) (some right) ↔ agree left right := by simp [Coincide]

@[simp] theorem coincide_none_left (agree : Value → Value → Prop) (right : Option Value) :
    Coincide agree none right := by simp [Coincide]

@[simp] theorem coincide_none_right (agree : Value → Value → Prop) (left : Option Value) :
    Coincide agree left none := by simp [Coincide]

section Regroup

variable [LinearOrder Stamp] {firstStamp secondStamp thirdStamp : Stamp}

/-- The two groupings of three values under their stamps meet. -/
def Meets (merge : Bool → Value → Value → Value) (firstStamp secondStamp thirdStamp : Stamp)
    (first second third : Value) : Prop :=
  merge (decide (max firstStamp secondStamp < thirdStamp))
      (merge (decide (firstStamp < secondStamp)) first second) third =
    merge (decide (firstStamp < max secondStamp thirdStamp)) first
      (merge (decide (secondStamp < thirdStamp)) second third)

/-- The register of the largest stamp wins in both groupings of three. -/
theorem meets_pick (firstStamp secondStamp thirdStamp : Stamp) (first second third : Value) :
    Meets pick firstStamp secondStamp thirdStamp first second third := by
  simp only [Meets, pick, decide_eq_true_eq, max_lt_iff, lt_max_iff]
  split_ifs <;> grind

/-- The pairs that can meet under a borrowed stamp agree, once a lone slot is absent. -/
structure LoneSlotAgrees (agree : Value → Value → Prop)
    (firstStamp secondStamp thirdStamp : Stamp) (first second third : Option Value) : Prop where
  /-- The newest row lacks the value, and the second row is the oldest. -/
  withoutFirst : first = none → secondStamp < thirdStamp → thirdStamp < firstStamp →
    Coincide agree second third
  /-- The second row lacks the value and is the newest. -/
  withoutSecond : second = none → firstStamp < secondStamp → thirdStamp < secondStamp →
    Coincide agree first third
  /-- The newest row lacks the value, and the second row is the oldest. -/
  withoutThird : third = none → secondStamp < firstStamp → firstStamp < thirdStamp →
    Coincide agree first second

/-- Three absent slots leave nothing to disagree about. -/
theorem LoneSlotAgrees.of_none (agree : Value → Value → Prop)
    (firstStamp secondStamp thirdStamp : Stamp) :
    LoneSlotAgrees agree firstStamp secondStamp thirdStamp none none none := by
  constructor <;> simp

/-- Three optional registers meet exactly when the lone slots agree and three present values meet. -/
theorem meets_joinOption_iff {join : Bool → Value → Value → Value}
    {agree : Value → Value → Prop} {whole : Value → Value → Value → Prop}
    (flip : ∀ left right, join true left right = join false left right ↔ agree left right)
    (firstSecond : firstStamp ≠ secondStamp) (secondThird : secondStamp ≠ thirdStamp)
    (firstThird : firstStamp ≠ thirdStamp) {first second third : Option Value}
    (regroup : ∀ x ∈ first, ∀ y ∈ second, ∀ z ∈ third,
      (Meets join firstStamp secondStamp thirdStamp x y z ↔ whole x y z)) :
    Meets (fun rightWins => joinOption (join rightWins)) firstStamp secondStamp thirdStamp
        first second third ↔
      LoneSlotAgrees agree firstStamp secondStamp thirdStamp first second third ∧
        ∀ x ∈ first, ∀ y ∈ second, ∀ z ∈ third, whole x y z := by
  -- two flags that differ make the same pair meet under both verdicts
  have verdicts : ∀ (later earlier : Prop) [Decidable later] [Decidable earlier]
      (left right : Value), (join (decide later) left right = join (decide earlier) left right ↔
        (¬ (later ↔ earlier) → agree left right)) := by
    intro later earlier _ _ left right
    by_cases isLater : later <;> by_cases isEarlier : earlier <;>
      simp [isLater, isEarlier, flip, eq_comm.trans (flip left right)]
  unfold Meets
  constructor
  · intro same
    refine ⟨⟨?_, ?_, ?_⟩, ?_⟩
    · rintro rfl less lessFirst y inSecond z inThird
      obtain rfl := Option.mem_def.mp inSecond
      obtain rfl := Option.mem_def.mp inThird
      simp only [joinOption_none_left, joinOption_some, Option.some.injEq] at same
      exact (verdicts _ _ _ _).mp same (by rw [max_lt_iff]; grind)
    · rintro rfl less lessSecond x inFirst z inThird
      obtain rfl := Option.mem_def.mp inFirst
      obtain rfl := Option.mem_def.mp inThird
      simp only [joinOption_none_left, joinOption_none_right, joinOption_some,
        Option.some.injEq] at same
      exact (verdicts _ _ _ _).mp same (by rw [max_lt_iff, lt_max_iff]; grind)
    · rintro rfl less lessThird x inFirst y inSecond
      obtain rfl := Option.mem_def.mp inFirst
      obtain rfl := Option.mem_def.mp inSecond
      simp only [joinOption_none_right, joinOption_some, Option.some.injEq] at same
      exact (verdicts _ _ _ _).mp same (by rw [lt_max_iff]; grind)
    · intro x inFirst y inSecond z inThird
      obtain rfl := Option.mem_def.mp inFirst
      obtain rfl := Option.mem_def.mp inSecond
      obtain rfl := Option.mem_def.mp inThird
      exact (regroup x rfl y rfl z rfl).mp (Option.some.inj same)
  · rintro ⟨lone, allPresent⟩
    cases first with
    | none =>
        cases second <;> cases third <;> simp only [joinOption_none_left, joinOption_none_right,
          joinOption_some, Option.some.injEq]
        apply (verdicts _ _ _ _).mpr
        intro differ
        have order : secondStamp < thirdStamp ∧ thirdStamp < firstStamp := by
          rw [max_lt_iff] at differ
          grind
        simpa using lone.withoutFirst rfl order.1 order.2
    | some x =>
        cases second with
        | none =>
            cases third <;> simp only [joinOption_none_left, joinOption_none_right,
              joinOption_some, Option.some.injEq]
            apply (verdicts _ _ _ _).mpr
            intro differ
            have order : firstStamp < secondStamp ∧ thirdStamp < secondStamp := by
              rw [max_lt_iff, lt_max_iff] at differ
              grind
            simpa using lone.withoutSecond rfl order.1 order.2
        | some y =>
            cases third with
            | none =>
                simp only [joinOption_none_right, joinOption_some, Option.some.injEq]
                apply (verdicts _ _ _ _).mpr
                intro differ
                have order : secondStamp < firstStamp ∧ firstStamp < thirdStamp := by
                  rw [lt_max_iff] at differ
                  grind
                simpa using lone.withoutThird rfl order.1 order.2
            | some z =>
                simp only [joinOption_some, Option.some.injEq]
                exact (regroup x rfl y rfl z rfl).mpr (allPresent x rfl y rfl z rfl)

end Regroup
end AiMemory.Library
