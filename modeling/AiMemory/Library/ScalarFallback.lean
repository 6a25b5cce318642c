import AiMemory.Library.Register

/-
This file develops merges that fall back to the winning side unless both sides are structured.
-/

namespace AiMemory.Library

universe u v
variable {Value : Type u} {Stamp : Type v}

/-- A merge of mixed values normalises the winner and joins structured values only. -/
structure ScalarFallback (valid : Value → Prop) (structured : Value → Bool)
    (normal : Value → Value) (covers : Value → Value → Prop)
    (merge : Bool → Value → Value → Value) : Prop where
  valid_merge : ∀ {left right}, valid left → valid right →
    ∀ rightWins, valid (merge rightWins left right)
  /-- A pair with a scalar leaves its normalised winner. -/
  fallback : ∀ {left right}, valid left → valid right →
    (structured left && structured right) = false →
    ∀ rightWins, merge rightWins left right = normal (pick rightWins left right)
  normal_left : ∀ {left right}, valid left → valid right →
    ∀ rightWins, merge rightWins (normal left) right = merge rightWins left right
  normal_right : ∀ {left right}, valid left → valid right →
    ∀ rightWins, merge rightWins left (normal right) = merge rightWins left right
  normal_merge : ∀ {left right}, valid left → valid right →
    ∀ rightWins, normal (merge rightWins left right) = merge rightWins left right
  left_covers : ∀ {left right}, valid left → valid right → structured left → structured right →
    (merge false left right = normal left ↔ covers left right)
  right_covers : ∀ {left right}, valid left → valid right → structured left → structured right →
    (merge true left right = normal right ↔ covers right left)

namespace ScalarFallback

variable [LinearOrder Stamp] {valid : Value → Prop} {structured : Value → Bool}
  {normal : Value → Value} {covers : Value → Value → Prop} {merge : Bool → Value → Value → Value}
  (fallsBack : ScalarFallback valid structured normal covers merge)
  {firstStamp secondStamp thirdStamp : Stamp} (firstSecond : firstStamp ≠ secondStamp)
  (secondThird : secondStamp ≠ thirdStamp) (firstThird : firstStamp ≠ thirdStamp)
  {first second third : Value} (firstValid : valid first) (secondValid : valid second)
  (thirdValid : valid third)
include fallsBack

/-- A winner on the right keeps its normal form exactly when it covers what is structured on the
left. -/
theorem winner_right_iff {left right : Value} (leftValid : valid left) (rightValid : valid right) :
    merge true left right = normal right ↔
      (structured left → structured right → covers right left) := by
  cases both : structured left && structured right with
  | true =>
      rw [Bool.and_eq_true] at both
      rw [fallsBack.right_covers leftValid rightValid both.1 both.2]
      exact ⟨fun covered _ _ => covered, fun covered => covered both.1 both.2⟩
  | false =>
      rw [fallsBack.fallback leftValid rightValid both, pick_true]
      exact ⟨fun _ onLeft onRight => by simp [onLeft, onRight] at both, fun _ => rfl⟩

theorem winner_left_iff {left right : Value} (leftValid : valid left) (rightValid : valid right) :
    merge false left right = normal left ↔
      (structured left → structured right → covers left right) := by
  cases both : structured left && structured right with
  | true =>
      rw [Bool.and_eq_true] at both
      rw [fallsBack.left_covers leftValid rightValid both.1 both.2]
      exact ⟨fun covered _ _ => covered, fun covered => covered both.1 both.2⟩
  | false =>
      rw [fallsBack.fallback leftValid rightValid both, pick_false]
      exact ⟨fun _ onLeft onRight => by simp [onLeft, onRight] at both, fun _ => rfl⟩

include firstValid secondValid thirdValid

include firstSecond firstThird in
/-- A scalar in front shows only between an older second and a newer third value. -/
theorem meets_first_scalar (scalar : structured first = false) :
    Meets merge firstStamp secondStamp thirdStamp first second third ↔
      (structured second → structured third → secondStamp < firstStamp → firstStamp < thirdStamp →
        covers third second) := by
  have later := fallsBack.valid_merge secondValid thirdValid
  have inner := fallsBack.fallback firstValid secondValid (by simp [scalar])
  have across := fallsBack.fallback firstValid thirdValid (by simp [scalar])
  have outer := fun rightWins => fallsBack.fallback firstValid (later rightWins) (by simp [scalar])
  unfold Meets
  rw [inner, outer]
  rcases lt_or_gt_of_ne firstSecond with less | more
  · have newer : firstStamp < max secondStamp thirdStamp := lt_max_of_lt_left less
    simp only [less, less.not_gt, max_eq_right less.le, newer, decide_true, pick_true,
      fallsBack.normal_left secondValid thirdValid, fallsBack.normal_merge secondValid thirdValid]
    simp
  · rcases lt_or_gt_of_ne firstThird with before | after
    · have newer : firstStamp < max secondStamp thirdStamp := lt_max_of_lt_right before
      simp only [more, more.not_gt, max_eq_left more.le, before, newer, more.trans before,
        decide_true, decide_false, pick_true, pick_false, forall_true_left,
        fallsBack.normal_left firstValid thirdValid, fallsBack.normal_merge secondValid thirdValid,
        across]
      rw [eq_comm]
      exact fallsBack.winner_right_iff secondValid thirdValid
    · have older : ¬ firstStamp < max secondStamp thirdStamp :=
        not_lt.mpr (max_le more.le after.le)
      simp only [more, more.not_gt, max_eq_left more.le, after.not_gt, older, decide_false,
        pick_false, fallsBack.normal_left firstValid thirdValid, across]
      simp

include secondThird firstThird in
/-- A scalar at the end shows only between an older second and a newer first value. -/
theorem meets_third_scalar (scalar : structured third = false) :
    Meets merge firstStamp secondStamp thirdStamp first second third ↔
      (structured first → structured second → secondStamp < thirdStamp → thirdStamp < firstStamp →
        covers first second) := by
  have earlier := fallsBack.valid_merge firstValid secondValid
  have inner := fallsBack.fallback secondValid thirdValid (by simp [scalar])
  have across := fallsBack.fallback firstValid thirdValid (by simp [scalar])
  have outer := fun rightWins => fallsBack.fallback (earlier rightWins) thirdValid (by simp [scalar])
  unfold Meets
  rw [inner, outer]
  rcases lt_or_gt_of_ne secondThird with less | more
  · rcases lt_or_gt_of_ne firstThird with before | after
    · have newest : max firstStamp secondStamp < thirdStamp := max_lt before less
      simp only [less, newest, max_eq_right less.le, before, before.not_gt, decide_true, pick_true,
        fallsBack.normal_right firstValid thirdValid, across]
      simp
    · have newest : ¬ max firstStamp secondStamp < thirdStamp := fun below =>
        after.not_gt ((le_max_left _ _).trans_lt below)
      simp only [less, newest, max_eq_right less.le, after, after.not_gt, (less.trans after).not_gt,
        decide_true, decide_false, pick_true, pick_false, forall_true_left,
        fallsBack.normal_right firstValid thirdValid, fallsBack.normal_merge firstValid secondValid,
        across]
      exact fallsBack.winner_left_iff firstValid secondValid
  · have newest : ¬ max firstStamp secondStamp < thirdStamp := fun below =>
      more.not_gt ((le_max_right _ _).trans_lt below)
    simp only [more.not_gt, newest, max_eq_left more.le, decide_false, pick_false,
      fallsBack.normal_right firstValid secondValid, fallsBack.normal_merge firstValid secondValid]
    simp

include firstSecond secondThird in
/-- A scalar in the middle shows only between two values on either side of its time. -/
theorem meets_second_scalar (scalar : structured second = false) :
    Meets merge firstStamp secondStamp thirdStamp first second third ↔
      (structured first → structured third →
        (firstStamp < secondStamp → secondStamp < thirdStamp → covers third first) ∧
        (thirdStamp < secondStamp → secondStamp < firstStamp → covers first third)) := by
  have front := fallsBack.fallback firstValid secondValid (by simp [scalar])
  have back := fallsBack.fallback secondValid thirdValid (by simp [scalar])
  unfold Meets
  rw [front, back]
  rcases lt_or_gt_of_ne firstSecond with less | more
  · rcases lt_or_gt_of_ne secondThird with before | after
    · have newer : firstStamp < max secondStamp thirdStamp := lt_max_of_lt_left less
      simp only [less, less.not_gt, before, before.not_gt, max_eq_right less.le, newer, decide_true,
        pick_true, forall_true_left, fallsBack.normal_left secondValid thirdValid,
        fallsBack.normal_right firstValid thirdValid, back, false_imp_iff, and_true]
      rw [eq_comm]
      exact fallsBack.winner_right_iff firstValid thirdValid
    · have newer : firstStamp < max secondStamp thirdStamp := lt_max_of_lt_left less
      simp only [less, less.not_gt, after, after.not_gt, max_eq_right less.le, newer, decide_true,
        decide_false, pick_true, pick_false, fallsBack.normal_left secondValid thirdValid,
        fallsBack.normal_right firstValid secondValid, front, back]
      simp
  · rcases lt_or_gt_of_ne secondThird with before | after
    · simp only [more, more.not_gt, before, before.not_gt, max_eq_left more.le, max_eq_right before.le,
        decide_true, decide_false, pick_true, pick_false, fallsBack.normal_left firstValid thirdValid,
        fallsBack.normal_right firstValid thirdValid]
      simp
    · have oldest := after.trans more
      simp only [more, more.not_gt, after, after.not_gt, max_eq_left more.le, max_eq_left after.le,
        oldest.not_gt, decide_false, pick_false, forall_true_left,
        fallsBack.normal_left firstValid thirdValid, fallsBack.normal_right firstValid secondValid,
        front, false_imp_iff, true_and]
      exact fallsBack.winner_left_iff firstValid thirdValid

include firstSecond secondThird firstThird in
/-- Three values with a scalar meet exactly when the lone scalar stays invisible. -/
theorem meets_scalar_iff
    (scalar : (structured first && structured second && structured third) = false) :
    Meets merge firstStamp secondStamp thirdStamp first second third ↔
      (structured first = false → structured second → structured third →
        secondStamp < firstStamp → firstStamp < thirdStamp → covers third second) ∧
      (structured second = false → structured first → structured third →
        (firstStamp < secondStamp → secondStamp < thirdStamp → covers third first) ∧
        (thirdStamp < secondStamp → secondStamp < firstStamp → covers first third)) ∧
      (structured third = false → structured first → structured second →
        secondStamp < thirdStamp → thirdStamp < firstStamp → covers first second) := by
  cases onFirst : structured first with
  | false =>
      rw [fallsBack.meets_first_scalar firstSecond firstThird firstValid secondValid thirdValid onFirst]
      simp
  | true =>
      cases onSecond : structured second with
      | false =>
          rw [fallsBack.meets_second_scalar firstSecond secondThird firstValid secondValid
            thirdValid onSecond, onFirst]
          simp
      | true =>
          have onThird : structured third = false := by simpa [onFirst, onSecond] using scalar
          rw [fallsBack.meets_third_scalar secondThird firstThird firstValid secondValid thirdValid
            onThird, onFirst, onSecond]
          simp [onThird]

end ScalarFallback
end AiMemory.Library
