import Mathlib.Data.List.Basic

/-
This file develops the scopes of paths that are divided by a separator.
-/

namespace AiMemory.Library

universe u
variable {Letter : Type u} [DecidableEq Letter] (separator : Letter)

/-- The prefix of the paths below a scope ends in a separator. -/
def boundary (scope : List Letter) : List Letter :=
  if [separator] <:+ scope then scope else scope ++ [separator]

/-- A path is within its own scope and within every scope that it lies below; the empty scope has all
paths. -/
def Within (scope path : List Letter) : Prop :=
  scope = [] ∨ path = scope ∨ boundary separator scope <+: path

instance (scope path : List Letter) : Decidable (Within separator scope path) :=
  inferInstanceAs (Decidable (_ ∨ _ ∨ _))

variable {separator}

theorem prefix_boundary (scope : List Letter) : scope <+: boundary separator scope := by
  unfold boundary
  split
  · exact List.prefix_refl scope
  · exact List.prefix_append scope _

theorem separator_suffix_boundary (scope : List Letter) : [separator] <:+ boundary separator scope := by
  unfold boundary
  split
  · assumption
  · exact List.suffix_append scope _

/-- A scope below another one has no path outside it. -/
theorem Within.trans {outer inner path : List Letter} (below : Within separator outer inner)
    (within : Within separator inner path) : Within separator outer path := by
  rcases below with everything | rfl | below
  · exact .inl everything
  · exact within
  · rcases within with empty | rfl | within
    · -- The boundary is not empty, so nothing empty lies below it.
      rw [empty, List.prefix_nil] at below
      have ends : [separator] <:+ boundary separator outer := separator_suffix_boundary outer
      rw [below] at ends
      exact absurd (List.suffix_nil.mp ends) (List.cons_ne_nil _ _)
    · exact .inr (.inr below)
    · exact .inr (.inr ((below.trans (prefix_boundary inner)).trans within))

omit [DecidableEq Letter] in
/-- What ends in a separator and starts a marked path starts the path up to the separator. -/
theorem prefix_of_marked {start rest marker : List Letter} (ends : [separator] <:+ start)
    (plain : separator ∉ marker) (starts : start <+: rest ++ separator :: marker) :
    start <+: rest ++ [separator] := by
  have split : rest ++ separator :: marker = (rest ++ [separator]) ++ marker := by simp
  have head : rest ++ [separator] <+: rest ++ separator :: marker := split ▸ List.prefix_append _ _
  rcases List.prefix_or_prefix_of_prefix starts head with short | long
  · exact short
  · obtain ⟨tail, rfl⟩ := long
    rw [split, List.prefix_append_right_inj] at starts
    rcases List.eq_nil_or_concat tail with rfl | ⟨front, last, rfl⟩
    · simp
    · rw [List.concat_eq_append, ← List.append_assoc] at ends
      obtain ⟨before, found⟩ := ends
      have same : separator = last := List.singleton_inj.mp (List.append_inj' found rfl).2
      have marked : last ∈ marker := starts.subset (by simp)
      exact absurd (same ▸ marked) plain

/-- Without its marker a path stays within the scope, unless the scope is the path itself or ends where the
marker starts. -/
theorem Within.of_marked {scope rest marker : List Letter} (plain : separator ∉ marker)
    (within : Within separator scope (rest ++ separator :: marker))
    (other : scope ≠ rest ++ separator :: marker) (inside : scope ≠ rest ++ [separator]) :
    Within separator scope rest := by
  rcases within with everything | same | below
  · exact .inl everything
  · exact absurd same.symm other
  · have starts := prefix_of_marked (separator_suffix_boundary scope) plain below
    rcases List.prefix_concat_iff.mp starts with same | deeper
    · unfold boundary at same
      split at same
      · exact absurd same inside
      · exact .inr (.inl (List.append_cancel_right same).symm)
    · exact .inr (.inr deeper)

end AiMemory.Library
