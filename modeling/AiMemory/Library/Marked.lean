import Mathlib.Data.List.Sort

/-
This file shows that the marks of a ranked list determine the list.
-/

namespace AiMemory.Library

universe u v
variable {Row : Type u} {Mark : Type v}

/-- A relation through a rank into the numbers is irreflexive and antisymmetric. -/
def Before (rank : Row → Nat) (first second : Row) : Prop := rank first < rank second

instance (rank : Row → Nat) : Std.Irrefl (Before rank) := ⟨fun row => Nat.lt_irrefl (rank row)⟩

instance (rank : Row → Nat) : Std.Antisymm (Before rank) :=
  ⟨fun _ _ before after => absurd before (Nat.lt_asymm after)⟩

/-- Two lists with ascending ranks and the same marks are equal when the marks tell their rows apart. -/
theorem eq_of_marks {rank : Row → Nat} {mark : Row → Mark} {first second : List Row}
    (firstRanked : first.Pairwise (Before rank)) (secondRanked : second.Pairwise (Before rank))
    (sameMarks : (first.map mark).Perm (second.map mark))
    (distinct : ∀ row ∈ first, ∀ other ∈ second, mark row = mark other → row = other) :
    first = second := by
  refine firstRanked.eq_of_mem_iff secondRanked fun row => ⟨fun present => ?_, fun present => ?_⟩
  · obtain ⟨other, held, same⟩ := List.mem_map.mp (sameMarks.mem_iff.mp (List.mem_map_of_mem present))
    rwa [distinct row present other held same.symm]
  · obtain ⟨other, held, same⟩ := List.mem_map.mp (sameMarks.mem_iff.mpr (List.mem_map_of_mem present))
    rwa [← distinct other held row present same]

/-- Lists with the same marks keep the same marks under filters that the marks carry over. -/
theorem map_filter_congr {mark : Row → Mark} {keepFirst keepSecond : Row → Bool} {first second : List Row}
    (sameMarks : first.map mark = second.map mark)
    (agree : ∀ row ∈ first, ∀ other ∈ second, mark row = mark other → keepFirst row = keepSecond other) :
    (first.filter keepFirst).map mark = (second.filter keepSecond).map mark := by
  induction first generalizing second with
  | nil => rw [List.map_eq_nil_iff.mp sameMarks.symm, List.filter_nil, List.filter_nil]
  | cons row rest ih =>
      obtain ⟨other, others, rfl⟩ := List.exists_cons_of_ne_nil
        (fun empty => List.cons_ne_nil _ _ (sameMarks.trans (congrArg (List.map mark) empty)) : second ≠ [])
      obtain ⟨same, sameRest⟩ := List.cons.inj sameMarks
      have kept := agree row List.mem_cons_self other List.mem_cons_self same
      have later := ih sameRest fun row present other held =>
        agree row (List.mem_cons_of_mem _ present) other (List.mem_cons_of_mem _ held)
      rw [List.filter_cons, List.filter_cons, kept]
      split
      · rw [List.map_cons, List.map_cons, same, later]
      · exact later

end AiMemory.Library
