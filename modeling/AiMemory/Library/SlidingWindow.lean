import AiMemory.Library.Run
import Mathlib.Data.List.DropRight

/-
This file develops a bounded window that drops its oldest item and that a reset empties.
-/

namespace AiMemory.Library

universe u
variable {Item : Type u}

/-- A wanted item of a list is its last one or stands before it. -/
theorem exists_split_concat {items : List Item} {last wanted : Item} {holds : List Item → Prop} :
    (∃ before later, items ++ [last] = before ++ wanted :: later ∧ holds later) ↔
      last = wanted ∧ holds [] ∨
        ∃ before later, items = before ++ wanted :: later ∧ holds (later ++ [last]) := by
  constructor
  · rintro ⟨before, later, split, held⟩
    rcases List.eq_nil_or_concat later with rfl | ⟨rest, final, rfl⟩
    · obtain ⟨_, same⟩ := List.append_inj' split rfl
      exact .inl ⟨List.singleton_inj.mp same, held⟩
    · rw [List.concat_eq_append, ← List.cons_append, ← List.append_assoc] at split
      obtain ⟨front, same⟩ := List.append_inj' split rfl
      rw [List.singleton_inj.mp same]
      rw [List.concat_eq_append] at held
      exact .inr ⟨before, rest, front, held⟩
  · rintro (⟨rfl, held⟩ | ⟨before, later, rfl, held⟩)
    · exact ⟨items, [], rfl, held⟩
    · exact ⟨before, later ++ [last], by simp, held⟩

inductive WindowMark (Item : Type u) where
  | push (item : Item)
  | reset

namespace WindowMark

def isPush : WindowMark Item → Bool
  | push _ => true
  | reset => false

end WindowMark

/-- A full window drops its oldest item for a new one. -/
def slide (capacity : Nat) (window : List Item) : WindowMark Item → List Item
  | .push item => (if window.length ≥ capacity then window.tail else window) ++ [item]
  | .reset => []

def windowAfter (capacity : Nat) (marks : List (WindowMark Item)) : List Item :=
  run (slide capacity) [] marks

variable {capacity : Nat}

/-- The window slides by one mark at a time. -/
theorem windowAfter_concat (marks : List (WindowMark Item)) (mark : WindowMark Item) :
    windowAfter capacity (marks ++ [mark]) = slide capacity (windowAfter capacity marks) mark := by
  rw [windowAfter, run_append, run_cons, run_nil, windowAfter]

/-- The window never exceeds its capacity. -/
theorem length_windowAfter (positive : 0 < capacity) (marks : List (WindowMark Item)) :
    (windowAfter capacity marks).length ≤ capacity := by
  induction marks using List.reverseRecOn with
  | nil => exact Nat.zero_le _
  | append_singleton marks mark ih =>
      rw [windowAfter_concat]
      cases mark with
      | push item =>
          rw [slide, List.length_append, List.length_singleton]
          split_ifs with full
          · rw [List.length_tail]
            omega
          · omega
      | reset => exact Nat.zero_le _

/-- The items that a slide keeps are the newest ones of the window. -/
theorem rtake_slide_push {count : Nat} (fits : count < capacity) (window : List Item) (item : Item) :
    (slide capacity window (.push item)).rtake (count + 1) = window.rtake count ++ [item] := by
  rw [slide, List.rtake_concat_succ]
  split_ifs with full
  · have skipped : window.length - 1 - count + 1 = window.length - count := by omega
    rw [List.rtake, List.length_tail, List.drop_tail, skipped, List.rtake]
  · rfl

/-- An item stands among the newest ones exactly when it was pushed with few pushes and no reset since. -/
theorem mem_rtake_windowAfter {count : Nat} (fits : count ≤ capacity) (marks : List (WindowMark Item))
    (item : Item) : item ∈ (windowAfter capacity marks).rtake count ↔
      ∃ before later, marks = before ++ .push item :: later ∧
      later.countP WindowMark.isPush < count ∧ .reset ∉ later := by
  induction marks using List.reverseRecOn generalizing count with
  | nil => simp [windowAfter, List.rtake]
  | append_singleton marks mark ih =>
      rw [windowAfter_concat, exists_split_concat]
      cases mark with
      | push last =>
          cases count with
          | zero => simp
          | succ count =>
              rw [rtake_slide_push fits, List.mem_append, ih (Nat.le_of_succ_le fits), List.mem_singleton, or_comm]
              simp [List.countP_append, WindowMark.isPush, eq_comm]
      | reset => simp [slide, List.rtake]

/-- The window holds an item exactly when it was pushed with fewer pushes than fit and no reset since. -/
theorem mem_windowAfter_iff (positive : 0 < capacity) (marks : List (WindowMark Item)) (item : Item) :
    item ∈ windowAfter capacity marks ↔ ∃ before later, marks = before ++ .push item :: later ∧
      later.countP WindowMark.isPush < capacity ∧ .reset ∉ later := by
  rw [← mem_rtake_windowAfter le_rfl, List.rtake,
    Nat.sub_eq_zero_of_le (length_windowAfter positive marks), List.drop_zero]

end AiMemory.Library
