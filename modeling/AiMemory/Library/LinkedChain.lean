import Mathlib.Data.List.Basic

/-
This file develops lists in which each row names the link that its predecessor hands on.
-/

namespace AiMemory.Library

universe u v
variable {Row : Type u} {Link : Type v} (prior next : Row → Link)

/-- The first row names the given link, and each later row names the link of the row before it. -/
def Linked : Link → List Row → Prop
  | _, [] => True
  | link, row :: rest => prior row = link ∧ Linked (next row) rest

/-- The tip is the link that the chain hands on. -/
def tip : Link → List Row → Link
  | link, [] => link
  | _, row :: rest => tip (next row) rest

variable {prior next}

/-- A list is linked when both parts are, the second from the tip of the first. -/
theorem linked_append (link : Link) (first second : List Row) :
    Linked prior next link (first ++ second) ↔
      Linked prior next link first ∧ Linked prior next (tip next link first) second := by
  induction first generalizing link with
  | nil => simp [Linked, tip]
  | cons row rest ih => simp [Linked, tip, ih, and_assoc]

/-- The tip of a list is the tip of its last part. -/
theorem tip_append (link : Link) (first second : List Row) :
    tip next link (first ++ second) = tip next (tip next link first) second := by
  induction first generalizing link with
  | nil => rfl
  | cons row rest ih => exact ih _

/-- A chain extends by exactly the rows that name its tip. -/
theorem linked_concat (link : Link) (rows : List Row) (row : Row) :
    Linked prior next link (rows ++ [row]) ↔
      Linked prior next link rows ∧ prior row = tip next link rows := by
  simp [linked_append, Linked]

@[simp] theorem tip_concat (link : Link) (rows : List Row) (row : Row) :
    tip next link (rows ++ [row]) = next row := by
  induction rows generalizing link with
  | nil => rfl
  | cons first rest ih => exact ih _

/-- Each row names the first link or the link of another row. -/
theorem exists_next_of_linked {link : Link} {rows : List Row} (linked : Linked prior next link rows)
    {row : Row} (present : row ∈ rows) : prior row = link ∨ ∃ earlier ∈ rows, next earlier = prior row := by
  induction rows generalizing link with
  | nil => cases present
  | cons first rest ih =>
      obtain ⟨named, linked⟩ := linked
      rcases List.mem_cons.mp present with rfl | later
      · exact .inl named
      · refine .inr ?_
        rcases ih linked later with next | ⟨earlier, before, next⟩
        · exact ⟨first, List.mem_cons_self, next.symm⟩
        · exact ⟨earlier, List.mem_cons_of_mem _ before, next⟩

/-- An image with the same links is linked alike. -/
theorem linked_map {image : Row → Row} {rows : List Row}
    (same : ∀ row ∈ rows, prior (image row) = prior row ∧ next (image row) = next row) (link : Link) :
    (Linked prior next link (rows.map image) ↔ Linked prior next link rows) ∧
      tip next link (rows.map image) = tip next link rows := by
  induction rows generalizing link with
  | nil => exact ⟨Iff.rfl, rfl⟩
  | cons row rest ih =>
      obtain ⟨⟨priors, nexts⟩, later⟩ := List.forall_mem_cons.mp same
      obtain ⟨linked, tips⟩ := ih later (next row)
      simp only [List.map_cons, Linked, tip, priors, nexts, linked, tips, and_self]

/-- A chain of copies of the rows of another chain copies a contiguous run of it. -/
theorem infix_of_copies {Copies : Row → Row → Prop} {origin link : Link} {rows copies : List Row}
    (linked : Linked prior next origin rows) (copiesLinked : Linked prior next link copies)
    (copied : ∀ copy ∈ copies, ∃ row ∈ rows, Copies copy row)
    (priors : ∀ copy row, Copies copy row → prior copy = prior row)
    (told : ∀ copy ∈ copies, ∀ row ∈ rows, next copy = next row → Copies copy row)
    (unlinked : ∀ copy ∈ copies, next copy ≠ origin) :
    ∃ contiguous, contiguous <:+: rows ∧ List.Forall₂ Copies copies contiguous := by
  induction copies generalizing link with
  | nil => exact ⟨[], List.nil_infix, .nil⟩
  | cons copy rest ih =>
      obtain ⟨toldHere, restTold⟩ := List.forall_mem_cons.mp told
      obtain ⟨unlinkedHere, restUnlinked⟩ := List.forall_mem_cons.mp unlinked
      obtain ⟨⟨row, present, same⟩, restCopied⟩ := List.forall_mem_cons.mp copied
      obtain ⟨contiguous, part, aligned⟩ := ih copiesLinked.2 restCopied restTold restUnlinked
      cases aligned with
      | nil =>
          obtain ⟨before, after, split⟩ := List.append_of_mem present
          exact ⟨[row], ⟨before, after, by simp [split]⟩, .cons same .nil⟩
      | cons sameSecond sameRest =>
          rename_i second secondRow rest rowsRest
          obtain ⟨before, after, split⟩ := part
          have named : prior secondRow = next copy := (priors _ _ sameSecond).symm.trans copiesLinked.2.1
          rw [← split, List.append_assoc, List.cons_append] at linked
          have tipped : prior secondRow = tip next origin before := ((linked_append _ _ _).mp linked).2.1
          -- The row before the run is the one that the first copy repeats.
          rcases List.eq_nil_or_concat before with rfl | ⟨earlier, last, rfl⟩
          · exact absurd (named.symm.trans tipped) unlinkedHere
          · rw [List.concat_eq_append, tip_concat] at tipped
            rw [List.concat_eq_append] at split
            have held : last ∈ rows := by
              rw [← split]
              simp
            refine ⟨last :: secondRow :: rowsRest, ⟨earlier, after, ?_⟩,
              .cons (toldHere last held (named.symm.trans tipped)) (.cons sameSecond sameRest)⟩
            rw [← split]
            simp

/-- A row with the same links replaces another one unseen. -/
theorem linked_replace {link : Link} {before after : List Row} {row changed : Row}
    (samePrior : prior changed = prior row) (sameNext : next changed = next row) :
    Linked prior next link (before ++ changed :: after) ↔
      Linked prior next link (before ++ row :: after) := by
  simp [linked_append, Linked, samePrior, sameNext]

end AiMemory.Library
