import Mathlib.Data.List.Induction
import Mathlib.Data.List.Perm.Basic
import Mathlib.Order.MinMax

/-
This file decides which values a fold takes over the orders of its list.
-/

namespace AiMemory.Library
open List

universe u v w

section Reaches

variable {Start : Type u} {Item : Type v} {Value : Type w}

variable [DecidableEq Item]

end Reaches

section Given

variable {Item : Type v} {Value : Type w} (give : Item → Option Value)

/-- The register holds one of the given values, or its start when none is given. -/
def Given (start : Option Value) (items : List Item) (value : Option Value) : Prop :=
  (∃ item ∈ items, (give item).isSome ∧ give item = value) ∨ (∀ item ∈ items, give item = none) ∧ value = start

theorem Given.perm {start : Option Value} {items order : List Item} {value : Option Value}
    (permuted : order ~ items) (given : Given give start order value) : Given give start items value := by
  rcases given with ⟨item, present, held⟩ | ⟨none, same⟩
  · exact .inl ⟨item, permuted.mem_iff.mp present, held⟩
  · exact .inr ⟨fun item present => none item (permuted.mem_iff.mpr present), same⟩

end Given

section Sticky

variable {Item : Type v} {Value : Type w} (sticky : Value → Bool) (read : Item → Value)

/-- The register holds its sticky start, or a sticky item, or any item when no item is sticky. -/
def Settles (start : Value) (items : List Item) (value : Value) : Prop :=
  (sticky start ∨ items = []) ∧ value = start ∨
    sticky start = false ∧ ∃ item ∈ items, read item = value ∧
      (sticky value ∨ ∀ other ∈ items, sticky (read other) = false)

theorem Settles.perm {start value : Value} {items order : List Item} (permuted : order ~ items)
    (settles : Settles sticky read start order value) : Settles sticky read start items value := by
  rcases settles with ⟨first, same⟩ | ⟨free, item, present, same, verdict⟩
  · exact .inl ⟨first.imp_right fun empty => (empty ▸ permuted).nil_eq.symm, same⟩
  · exact .inr ⟨free, item, permuted.mem_iff.mp present, same,
      verdict.imp_right fun none other among => none other (permuted.mem_iff.mpr among)⟩

end Sticky

section Writer

variable {Item : Type v} {Time : Type w} [LinearOrder Time] (time : Item → Time) (ahead : Item → Item → Bool)

/-- A later item takes the register; among equal times an item takes it that is ahead of the start. -/
def Takes (start held item : Item) : Prop := time held < time item ∨ time item = time held ∧ ahead start item

instance (start held item : Item) : Decidable (Takes time ahead start held item) :=
  inferInstanceAs (Decidable (_ ∨ _))

/-- No item is later. -/
def Latest (items : List Item) (item : Item) : Prop := ∀ other ∈ items, time other ≤ time item

/-- A steady item takes the register whenever it comes. -/
def Steady (start : Item) (items : List Item) (item : Item) : Prop :=
  item ∈ items ∧ Latest time (start :: items) item ∧ ahead start item

/-- The last writer is a steady item; without one it is any latest item, or the start if none is later. -/
def Writes (start : Item) (items : List Item) (item : Item) : Prop :=
  Steady time ahead start items item ∨
    (∀ other, ¬ Steady time ahead start items other) ∧ Latest time (start :: items) item ∧
      (item = start ∨ item ∈ items ∧ time start < time item)

variable {time ahead} {start item : Item} {items : List Item}

/-- The writing item is one of the latest. -/
theorem Writes.latest (writes : Writes time ahead start items item) : Latest time (start :: items) item := by
  rcases writes with ⟨_, latest, _⟩ | ⟨_, latest, _⟩ <;> exact latest

theorem Writes.mem (writes : Writes time ahead start items item) : item ∈ start :: items := by
  rcases writes with ⟨present, _⟩ | ⟨_, _, rfl | ⟨present, _⟩⟩
  · exact mem_cons_of_mem _ present
  · exact mem_cons_self
  · exact mem_cons_of_mem _ present

/-- The latest item stays the latest when the next one is not later. -/
theorem latest_append {last : Item} :
    Latest time (start :: (items ++ [last])) item ↔
      Latest time (start :: items) item ∧ time last ≤ time item := by
  unfold Latest
  rw [← cons_append, forall_mem_append, forall_mem_singleton]

/-- A steady item of a longer list is its last item or was steady before. -/
theorem Steady.of_append {last : Item} (steady : Steady time ahead start (items ++ [last]) item) :
    item = last ∨ Steady time ahead start items item := by
  obtain ⟨present, latest, isAhead⟩ := steady
  rcases mem_append.mp present with earlier | isLast
  · exact .inr ⟨earlier, (latest_append.mp latest).1, isAhead⟩
  · exact .inl (mem_singleton.mp isLast)

/-- A steady item takes the register from every earlier item. -/
theorem Steady.takes {held : Item} (steady : Steady time ahead start items item) (among : held ∈ start :: items) :
    Takes time ahead start held item := by
  rcases (steady.2.1 held among).lt_or_eq with earlier | same
  · exact .inl earlier
  · exact .inr ⟨same.symm, steady.2.2⟩

/-- The next item writes if it takes the register, and leaves the last writer otherwise. -/
theorem Writes.append {last : Item} (writes : Writes time ahead start items item) :
    Writes time ahead start (items ++ [last]) (if Takes time ahead start item last then last else item) := by
  have among : last ∈ items ++ [last] := mem_append_right _ (mem_singleton_self last)
  have latest := writes.latest
  split_ifs with taken
  · have least : time item ≤ time last := taken.elim le_of_lt fun tie => tie.1.ge
    have isLatest : Latest time (start :: (items ++ [last])) last :=
      latest_append.mpr ⟨fun other present => (latest other present).trans least, le_refl _⟩
    by_cases isAhead : ahead start last
    · exact .inl ⟨among, isLatest, isAhead⟩
    · have later : time item < time last := taken.resolve_right fun tie => isAhead tie.2
      refine .inr ⟨fun other steady => ?_, isLatest,
        .inr ⟨among, (latest start mem_cons_self).trans_lt later⟩⟩
      rcases steady.of_append with rfl | before
      · exact isAhead steady.2.2
      · have bound := (latest_append.mp steady.2.1).2
        exact absurd (later.trans_le bound) (latest other (mem_cons_of_mem _ before.1)).not_gt
  · have bound : time last ≤ time item := not_lt.mp fun later => taken (.inl later)
    have isLatest := latest_append.mpr ⟨latest, bound⟩
    rcases writes with steady | ⟨none, _, origin⟩
    · exact .inl ⟨mem_append_left _ steady.1, isLatest, steady.2.2⟩
    · refine .inr ⟨fun other steady => ?_, isLatest, origin.imp_right fun held => ⟨mem_append_left _ held.1, held.2⟩⟩
      rcases steady.of_append with rfl | before
      · have same := le_antisymm bound ((latest_append.mp steady.2.1).1 item ?_)
        · exact taken (.inr ⟨same, steady.2.2⟩)
        · exact origin.elim (fun isStart => isStart ▸ mem_cons_self) fun held => mem_cons_of_mem _ held.1
      · exact none other before

theorem Latest.perm {order : List Item} (permuted : order ~ items) (latest : Latest time order item) :
    Latest time items item := fun other present => latest other (permuted.mem_iff.mpr present)

theorem Steady.perm {order : List Item} (permuted : order ~ items)
    (steady : Steady time ahead start order item) : Steady time ahead start items item :=
  ⟨permuted.mem_iff.mp steady.1, steady.2.1.perm (permuted.cons start), steady.2.2⟩

theorem Writes.perm {order : List Item} (permuted : order ~ items)
    (writes : Writes time ahead start order item) : Writes time ahead start items item := by
  rcases writes with steady | ⟨none, latest, origin⟩
  · exact .inl (steady.perm permuted)
  · exact .inr ⟨fun other steady => none other (steady.perm permuted.symm), latest.perm (permuted.cons start),
      origin.imp_right fun held => ⟨permuted.mem_iff.mp held.1, held.2⟩⟩

end Writer

section Carried

variable {Item : Type v} {Time : Type w} [LinearOrder Time] (time : Item → Time) (ahead : Item → Item → Bool)
  {Value : Type u} (value : Item → Option Value)

/-- A writer that comes fills the entry when it is still empty. -/
def carryStep (start : Item) (state : Item × Option Value) (item : Item) : Item × Option Value :=
  if Takes time ahead start state.1 item then (item, state.2.or (value item)) else state

/-- The entry after the items, with their last writer. -/
def carried (start : Item) (items : List Item) : Item × Option Value :=
  items.foldl (carryStep time ahead value start) (start, value start)

/-- The entry holds the value of the start or of an item that can write, and it stays empty only if a possible last
writer and all steady items leave it empty. -/
def Carries (start : Item) (items : List Item) (entry : Option Value) : Prop :=
  (value start).isSome ∧ entry = value start ∨
    value start = none ∧
      ((∃ item ∈ items, Takes time ahead start start item ∧ (value item).isSome ∧ value item = entry) ∨
        entry = none ∧ ∃ item, Writes time ahead start items item ∧ value item = none ∧
          ∀ other, Steady time ahead start items other → value other = none)

variable {time ahead value} {start item : Item} {items : List Item}

theorem Carries.perm {order : List Item} {entry : Option Value} (permuted : order ~ items)
    (carries : Carries time ahead value start order entry) : Carries time ahead value start items entry := by
  rcases carries with held | ⟨empty, ⟨item, present, source⟩ | ⟨unfilled, item, writes, own, none⟩⟩
  · exact .inl held
  · exact .inr ⟨empty, .inl ⟨item, permuted.mem_iff.mp present, source⟩⟩
  · exact .inr ⟨empty, .inr ⟨unfilled, item, writes.perm permuted, own, fun other steady =>
      none other (steady.perm permuted.symm)⟩⟩

/-- When a steady item is among items that bring one value, the entry is that value. -/
theorem Steady.shared {entry shared : Option Value} (steady : Steady time ahead start items item)
    (empty : value start = none) (same : ∀ item ∈ items, value item = shared)
    (carries : Carries time ahead value start items entry) : entry = shared := by
  rcases carries with ⟨filled, _⟩ | ⟨_, ⟨other, present, _, _, own⟩ | ⟨unfilled, _, _, _, none⟩⟩
  · rw [empty] at filled
    cases filled
  · exact own.symm.trans (same other present)
  · exact unfilled.trans ((none item steady).symm.trans (same item steady.1))

end Carried
end AiMemory.Library
