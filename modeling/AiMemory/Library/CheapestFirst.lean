import AiMemory.Library.SortOn
import Mathlib.Algebra.BigOperators.Group.List.Basic
import Mathlib.Algebra.Order.Ring.Int

/-
This file develops a store that gives up its cheapest items until the rest of them fits a bound.
-/

namespace AiMemory.Library

universe u v
variable {Item : Type u}

section Order

variable {Key : Type v} [LinearOrder Key] (key : Item → Key)

/-- The pass holds the first of the least items that it has seen. -/
def keepCheaper (held : Option Item) (item : Item) : Option Item :=
  match held with
  | none => some item
  | some best => if key item < key best then some item else some best

def cheapest (items : List Item) : Option Item := items.foldl (keepCheaper key) none

/-- Items of one key keep their order. -/
def cheapestFirst (items : List Item) : List Item :=
  items.insertionSort fun first second => key first ≤ key second

theorem cheapestFirst_perm (items : List Item) : (cheapestFirst key items).Perm items :=
  List.perm_insertionSort _ items

theorem cheapestFirst_sorted (items : List Item) :
    (cheapestFirst key items).Pairwise fun first second => key first ≤ key second :=
  insertionSort_sorted key items

/-- An item goes before a sorted list or its head stays. -/
theorem head?_orderedInsert (item : Item) (sorted : List Item) :
    (sorted.orderedInsert (fun first second => key first ≤ key second) item).head? =
      keepCheaper key (some item) (sorted.head?.getD item) := by
  cases sorted with
  | nil => simp [keepCheaper]
  | cons first rest =>
      by_cases before : key item ≤ key first
      · simp [keepCheaper, before, not_lt.mpr before]
      · simp [keepCheaper, before, not_le.mp before]

/-- The cheaper of two items meets the head of the rest as the two do one after the other. -/
theorem keepCheaper_head (best item : Item) (head : Option Item) :
    keepCheaper key (some best) ((keepCheaper key (some item) (head.getD item)).getD best) =
      (keepCheaper key (some best) item).bind fun held => keepCheaper key (some held) (head.getD held) := by
  cases head with
  | none =>
      by_cases cheaper : key item < key best <;> simp [keepCheaper, cheaper]
  | some first =>
      by_cases cheaper : key item < key best <;> by_cases least : key first < key item
      · simp [keepCheaper, cheaper, least, least.trans cheaper]
      · simp [keepCheaper, cheaper, least]
      · simp [keepCheaper, cheaper, least]
      · have stays : ¬ key first < key best := not_lt.mpr ((not_lt.mp cheaper).trans (not_lt.mp least))
        simp [keepCheaper, cheaper, least, stays]

/-- The pass from a held item finds the head of the sorted list that begins with it. -/
theorem foldl_keepCheaper (best : Item) (items : List Item) :
    items.foldl (keepCheaper key) (some best) = (cheapestFirst key (best :: items)).head? := by
  induction items generalizing best with
  | nil => rfl
  | cons item rest ih =>
      have tail := fun first => head?_orderedInsert key first (cheapestFirst key rest)
      have whole := head?_orderedInsert key best (cheapestFirst key (item :: rest))
      simp only [cheapestFirst, List.insertionSort_cons] at ih tail whole ⊢
      have meets := keepCheaper_head key best item (cheapestFirst key rest).head?
      rw [cheapestFirst] at meets
      rw [List.foldl_cons, whole, tail item, meets]
      by_cases cheaper : key item < key best
      · rw [keepCheaper, if_pos cheaper, ih, tail item]
        rfl
      · rw [keepCheaper, if_neg cheaper, ih, tail best]
        rfl

/-- The pass finds the item that the order puts first. -/
theorem cheapest_eq_head (items : List Item) : cheapest key items = (cheapestFirst key items).head? := by
  cases items with
  | nil => rfl
  | cons item rest => exact foldl_keepCheaper key item rest

/-- An item that is below all others goes to the front. -/
theorem orderedInsert_of_below {item : Item} {sorted : List Item}
    (below : ∀ other ∈ sorted, key item ≤ key other) :
    sorted.orderedInsert (fun first second => key first ≤ key second) item = item :: sorted := by
  cases sorted with
  | nil => rfl
  | cons first rest => rw [List.orderedInsert_cons, if_pos (below first List.mem_cons_self)]

/-- A filter commutes with an insertion into a sorted list. -/
theorem filter_orderedInsert (keep : Item → Bool) (item : Item) {sorted : List Item}
    (ordered : sorted.Pairwise fun first second => key first ≤ key second) :
    (sorted.orderedInsert (fun first second => key first ≤ key second) item).filter keep =
      if keep item then
        (sorted.filter keep).orderedInsert (fun first second => key first ≤ key second) item
      else sorted.filter keep := by
  induction sorted with
  | nil => by_cases kept : keep item <;> simp [kept]
  | cons first rest ih =>
      obtain ⟨least, later⟩ := List.pairwise_cons.mp ordered
      by_cases before : key item ≤ key first
      · -- Everything that the filter leaves of a sorted list stays above the item.
        have above : ∀ other ∈ (first :: rest).filter keep, key item ≤ key other := by
          intro other present
          rcases List.mem_cons.mp (List.mem_filter.mp present).1 with rfl | inside
          · exact before
          · exact before.trans (least other inside)
        rw [orderedInsert_of_below key above, List.orderedInsert_cons, if_pos before, List.filter_cons]
      · rw [List.orderedInsert_cons, if_neg before, List.filter_cons, List.filter_cons, ih later]
        by_cases kept : keep item <;> by_cases held : keep first <;> simp [kept, held, before]

/-- The order of what a filter keeps is the filtered order. -/
theorem cheapestFirst_filter (keep : Item → Bool) (items : List Item) :
    cheapestFirst key (items.filter keep) = (cheapestFirst key items).filter keep := by
  induction items with
  | nil => rfl
  | cons item rest ih =>
      have filtered := filter_orderedInsert key keep item (cheapestFirst_sorted key rest)
      simp only [cheapestFirst] at ih filtered ⊢
      rw [List.insertionSort_cons, filtered, ← ih]
      by_cases kept : keep item <;> simp [kept]

/-- The rest of the order is the order of the rest. -/
theorem cheapestFirst_tail {items : List Item} (distinct : items.Nodup) {first : Item}
    (least : cheapest key items = some first) (keep : Item → Bool)
    (others : ∀ item ∈ items, keep item = true ↔ item ≠ first) :
    cheapestFirst key items = first :: cheapestFirst key (items.filter keep) := by
  rw [cheapest_eq_head] at least
  obtain ⟨rest, whole⟩ := List.head?_eq_some_iff.mp least
  have arranged := cheapestFirst_perm key items
  have once := List.nodup_cons.mp (whole ▸ arranged.nodup_iff.mpr distinct)
  have kept : ∀ item ∈ rest, keep item = true := by
    intro item present
    have stored := arranged.mem_iff.mp (whole ▸ List.mem_cons_of_mem first present)
    exact (others item stored).mpr fun same => once.1 (same ▸ present)
  have stored := arranged.mem_iff.mp (whole ▸ List.mem_cons_self)
  have dropped : ¬ keep first = true := fun keeps => (others first stored).mp keeps rfl
  rw [cheapestFirst_filter, whole, List.filter_cons_of_neg dropped, List.filter_eq_self.mpr kept]

end Order

section Shed

/-- The size of a list of items. -/
def totalSize (size : Item → Nat) (items : List Item) : Int := (items.map fun item => (size item : Int)).sum

@[simp] theorem totalSize_nil (size : Item → Nat) : totalSize size ([] : List Item) = 0 := rfl

@[simp] theorem totalSize_cons (size : Item → Nat) (item : Item) (rest : List Item) :
    totalSize size (item :: rest) = size item + totalSize size rest := by
  simp [totalSize]

/-- The total does not depend on the order of the items. -/
theorem totalSize_perm {size : Item → Nat} {first second : List Item} (arranged : first.Perm second) :
    totalSize size first = totalSize size second :=
  (arranged.map _).sum_eq

/-- Larger sizes have a larger total. -/
theorem totalSize_mono {small large : Item → Nat} (atMost : ∀ item, small item ≤ large item) (items : List Item) :
    totalSize small items ≤ totalSize large items := by
  induction items with
  | nil => exact le_refl _
  | cons item rest ih =>
      have here := atMost item
      rw [totalSize_cons, totalSize_cons]
      omega

/-- Fewer items left are smaller. -/
theorem totalSize_drop_antitone (size : Item → Nat) (items : List Item) {fewer more : Nat} (le : fewer ≤ more) :
    totalSize size (items.drop more) ≤ totalSize size (items.drop fewer) := by
  induction items generalizing fewer more with
  | nil => simp
  | cons item rest ih =>
      cases fewer with
      | zero =>
          cases more with
          | zero => exact le_refl _
          | succ more =>
              have later := ih (Nat.zero_le more)
              rw [List.drop_succ_cons, List.drop_zero, totalSize_cons]
              rw [List.drop_zero] at later
              omega
      | succ fewer =>
          cases more with
          | zero => omega
          | succ more => exact ih (Nat.le_of_succ_le_succ le)

variable (size : Item → Nat) (bound : Int)

/-- Items leave from the front while the rest is over the bound. -/
def shedCount : List Item → Nat
  | [] => 0
  | item :: rest => if totalSize size (item :: rest) ≤ bound then 0 else shedCount rest + 1

/-- Nothing is shed where everything fits. -/
theorem shedCount_of_fits {size : Item → Nat} {bound : Int} {items : List Item}
    (fits : totalSize size items ≤ bound) : shedCount size bound items = 0 := by
  cases items with
  | nil => rfl
  | cons item rest => rw [shedCount, if_pos fits]

/-- The first items leave, the rest fits or is empty, and no fewer items would do. -/
structure MinimalShed (items : List Item) (count : Nat) : Prop where
  within : count ≤ items.length
  fits : totalSize size (items.drop count) ≤ bound ∨ items.drop count = []
  needed : ∀ fewer < count, bound < totalSize size (items.drop fewer)

/-- The counted items are the fewest that have to go. -/
theorem minimalShed_shedCount (items : List Item) : MinimalShed size bound items (shedCount size bound items) := by
  induction items with
  | nil => exact ⟨le_refl _, .inr rfl, fun fewer less => absurd less (Nat.not_lt_zero fewer)⟩
  | cons item rest ih =>
      by_cases fits : totalSize size (item :: rest) ≤ bound
      · rw [shedCount, if_pos fits]
        exact ⟨Nat.zero_le _, .inl fits, fun fewer less => absurd less (Nat.not_lt_zero fewer)⟩
      · rw [shedCount, if_neg fits]
        refine ⟨Nat.succ_le_succ ih.within, ih.fits, fun fewer less => ?_⟩
        cases fewer with
        | zero => exact not_le.mp fits
        | succ fewer => exact ih.needed fewer (Nat.lt_of_succ_lt_succ less)

variable {size bound}

/-- What one measure sheds is enough for another exactly when every rest that fits by the first measure fits by the
second. -/
theorem MinimalShed.fits_other_iff {other : Item → Nat} (positive : 0 ≤ bound) {items : List Item} {count : Nat}
    (shed : MinimalShed size bound items count) :
    (totalSize other (items.drop count) ≤ bound ∨ items.drop count = []) ↔
      ∀ cut, totalSize size (items.drop cut) ≤ bound → totalSize other (items.drop cut) ≤ bound := by
  constructor
  · intro fits cut small
    have reached : count ≤ cut := by
      by_contra before
      exact absurd small (not_le.mpr (shed.needed cut (not_le.mp before)))
    apply (totalSize_drop_antitone other items reached).trans
    rcases fits with fits | empty
    · exact fits
    · rw [empty]
      exact positive
  · intro every
    rcases shed.fits with fits | empty
    · exact .inl (every count fits)
    · exact .inr empty

/-- What a smaller measure finds over the bound is over it by a larger one. -/
theorem MinimalShed.needed_larger {large : Item → Nat} (atMost : ∀ item, size item ≤ large item)
    {items : List Item} {count : Nat} (shed : MinimalShed size bound items count) :
    ∀ fewer < count, bound < totalSize large (items.drop fewer) :=
  fun fewer less => (shed.needed fewer less).trans_le (totalSize_mono atMost _)

end Shed
end AiMemory.Library
