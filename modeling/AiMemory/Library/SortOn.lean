import Mathlib.Data.List.Sort

/-
This file develops the stable sort of a list on a key that is distinct for its items.
-/

namespace AiMemory.Library

universe u
variable {Item : Type u} (key : Item → Int)

/-- The sort keeps the order of the items that share a key. -/
def sortOn (items : List Item) : List Item :=
  items.insertionSort fun first second => key first ≤ key second

theorem sortOn_perm (items : List Item) : (sortOn key items).Perm items :=
  List.perm_insertionSort _ items

@[simp] theorem mem_sortOn {key : Item → Int} {items : List Item} {item : Item} :
    item ∈ sortOn key items ↔ item ∈ items :=
  (sortOn_perm key items).mem_iff

/-- The sort is stable. -/
theorem sortOn_filter_key (items : List Item) (value : Int) :
    (sortOn key items).filter (fun item => key item = value) = items.filter fun item => key item = value := by
  have inOrder : (items.filter fun item => key item = value).Sublist (sortOn key items) := by
    apply List.sublist_insertionSort _ List.filter_sublist
    apply List.pairwise_of_forall_mem_list
    intro first firstPresent second secondPresent
    have low := of_decide_eq_true (List.mem_filter.mp firstPresent).2
    have high := of_decide_eq_true (List.mem_filter.mp secondPresent).2
    exact Int.le_of_eq (low.trans high.symm)
  have kept := inOrder.filter fun item => key item = value
  simp only [List.filter_filter, Bool.and_self] at kept
  exact (kept.eq_of_length ((sortOn_perm key items).filter _).length_eq.symm).symm

/-- Items with distinct keys have one sorted arrangement. -/
theorem eq_of_sorted {Key : Type*} [LinearOrder Key] {rank : Item → Key} {first second : List Item}
    (distinct : (first.map rank).Nodup) (arranged : first.Perm second)
    (firstSorted : first.Pairwise fun left right => rank left ≤ rank right)
    (secondSorted : second.Pairwise fun left right => rank left ≤ rank right) : first = second := by
  apply List.Perm.eq_of_pairwise _ firstSorted secondSorted arranged
  intro left right leftPresent rightPresent low high
  exact List.inj_on_of_nodup_map distinct leftPresent (arranged.mem_iff.mpr rightPresent)
    (le_antisymm low high)

/-- The insertion sort on a key is sorted. -/
theorem insertionSort_sorted {Key : Type*} [LinearOrder Key] (rank : Item → Key) (items : List Item) :
    (items.insertionSort fun left right => rank left ≤ rank right).Pairwise
      fun left right => rank left ≤ rank right := by
  have : Std.Total fun left right : Item => rank left ≤ rank right :=
    ⟨fun left right => le_total (rank left) (rank right)⟩
  have : IsTrans Item fun left right => rank left ≤ rank right := ⟨fun _ _ _ => le_trans⟩
  exact List.pairwise_insertionSort _ items

theorem sortOn_sorted (items : List Item) :
    (sortOn key items).Pairwise fun first second => key first ≤ key second :=
  insertionSort_sorted key items

/-- The insertion sort on distinct keys commutes with a filter. -/
theorem insertionSort_filter {Key : Type*} [LinearOrder Key] {rank : Item → Key} {items : List Item}
    (distinct : (items.map rank).Nodup) (keep : Item → Bool) :
    (items.filter keep).insertionSort (fun left right => rank left ≤ rank right) =
      (items.insertionSort fun left right => rank left ≤ rank right).filter keep := by
  have arranged := List.perm_insertionSort (fun left right => rank left ≤ rank right) (items.filter keep)
  apply eq_of_sorted _ (arranged.trans ((List.perm_insertionSort _ items).filter keep).symm)
    (insertionSort_sorted rank _) ((insertionSort_sorted rank items).filter keep)
  exact (arranged.map rank).nodup_iff.mpr (distinct.sublist (List.filter_sublist.map rank))

/-- A page of a sorted list that no run of equal keys crosses holds every item up to its last key. -/
theorem mem_take_of_le {Key : Type*} [LinearOrder Key] {rank : Item → Key} {items : List Item} {limit : Nat}
    (sorted : items.Pairwise fun left right => rank left ≤ rank right) {item taken : Item}
    (present : item ∈ items) (first : taken ∈ items.take limit) (below : rank item ≤ rank taken)
    (cut : item ∈ items.drop limit → rank taken ≠ rank item) : item ∈ items.take limit := by
  rw [← List.take_append_drop limit items] at present sorted
  rcases List.mem_append.mp present with inside | outside
  · exact inside
  · have above : rank taken ≤ rank item := (List.pairwise_append.mp sorted).2.2 taken first item outside
    exact absurd (le_antisymm above below) (cut outside)

/-- A page leaves an item out only when it is full, and then of what it holds nothing ranks above the item. -/
theorem cut_of_not_mem_take {Key : Type*} [LinearOrder Key] {rank : Item → Key} {items : List Item} {limit : Nat}
    (sorted : items.Pairwise fun left right => rank left ≤ rank right) {item : Item} (present : item ∈ items)
    (absent : item ∉ items.take limit) :
    (items.take limit).length = limit ∧ ∀ taken ∈ items.take limit, rank taken ≤ rank item := by
  rw [← List.take_append_drop limit items] at present sorted
  have later := (List.mem_append.mp present).resolve_left absent
  refine ⟨?_, fun taken early => (List.pairwise_append.mp sorted).2.2 taken early item later⟩
  have some := List.length_pos_of_mem later
  rw [List.length_drop] at some
  rw [List.length_take]
  omega

/-- A sorted list with distinct keys is its own sort. -/
theorem insertionSort_eq {Key : Type*} [LinearOrder Key] {rank : Item → Key} {items : List Item}
    (ascending : items.Pairwise fun left right => rank left < rank right) :
    items.insertionSort (fun left right => rank left ≤ rank right) = items := by
  have : Std.Total fun left right : Item => rank left ≤ rank right :=
    ⟨fun left right => le_total (rank left) (rank right)⟩
  have : IsTrans Item fun left right => rank left ≤ rank right := ⟨fun _ _ _ => le_trans⟩
  exact List.Pairwise.insertionSort_eq (ascending.imp fun less => le_of_lt less)

/-- A cut of a list splits it when no item before it fails the test that a later one passes. -/
theorem takeWhile_append_filter {items : List Item} {test : Item → Bool}
    (downward : items.Pairwise fun left right => test right = true → test left = true) :
    items.takeWhile test ++ items.filter (fun item => !test item) = items := by
  induction items with
  | nil => rfl
  | cons item rest ih =>
      obtain ⟨first, later⟩ := List.pairwise_cons.mp downward
      cases tested : test item with
      | true => simp [tested, ih later]
      | false =>
          have none : ∀ other ∈ rest, test other = false := by
            intro other present
            rw [Bool.eq_false_iff]
            exact fun passes => absurd (first other present passes) (by simp [tested])
          have kept : rest.filter (fun item => !test item) = rest := by
            apply List.filter_eq_self.mpr
            intro other present
            simp [none other present]
          simp [tested, kept]

variable {key}

/-- A sorted arrangement of items with distinct keys is their sort. -/
theorem sortOn_eq_of_perm {items sorted : List Item} (distinct : (items.map key).Nodup)
    (arranged : sorted.Perm items)
    (ordered : sorted.Pairwise fun first second => key first ≤ key second) :
    sortOn key items = sorted :=
  eq_of_sorted (((sortOn_perm key items).map key).nodup_iff.mpr distinct)
    ((sortOn_perm key items).trans arranged.symm) (sortOn_sorted key items) ordered

theorem sortOn_filter {items : List Item} (distinct : (items.map key).Nodup) (keep : Item → Bool) :
    sortOn key (items.filter keep) = (sortOn key items).filter keep :=
  sortOn_eq_of_perm (distinct.sublist (List.filter_sublist.map key))
    ((sortOn_perm key items).filter keep) ((sortOn_sorted key items).filter keep)

/-- An item above all others comes last. -/
theorem sortOn_append_last {items : List Item} {last : Item} (distinct : (items.map key).Nodup)
    (above : ∀ item ∈ items, key item < key last) :
    sortOn key (items ++ [last]) = sortOn key items ++ [last] := by
  refine sortOn_eq_of_perm ?_ ((sortOn_perm key items).append_right [last]) ?_
  · rw [List.map_append]
    refine List.nodup_append.mpr ⟨distinct, List.nodup_singleton _, ?_⟩
    intro first present second only same
    obtain ⟨item, held, rfl⟩ := List.mem_map.mp present
    rw [List.mem_singleton.mp only] at same
    exact Int.ne_of_lt (above item held) same
  · refine List.pairwise_append.mpr ⟨sortOn_sorted key items, List.pairwise_singleton _ _, ?_⟩
    intro first present second only
    rw [List.mem_singleton.mp only]
    exact Int.le_of_lt (above first (mem_sortOn.mp present))

/-- The descending sort of distinct keys reverses the ascending one. -/
theorem sortOn_neg {items : List Item} (distinct : (items.map key).Nodup) :
    sortOn (fun item => -key item) items = (sortOn key items).reverse := by
  refine sortOn_eq_of_perm ?_ ((List.reverse_perm _).trans (sortOn_perm key items)) ?_
  · refine List.pairwise_map.mpr ((List.pairwise_map.mp distinct).imp ?_)
    exact fun apart same => apart (Int.neg_inj.mp same)
  · exact List.pairwise_reverse.mpr ((sortOn_sorted key items).imp Int.neg_le_neg)

/-- A list with distinct keys loses the items of its start. -/
theorem filter_key_not_take {Key : Type*} [DecidableEq Key] {rank : Item → Key} {items : List Item}
    (distinct : (items.map rank).Nodup) (count : Nat) :
    (items.filter fun item => rank item ∉ (items.take count).map rank) = items.drop count := by
  have start : ((items.take count).filter fun item => rank item ∉ (items.take count).map rank) = [] := by
    apply List.filter_eq_nil_iff.mpr
    intro item present
    exact fun kept => of_decide_eq_true kept (List.mem_map_of_mem present)
  have rest : ((items.drop count).filter fun item => rank item ∉ (items.take count).map rank) =
      items.drop count := by
    apply List.filter_eq_self.mpr
    intro item present
    have apart := List.disjoint_take_drop distinct (Nat.le_refl count)
    rw [← List.map_take, ← List.map_drop] at apart
    exact decide_eq_true fun taken => apart taken (List.mem_map_of_mem present)
  calc (items.filter fun item => rank item ∉ (items.take count).map rank)
      = (items.take count ++ items.drop count).filter fun item => rank item ∉ (items.take count).map rank := by
        rw [List.take_append_drop]
    _ = items.drop count := by rw [List.filter_append, start, rest, List.nil_append]

/-- A list without repetitions loses the items of its start. -/
theorem filter_not_take [DecidableEq Item] {items : List Item} (lone : items.Nodup) (count : Nat) :
    (items.filter fun item => !(items.take count).contains item) = items.drop count := by
  have distinct : (items.map id).Nodup := by rwa [List.map_id]
  rw [← filter_key_not_take distinct count]
  apply List.filter_congr
  intro item _
  simp

end AiMemory.Library
