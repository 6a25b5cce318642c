import Mathlib.Algebra.Order.Ring.Nat
import Mathlib.Data.List.Sort
import Mathlib.Data.Nat.Log

/-
This file develops the Merkle fold that doubles the last node of an odd level, and which leaves meet in one tree.
-/

namespace AiMemory.Library

universe u v w

section Fold
variable {Node : Type u} {Above : Type v}

/-- The next level has one node for each pair of this level. -/
def pairUp (combine : Node → Node → Node) : List Node → List Node
  | [] => []
  | [last] => [combine last last]
  | first :: second :: rest => combine first second :: pairUp combine rest

/-- A level shrinks when it is paired up. -/
theorem length_pairUp_le (combine : Node → Node → Node) :
    ∀ level, (pairUp combine level).length ≤ level.length
  | [] => le_rfl
  | [_] => le_rfl
  | _ :: _ :: rest => by
      have fewer := length_pairUp_le combine rest
      simp only [pairUp, List.length_cons]
      omega

/-- The fold climbs until one node is left. -/
def foldLevels (combine : Node → Node → Node) (first : Node) : List Node → Node
  | [] => first
  | second :: rest => foldLevels combine (combine first second) (pairUp combine rest)
termination_by rest => rest.length
decreasing_by exact Nat.lt_succ_of_le (length_pairUp_le combine rest)

variable {build : Node → Node → Node} {combine : Above → Above → Above} {value : Node → Above}

/-- A pairing of trees is a pairing of their values. -/
theorem pairUp_map (each : ∀ left right, value (build left right) = combine (value left) (value right)) :
    ∀ level, pairUp combine (level.map value) = (pairUp build level).map value
  | [] => rfl
  | [_] => by simp [pairUp, each]
  | _ :: _ :: rest => by simp [pairUp, each, pairUp_map each rest]

/-- The fold commutes with a map that commutes with the pairs. -/
theorem foldLevels_map (each : ∀ left right, value (build left right) = combine (value left) (value right))
    (first : Node) (rest : List Node) :
    foldLevels combine (value first) (rest.map value) = value (foldLevels build first rest) := by
  fun_induction foldLevels build first rest with
  | case1 first => rw [List.map_nil, foldLevels]
  | case2 first second rest ih => rw [List.map_cons, foldLevels, ← each, pairUp_map each, ih]

end Fold

/-- A tree keeps the pairs that a fold made. -/
inductive MerkleTree (Leaf : Type u) where
  | leaf (value : Leaf)
  | node (left right : MerkleTree Leaf)
  deriving DecidableEq

namespace MerkleTree
variable {Leaf : Type u}

def depth : MerkleTree Leaf → Nat
  | leaf _ => 0
  | node left _ => left.depth + 1

def leaves : MerkleTree Leaf → List Leaf
  | leaf value => [value]
  | node left right => left.leaves ++ right.leaves

/-- The full tree of one value. -/
def uniform (value : Leaf) : Nat → MerkleTree Leaf
  | 0 => leaf value
  | depth + 1 => node (uniform value depth) (uniform value depth)

/-- The tree of the items fills its left half before its right half, and a lone half stands twice. -/
inductive Balanced : Nat → List Leaf → MerkleTree Leaf → Prop
  | leaf (value : Leaf) : Balanced 0 [value] (.leaf value)
  | full {depth : Nat} {front back : List Leaf} {left right : MerkleTree Leaf} :
      Balanced depth front left → front.length = 2 ^ depth → Balanced depth back right →
      Balanced (depth + 1) (front ++ back) (.node left right)
  | doubled {depth : Nat} {items : List Leaf} {half : MerkleTree Leaf} :
      Balanced depth items half → Balanced (depth + 1) items (.node half half)

namespace Balanced

variable {depth : Nat} {items : List Leaf} {tree : MerkleTree Leaf}

/-- Every branch of a balanced tree has the same length. -/
theorem depth_eq (balanced : Balanced depth items tree) : tree.depth = depth := by
  induction balanced with
  | leaf value => rfl
  | full _ _ _ ih _ => rw [MerkleTree.depth, ih]
  | doubled _ ih => rw [MerkleTree.depth, ih]

theorem length_pos (balanced : Balanced depth items tree) : 0 < items.length := by
  induction balanced with
  | leaf value => exact Nat.one_pos
  | full _ _ _ ih _ =>
      rw [List.length_append]
      omega
  | doubled _ ih => exact ih

/-- A balanced tree has no more leaves than its depth allows. -/
theorem length_le (balanced : Balanced depth items tree) : items.length ≤ 2 ^ depth := by
  induction balanced with
  | leaf value => exact le_rfl
  | full _ _ _ front back =>
      rw [List.length_append, Nat.pow_succ]
      omega
  | doubled _ ih =>
      rw [Nat.pow_succ]
      omega

/-- The leaves of a balanced tree are its items. -/
theorem mem_leaves (balanced : Balanced depth items tree) {value : Leaf} :
    value ∈ tree.leaves ↔ value ∈ items := by
  induction balanced with
  | leaf _ => rfl
  | full _ _ _ front back => rw [leaves, List.mem_append, List.mem_append, front, back]
  | doubled _ ih => rw [leaves, List.mem_append, ih, or_self]

/-- Only the depth is left of a list that repeats one value. -/
theorem eq_uniform (balanced : Balanced depth items tree) {value : Leaf}
    (same : ∀ item ∈ items, item = value) : tree = uniform value depth := by
  induction balanced with
  | leaf only => rw [same only List.mem_cons_self, uniform]
  | full _ _ _ front back =>
      rw [front fun item present => same item (List.mem_append_left _ present),
        back fun item present => same item (List.mem_append_right _ present), uniform]
  | doubled _ ih => rw [ih same, uniform]

/-- Two lists that repeat one item have one tree of a depth. -/
theorem eq_of_repeated {others : List Leaf} {other : MerkleTree Leaf} (balanced : Balanced depth items tree)
    (alsoBalanced : Balanced depth others other) (repeated : ∀ item ∈ items, ∀ second ∈ others, item = second) :
    tree = other := by
  obtain ⟨value, present⟩ := List.exists_mem_of_length_pos balanced.length_pos
  obtain ⟨copy, alsoPresent⟩ := List.exists_mem_of_length_pos alsoBalanced.length_pos
  have same (item : Leaf) (held : item ∈ items) : item = value :=
    (repeated item held copy alsoPresent).trans (repeated value present copy alsoPresent).symm
  rw [balanced.eq_uniform same, alsoBalanced.eq_uniform fun item held => (repeated value present item held).symm]

end Balanced

/-- The nodes of a level hold consecutive blocks of the items, all of them full but the last. -/
inductive Level (depth : Nat) : List Leaf → List (MerkleTree Leaf) → Prop
  | last {items : List Leaf} {tree : MerkleTree Leaf} : Balanced depth items tree → Level depth items [tree]
  | cons {block rest : List Leaf} {tree : MerkleTree Leaf} {level : List (MerkleTree Leaf)} :
      Balanced depth block tree → block.length = 2 ^ depth → Level depth rest level →
      Level depth (block ++ rest) (tree :: level)

namespace Level

/-- The leaves are a level of depth zero. -/
theorem leaves (first : Leaf) (rest : List Leaf) :
    Level 0 (first :: rest) (.leaf first :: rest.map .leaf) := by
  induction rest generalizing first with
  | nil => exact last (.leaf first)
  | cons second rest ih => exact cons (.leaf first) rfl (ih second)

/-- The pairs of a level are the nodes of the next level. -/
theorem pairUp {depth : Nat} : ∀ {items : List Leaf} {level : List (MerkleTree Leaf)},
    Level depth items level → Level (depth + 1) items (pairUp .node level)
  | _, _, last only => last only.doubled
  | _, _, cons front filled (last back) => last (front.full filled back)
  | _, _, cons front filled (cons back alsoFilled later) => by
      rw [← List.append_assoc]
      apply cons (front.full filled back) _ later.pairUp
      rw [List.length_append, filled, alsoFilled, Nat.pow_succ, Nat.mul_two]

theorem length_pos {depth : Nat} {items : List Leaf} {level : List (MerkleTree Leaf)}
    (walked : Level depth items level) : 0 < items.length := by
  cases walked with
  | last only => exact only.length_pos
  | cons front _ _ =>
      rw [List.length_append]
      exact Nat.add_pos_left front.length_pos _

/-- The fold climbs to the least depth that holds the items. -/
theorem balanced_foldLevels {depth : Nat} {items : List Leaf} {first : MerkleTree Leaf}
    {rest : List (MerkleTree Leaf)} (walked : Level depth items (first :: rest))
    (least : depth ≤ Nat.clog 2 items.length) :
    Balanced (Nat.clog 2 items.length) items (foldLevels .node first rest) := by
  fun_induction foldLevels MerkleTree.node first rest generalizing depth with
  | case1 first =>
      cases walked with
      | last only =>
          rw [le_antisymm (Nat.clog_le_of_le_pow only.length_le) least]
          exact only
      | cons _ _ none => nomatch none
  | case2 first second rest ih =>
      apply ih walked.pairUp
      cases walked with
      | cons _ filled later =>
          rw [Nat.succ_le_iff, ← not_le, Nat.clog_le_iff_le_pow Nat.one_lt_two, List.length_append, filled]
          have more := later.length_pos
          omega

end Level

/-- A level doubles its last node here: both lists agree up to a whole block, and then repeat one item, the
shorter list up to the half of the next block and the longer list past it. -/
structure PaddedFrom (width start : Nat) (shorter longer : List Leaf) : Prop where
  aligned : 2 ^ (width + 1) ∣ start
  begun : start < shorter.length
  short : shorter.length ≤ start + 2 ^ width
  long : start + 2 ^ width < longer.length
  fits : longer.length ≤ start + 2 ^ (width + 1)
  same : shorter.take start = longer.take start
  repeated : ∀ first ∈ shorter.drop start, ∀ second ∈ longer.drop start, first = second

/-- The longer list writes the padding of the shorter list out. -/
def Padding (shorter longer : List Leaf) : Prop :=
  ∃ width start, 0 < start ∧ PaddedFrom width start shorter longer

/-- A block that starts before another block of its width ends before it. -/
theorem block_le {width start other : Nat} (aligned : width ∣ start) (alsoAligned : width ∣ other)
    (before : start < other) : start + width ≤ other := by
  have room := Nat.le_of_dvd (Nat.sub_pos_of_lt before) (Nat.dvd_sub alsoAligned aligned)
  omega

namespace PaddedFrom

variable {width start : Nat} {shorter longer : List Leaf}

/-- A padded list is longer. -/
theorem length_lt (padded : PaddedFrom width start shorter longer) : shorter.length < longer.length :=
  padded.short.trans_lt padded.long

/-- The padding of the second halves is a padding of the whole lists. -/
theorem append {depth : Nat} {front : List Leaf} (filled : front.length = 2 ^ depth)
    (fits : longer.length ≤ 2 ^ depth) (padded : PaddedFrom width start shorter longer) :
    PaddedFrom width (front.length + start) (front ++ shorter) (front ++ longer) := by
  have below : width < depth := by
    rw [← Nat.pow_lt_pow_iff_right Nat.one_lt_two]
    have long := padded.long
    omega
  have begun := padded.begun
  have short := padded.short
  have long := padded.long
  have ends := padded.fits
  refine ⟨?_, ?_, ?_, ?_, ?_, ?_, ?_⟩
  · rw [filled]
    exact Nat.dvd_add (Nat.pow_dvd_pow 2 below) padded.aligned
  · rw [List.length_append]
    omega
  · rw [List.length_append]
    omega
  · rw [List.length_append]
    omega
  · rw [List.length_append]
    omega
  · rw [List.take_length_add_append, List.take_length_add_append, padded.same]
  · rw [List.drop_length_add_append, List.drop_length_add_append]
    exact padded.repeated

/-- The padding of two lists that reach their second halves is a padding of these. -/
theorem of_append {depth : Nat} {front other : List Leaf} (filled : front.length = 2 ^ depth)
    (alsoFilled : other.length = 2 ^ depth) (nonempty : 0 < shorter.length) (fits : longer.length ≤ 2 ^ depth)
    (padded : PaddedFrom width start (front ++ shorter) (other ++ longer)) :
    front = other ∧ PaddedFrom width (start - 2 ^ depth) shorter longer := by
  obtain ⟨aligned, begun, short, long, ends, same, repeated⟩ := padded
  rw [List.length_append, filled] at begun short
  rw [List.length_append, alsoFilled] at long ends
  have below : width < depth := by
    by_contra above
    have wide := Nat.pow_le_pow_right Nat.two_pos (not_lt.mp above)
    rw [Nat.pow_succ] at aligned ends
    have atStart : start = 0 := Nat.eq_zero_of_dvd_of_lt aligned (by omega)
    subst atStart
    have narrow : 2 ^ width < 2 ^ (depth + 1) := by
      rw [Nat.pow_succ]
      omega
    have level : width = depth :=
      le_antisymm (Nat.lt_succ_iff.mp ((Nat.pow_lt_pow_iff_right Nat.one_lt_two).mp narrow)) (not_lt.mp above)
    subst level
    omega
  have blocks := Nat.pow_dvd_pow 2 (Nat.succ_le_of_lt below)
  have past : 2 ^ depth ≤ start := by
    by_contra early
    have room := block_le aligned blocks (not_le.mp early)
    rw [Nat.pow_succ] at room
    omega
  obtain ⟨later, rfl⟩ := Nat.exists_eq_add_of_le past
  have taken := same
  rw [← filled, List.take_length_add_append, filled, ← alsoFilled, List.take_length_add_append] at taken
  obtain ⟨fronts, backs⟩ := List.append_inj taken (filled.trans alsoFilled.symm)
  refine ⟨fronts, ?_⟩
  rw [Nat.add_sub_cancel_left]
  refine ⟨?_, by omega, by omega, by omega, by omega, backs, ?_⟩
  · exact (Nat.dvd_add_right blocks).mp aligned
  · rw [← filled, List.drop_length_add_append, filled, ← alsoFilled, List.drop_length_add_append] at repeated
    exact repeated

/-- A list past its first half repeats the shorter list only if both repeat one item. -/
theorem repeated_of_le {depth : Nat} (half : shorter.length ≤ 2 ^ depth) (past : 2 ^ depth < longer.length)
    (padded : PaddedFrom width start shorter longer) :
    ∀ first ∈ shorter, ∀ second ∈ longer, first = second := by
  obtain ⟨aligned, begun, short, long, ends, same, repeated⟩ := padded
  have wide : depth ≤ width := by
    by_contra below
    have room := block_le aligned (Nat.pow_dvd_pow 2 (Nat.succ_le_of_lt (not_le.mp below)))
      (begun.trans_le half)
    omega
  have blocks := Nat.pow_le_pow_right Nat.two_pos wide
  have positive := Nat.two_pow_pos width
  have atStart : start = 0 := Nat.eq_zero_of_dvd_of_lt aligned (by rw [Nat.pow_succ]; omega)
  subst atStart
  simpa only [List.drop_zero] using repeated

/-- The padding of two lists that share a block keeps the depth of their trees. -/
theorem clog_eq (padded : PaddedFrom width start shorter longer) (shared : 0 < start) :
    Nat.clog 2 shorter.length = Nat.clog 2 longer.length := by
  apply le_antisymm (Nat.clog_mono_right 2 padded.length_lt.le)
  rw [Nat.clog_le_iff_le_pow Nat.one_lt_two]
  have holds : start < 2 ^ Nat.clog 2 shorter.length :=
    padded.begun.trans_le (Nat.le_pow_clog Nat.one_lt_two _)
  have narrow : width + 1 ≤ Nat.clog 2 shorter.length := by
    rw [← Nat.pow_le_pow_iff_right Nat.one_lt_two]
    exact (Nat.le_of_dvd shared padded.aligned).trans holds.le
  exact padded.fits.trans (block_le padded.aligned (Nat.pow_dvd_pow 2 narrow) holds)

/-- The padding of two trees of one depth shares a block. -/
theorem start_pos (padded : PaddedFrom width start shorter longer)
    (depths : Nat.clog 2 shorter.length = Nat.clog 2 longer.length) : 0 < start := by
  by_contra none
  have short := padded.short
  have long := padded.long
  rw [Nat.eq_zero_of_not_pos none, Nat.zero_add] at short long
  rw [← Nat.clog_le_iff_le_pow Nat.one_lt_two, depths, Nat.clog_le_iff_le_pow Nat.one_lt_two] at short
  omega

end PaddedFrom

/-- Two lists are equal or pad each other. -/
def Meets (first second : List Leaf) : Prop :=
  first = second ∨ (∃ width start, PaddedFrom width start first second) ∨
    ∃ width start, PaddedFrom width start second first

theorem Meets.symm {first second : List Leaf} : Meets first second → Meets second first
  | .inl same => .inl same.symm
  | .inr padded => .inr padded.symm

/-- Lists of one length meet exactly when they are equal. -/
theorem meets_of_length_eq {first second : List Leaf} (lengths : first.length = second.length) :
    Meets first second ↔ first = second := by
  constructor
  · rintro (same | ⟨_, _, padded⟩ | ⟨_, _, padded⟩)
    · exact same
    · exact absurd padded.length_lt (by omega)
    · exact absurd padded.length_lt (by omega)
  · exact .inl

/-- A shorter list meets a longer one exactly when that one pads it. -/
theorem meets_of_length_lt {first second : List Leaf} (lengths : first.length < second.length) :
    Meets first second ↔ ∃ width start, PaddedFrom width start first second := by
  constructor
  · rintro (same | padded | ⟨_, _, padded⟩)
    · exact absurd (congrArg List.length same) lengths.ne
    · exact padded
    · exact absurd padded.length_lt lengths.not_gt
  · exact fun padded => .inr (.inl padded)

/-- Lists that reach their second halves meet exactly when their halves do. -/
theorem meets_append {depth : Nat} {front back other rest : List Leaf} (filled : front.length = 2 ^ depth)
    (alsoFilled : other.length = 2 ^ depth) (nonempty : 0 < back.length) (alsoNonempty : 0 < rest.length)
    (fits : back.length ≤ 2 ^ depth) (alsoFits : rest.length ≤ 2 ^ depth) :
    Meets (front ++ back) (other ++ rest) ↔ front = other ∧ Meets back rest := by
  constructor
  · rintro (same | ⟨_, _, padded⟩ | ⟨_, _, padded⟩)
    · obtain ⟨fronts, backs⟩ := List.append_inj same (filled.trans alsoFilled.symm)
      exact ⟨fronts, .inl backs⟩
    · obtain ⟨fronts, backs⟩ := padded.of_append filled alsoFilled nonempty alsoFits
      exact ⟨fronts, .inr (.inl ⟨_, _, backs⟩)⟩
    · obtain ⟨fronts, backs⟩ := padded.of_append alsoFilled filled alsoNonempty fits
      exact ⟨fronts.symm, .inr (.inr ⟨_, _, backs⟩)⟩
  · rintro ⟨rfl, same | ⟨_, _, padded⟩ | ⟨_, _, padded⟩⟩
    · exact .inl (congrArg (front ++ ·) same)
    · exact .inr (.inl ⟨_, _, padded.append filled alsoFits⟩)
    · exact .inr (.inr ⟨_, _, padded.append filled fits⟩)

variable [LinearOrder Leaf]

/-- A sorted list whose halves have one tree repeats one item. -/
theorem Balanced.repeated_of_halves {depth : Nat} {items front back : List Leaf} {half : MerkleTree Leaf}
    (lone : Balanced depth items half) (first : Balanced depth front half) (second : Balanced depth back half)
    (sorted : (front ++ back).Pairwise (· ≤ ·)) : ∀ item ∈ items, ∀ other ∈ front ++ back, item = other := by
  have inOrder := (List.pairwise_append.mp sorted).2.2
  -- The leaves of the tree are the items of each list.
  have inHalves (item : Leaf) (present : item ∈ half.leaves) : item ∈ front ∧ item ∈ back :=
    ⟨first.mem_leaves.mp present, second.mem_leaves.mp present⟩
  intro item present other alsoPresent
  have leaf : other ∈ half.leaves := by
    rcases List.mem_append.mp alsoPresent with inFront | inBack
    · exact first.mem_leaves.mpr inFront
    · exact second.mem_leaves.mpr inBack
  have here := inHalves item (lone.mem_leaves.mpr present)
  have there := inHalves other leaf
  exact le_antisymm (inOrder item here.1 other there.2) (inOrder other there.1 item here.2)

/-- A doubled half is the two halves of a sorted list only if one item stands throughout. -/
theorem Balanced.half_iff {depth : Nat} {items front back : List Leaf} {half left right : MerkleTree Leaf}
    (lone : Balanced depth items half) (first : Balanced depth front left) (filled : front.length = 2 ^ depth)
    (second : Balanced depth back right) (sorted : (front ++ back).Pairwise (· ≤ ·)) :
    half = left ∧ half = right ↔ Meets items (front ++ back) := by
  have past : 2 ^ depth < (front ++ back).length := by
    rw [List.length_append, filled]
    exact Nat.lt_add_of_pos_right second.length_pos
  rw [meets_of_length_lt (lone.length_le.trans_lt past)]
  constructor
  · rintro ⟨rfl, rfl⟩
    refine ⟨depth, 0, Nat.dvd_zero _, lone.length_pos, ?_, ?_, ?_, rfl, lone.repeated_of_halves first second sorted⟩
    · rw [Nat.zero_add]
      exact lone.length_le
    · rwa [Nat.zero_add]
    · rw [Nat.zero_add, List.length_append, filled, Nat.pow_succ, Nat.mul_two]
      exact Nat.add_le_add_left second.length_le _
  · rintro ⟨width, start, padded⟩
    have repeated := padded.repeated_of_le lone.length_le past
    constructor
    · exact lone.eq_of_repeated first fun item held other present =>
        repeated item held other (List.mem_append_left _ present)
    · exact lone.eq_of_repeated second fun item held other present =>
        repeated item held other (List.mem_append_right _ present)

/-- Two sorted lists have one tree of a depth exactly when they meet. -/
theorem Balanced.eq_iff {depth : Nat} {items others : List Leaf} {tree other : MerkleTree Leaf}
    (first : Balanced depth items tree) (second : Balanced depth others other)
    (sorted : items.Pairwise (· ≤ ·)) (alsoSorted : others.Pairwise (· ≤ ·)) :
    tree = other ↔ Meets items others := by
  induction first generalizing others other with
  | leaf value =>
      cases second with
      | leaf only =>
          have lengths : [value].length = [only].length := rfl
          rw [meets_of_length_eq lengths, List.singleton_inj, MerkleTree.leaf.injEq]
  | full left filled right leftIh rightIh =>
      rw [List.pairwise_append] at sorted
      cases second with
      | full otherLeft alsoFilled otherRight =>
          have otherSorted := List.pairwise_append.mp alsoSorted
          rw [meets_append filled alsoFilled right.length_pos otherRight.length_pos right.length_le
            otherRight.length_le, MerkleTree.node.injEq, leftIh otherLeft sorted.1 otherSorted.1,
            rightIh otherRight sorted.2.1 otherSorted.2.1, meets_of_length_eq (filled.trans alsoFilled.symm)]
      | doubled lone =>
          have halves := lone.half_iff left filled right (List.pairwise_append.mpr sorted)
          rw [MerkleTree.node.injEq, eq_comm, and_congr_right fun _ => eq_comm, halves]
          exact ⟨Meets.symm, Meets.symm⟩
  | doubled lone ih =>
      cases second with
      | full left filled right => rw [MerkleTree.node.injEq, lone.half_iff left filled right alsoSorted]
      | doubled otherLone => rw [MerkleTree.node.injEq, and_self, ih otherLone sorted alsoSorted]

/-- Two sorted lists fold into one tree exactly when they are equal or one pads the other. -/
theorem foldLevels_eq_iff {first second : Leaf} {rest others : List Leaf}
    (sorted : (first :: rest).Pairwise (· ≤ ·)) (alsoSorted : (second :: others).Pairwise (· ≤ ·)) :
    foldLevels node (leaf first) (rest.map leaf) = foldLevels node (leaf second) (others.map leaf) ↔
      first :: rest = second :: others ∨ Padding (first :: rest) (second :: others) ∨
        Padding (second :: others) (first :: rest) := by
  have here := (Level.leaves first rest).balanced_foldLevels (Nat.zero_le _)
  have there := (Level.leaves second others).balanced_foldLevels (Nat.zero_le _)
  constructor
  · intro same
    have depths := here.depth_eq.symm.trans ((congrArg depth same).trans there.depth_eq)
    rw [← depths] at there
    apply ((here.eq_iff there sorted alsoSorted).mp same).imp_right
    rintro (⟨width, start, padded⟩ | ⟨width, start, padded⟩)
    · exact .inl ⟨width, start, padded.start_pos depths, padded⟩
    · exact .inr ⟨width, start, padded.start_pos depths.symm, padded⟩
  · rintro (same | ⟨width, start, shared, padded⟩ | ⟨width, start, shared, padded⟩)
    · obtain ⟨rfl, rfl⟩ := List.cons.inj same
      rfl
    · rw [← padded.clog_eq shared] at there
      exact (here.eq_iff there sorted alsoSorted).mpr (.inr (.inl ⟨width, start, padded⟩))
    · rw [padded.clog_eq shared] at there
      exact (here.eq_iff there sorted alsoSorted).mpr (.inr (.inr ⟨width, start, padded⟩))

end MerkleTree

/-- The hashed inputs of a tree tell its leaves from its nodes. -/
structure TreeInputs (Leaf : Type u) (Digest : Type v) (Input : Type w) where
  leaf : Leaf → Input
  node : Digest → Digest → Input
  leaf_injective : Function.Injective leaf
  node_injective : Function.Injective2 node
  leaf_ne_node : ∀ value left right, leaf value ≠ node left right

namespace TreeInputs

variable {Leaf : Type u} {Digest : Type v} {Input : Type w}
variable (inputs : TreeInputs Leaf Digest Input) (hash : Input → Digest)

def digest : MerkleTree Leaf → Digest
  | .leaf value => hash (inputs.leaf value)
  | .node left right => hash (inputs.node (digest left) (digest right))

/-- The inputs that the tree hashes. -/
def hashed : MerkleTree Leaf → List Input
  | .leaf value => [inputs.leaf value]
  | .node left right =>
      inputs.node (inputs.digest hash left) (inputs.digest hash right) :: (hashed left ++ hashed right)

variable {inputs hash}

/-- A hash that separates the inputs of two trees separates the trees. -/
theorem digest_injective {known : Set Input} (separates : Set.InjOn hash known) {first second : MerkleTree Leaf}
    (here : ∀ input ∈ inputs.hashed hash first, input ∈ known)
    (there : ∀ input ∈ inputs.hashed hash second, input ∈ known)
    (same : inputs.digest hash first = inputs.digest hash second) : first = second := by
  induction first generalizing second with
  | leaf value =>
      cases second with
      | leaf other =>
          have input := separates (here _ List.mem_cons_self) (there _ List.mem_cons_self) same
          rw [inputs.leaf_injective input]
      | node left right =>
          have input := separates (here _ List.mem_cons_self) (there _ List.mem_cons_self) same
          exact absurd input (inputs.leaf_ne_node _ _ _)
  | node left right leftIh rightIh =>
      cases second with
      | leaf other =>
          have input := separates (here _ List.mem_cons_self) (there _ List.mem_cons_self) same
          exact absurd input.symm (inputs.leaf_ne_node _ _ _)
      | node otherLeft otherRight =>
          have input := separates (here _ List.mem_cons_self) (there _ List.mem_cons_self) same
          obtain ⟨lefts, rights⟩ := inputs.node_injective input
          simp only [hashed, List.mem_cons, List.mem_append] at here there
          rw [leftIh (fun input present => here input (.inr (.inl present)))
              (fun input present => there input (.inr (.inl present))) lefts,
            rightIh (fun input present => here input (.inr (.inr present)))
              (fun input present => there input (.inr (.inr present))) rights]

end TreeInputs
end AiMemory.Library
