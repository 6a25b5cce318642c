import AiMemory.Crdt.VectorClock

/-
This file embeds the comparison of two vector clocks and proves that the merge joins them.
-/

namespace AiMemory.Crdt
open AiMemory.Library

inductive Causality where
  | equal | happensBefore | happensAfter | concurrent
  deriving DecidableEq, Repr

/-- The same comparison seen from the other clock. -/
def Causality.mirror : Causality → Causality
  | equal => equal
  | happensBefore => happensAfter
  | happensAfter => happensBefore
  | concurrent => concurrent

namespace VectorClock

/-- A peer that was never seen has the empty time. -/
def «at» (clock : VectorClock) (peerId : String) : String := (clock.latestFrom peerId).getD ""

def keys (clock : VectorClock) : List String := clock.entries.entries.map Prod.fst

/-- The flags fall when one clock is ahead on the peer. -/
def compareAt (self other : VectorClock) (flags : Bool × Bool) (peer : String) : Bool × Bool :=
  (if other.at peer < self.at peer then false else flags.1,
    if self.at peer < other.at peer then false else flags.2)

instance : DecidableEq VectorClock := fun first second =>
  decidable_of_iff (first.entries.entries = second.entries.entries) ⟨fun same => by
    obtain ⟨⟨_, _⟩⟩ := first
    obtain ⟨⟨_, _⟩⟩ := second
    cases same
    rfl, fun same => same ▸ rfl⟩

def causality (self other : VectorClock) : Causality :=
  if self = other then .equal
  else
    match (self.keys ++ other.keys).foldl (compareAt self other) (true, true) with
    | (true, true) => .equal
    | (true, false) => .happensBefore
    | (false, true) => .happensAfter
    | (false, false) => .concurrent

/-- One clock precedes another when the comparison says that it is equal or before. -/
instance : LE VectorClock where
  le first second := first.causality second = .equal ∨ first.causality second = .happensBefore

section Pointwise

theorem lookupEntry_isSome {Value : Type*} {query : String} {entries : List (String × Value)}
    (found : (lookupEntry query entries).isSome) : query ∈ entries.map Prod.fst := by
  by_contra absent
  have missing : lookupEntry query entries = none := lookupEntry_none fun entry present same =>
    absent (same ▸ List.mem_map_of_mem present)
  simp [missing] at found

/-- A peer outside both key sets has the empty time in both clocks. -/
theorem at_of_notMem {clock : VectorClock} {peer : String} (absent : peer ∉ clock.keys) :
    clock.at peer = "" := by
  have missing : clock.latestFrom peer = none :=
    Option.not_isSome_iff_eq_none.mp fun found => absent (lookupEntry_isSome found)
  rw [«at», missing, Option.getD_none]

/-- The scan keeps a flag exactly when no scanned peer contradicts it. -/
theorem foldl_compareAt (self other : VectorClock) (peers : List String) (flags : Bool × Bool) :
    peers.foldl (compareAt self other) flags =
      (flags.1 && decide (∀ peer ∈ peers, self.at peer ≤ other.at peer),
        flags.2 && decide (∀ peer ∈ peers, other.at peer ≤ self.at peer)) := by
  induction peers generalizing flags with
  | nil => simp
  | cons peer rest ih =>
      rw [List.foldl_cons, ih, compareAt]
      ext
      · by_cases ahead : other.at peer < self.at peer
        · simp [ahead]
        · simp [ahead, not_lt.mp ahead]
      · by_cases ahead : self.at peer < other.at peer
        · simp [ahead]
        · simp [ahead, not_lt.mp ahead]

/-- The peers of both key sets decide the order of all peers. -/
theorem forall_keys_iff (self other : VectorClock) :
    (∀ peer ∈ self.keys ++ other.keys, self.at peer ≤ other.at peer) ↔ self.at ≤ other.at := by
  constructor
  · intro scanned peer
    by_cases known : peer ∈ self.keys ++ other.keys
    · exact scanned peer known
    · rw [List.mem_append, not_or] at known
      rw [at_of_notMem known.1, at_of_notMem known.2]
  · exact fun below peer _ => below peer

/-- Comparing the listed peers compares all peers. -/
theorem forall_keys_iff' (self other : VectorClock) :
    (∀ peer ∈ self.keys ++ other.keys, other.at peer ≤ self.at peer) ↔ other.at ≤ self.at := by
  rw [← forall_keys_iff]
  refine forall_congr' fun peer => ?_
  rw [List.mem_append, List.mem_append, or_comm]

instance (self other : VectorClock) : Decidable (self.at ≤ other.at) :=
  decidable_of_iff _ (forall_keys_iff self other)

/-- The comparison reads off the pointwise order in both directions. -/
theorem causality_eq (self other : VectorClock) :
    self.causality other =
      if self.at ≤ other.at then if other.at ≤ self.at then .equal else .happensBefore
      else if other.at ≤ self.at then .happensAfter else .concurrent := by
  by_cases same : self = other
  · subst same
    simp [causality]
  · rw [causality, if_neg same, foldl_compareAt]
    simp only [forall_keys_iff, forall_keys_iff', Bool.true_and]
    by_cases below : self.at ≤ other.at <;> by_cases above : other.at ≤ self.at <;> simp [below, above]

theorem le_iff_at {first second : VectorClock} : first ≤ second ↔ first.at ≤ second.at := by
  show first.causality second = .equal ∨ first.causality second = .happensBefore ↔ _
  rw [causality_eq]
  split_ifs <;> simp_all

instance : Preorder VectorClock where
  le_refl _ := le_iff_at.mpr le_rfl
  le_trans _ _ _ below above := le_iff_at.mpr ((le_iff_at.mp below).trans (le_iff_at.mp above))

/-- The comparison from the other side is the mirror image. -/
theorem causality_mirror (first second : VectorClock) :
    second.causality first = (first.causality second).mirror := by
  rw [causality_eq, causality_eq]
  split_ifs <;> rfl

/-- Two clocks are concurrent exactly when neither is behind the other. -/
theorem concurrent_iff (first second : VectorClock) :
    first.causality second = .concurrent ↔ ¬ first ≤ second ∧ ¬ second ≤ first := by
  rw [le_iff_at, le_iff_at, causality_eq]
  split_ifs <;> simp_all

end Pointwise

section Join

/-- The merge takes the later time of every peer. -/
theorem at_merge (self other : VectorClock) : (self.merge other).at = self.at ⊔ other.at := by
  funext peer
  rw [Pi.sup_apply, «at», «at», «at», latestFrom_merge]
  have least (time : String) : "" ≤ time := not_lt.mp fun below =>
    List.not_lt_nil _ (String.lt_iff_toList_lt.mp below)
  cases self.latestFrom peer <;> cases other.latestFrom peer <;>
    simp [least, larger_eq_max]

/-- The merge of two clocks is their least upper bound. -/
theorem isLUB_merge (self other : VectorClock) : IsLUB {self, other} (self.merge other) := by
  constructor
  · rintro clock (rfl | rfl)
    · exact le_iff_at.mpr (at_merge clock other ▸ le_sup_left)
    · exact le_iff_at.mpr (at_merge self clock ▸ le_sup_right)
  · intro bound above
    have left : self.at ≤ bound.at := le_iff_at.mp (above (Set.mem_insert _ _))
    have right : other.at ≤ bound.at := le_iff_at.mp (above (Set.mem_insert_of_mem _ rfl))
    exact le_iff_at.mpr (at_merge self other ▸ sup_le left right)

def mergeAll (clocks : List VectorClock) : VectorClock := clocks.foldl merge default

/-- The order of the clocks does not matter to their merge. -/
theorem mergeAll_perm {clocks order : List VectorClock} (permuted : order.Perm clocks) :
    mergeAll order = mergeAll clocks := by
  refine permuted.foldl_eq' (fun first _ second _ clock => ?_) default
  rw [merge_assoc, merge_assoc, merge_comm first]

end Join

/-- The comparison orders the clocks and the merge is their join. -/
theorem causality_joins :
    (∀ clock : VectorClock, clock ≤ clock) ∧
      (∀ first second third : VectorClock, first ≤ second → second ≤ third → first ≤ third) ∧
      (∀ first second : VectorClock, second.causality first = (first.causality second).mirror) ∧
      (∀ first second : VectorClock,
        first.causality second = .concurrent ↔ ¬ first ≤ second ∧ ¬ second ≤ first) ∧
      (∀ first second : VectorClock, IsLUB {first, second} (first.merge second)) ∧
      ∀ clocks order : List VectorClock, order.Perm clocks → mergeAll order = mergeAll clocks :=
  ⟨le_refl, fun _ _ _ => le_trans, causality_mirror, concurrent_iff, isLUB_merge,
    fun _ _ => mergeAll_perm⟩

/-- Two clocks that each lead on one peer are concurrent, and their merge is above both. -/
example : (default.observe "a" "2").causality (default.observe "b" "1") = .concurrent ∧
    (default.observe "a" "2").causality
      ((default.observe "a" "2").merge (default.observe "b" "1")) = .happensBefore := by
  decide

end VectorClock
end AiMemory.Crdt
