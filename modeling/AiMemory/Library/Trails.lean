import AiMemory.Library.BoundedWalk
import Mathlib.Data.List.Chain
import Mathlib.Data.List.Nodup
import Mathlib.Data.Nat.Find

/-
This file develops the trails that grow by one hop a round and turn back to none of their nodes.
-/

namespace AiMemory.Library
open Relation

universe u v

section Distance

variable {Node : Type u} {edge : Node → Node → Prop}

/-- A hop before a walk lengthens it by one. -/
theorem Hops.prepend {count : Nat} {first second third : Node} (step : edge first second)
    (walk : Hops edge count second third) : Hops edge (count + 1) first third := by
  induction walk with
  | start => exact .hop (.start _) step
  | hop _ last ih => exact .hop (ih step) last

/-- A walk backwards has as many hops. -/
theorem Hops.flip {count : Nat} {first last : Node} (walk : Hops edge count first last) :
    Hops (fun source target => edge target source) count last first := by
  induction walk with
  | start => exact .start _
  | hop _ step ih => exact ih.prepend step

theorem exists_hops {first last : Node} (reached : ReflTransGen edge first last) :
    ∃ count, Hops edge count first last := by
  induction reached with
  | refl => exact ⟨0, .start _⟩
  | tail _ step ih =>
      obtain ⟨count, walk⟩ := ih
      exact ⟨count + 1, walk.hop step⟩

/-- No walk between the same two nodes takes fewer hops. -/
structure Shortest (edge : Node → Node → Prop) (count : Nat) (first last : Node) : Prop where
  walk : Hops edge count first last
  least : ∀ fewer, Hops edge fewer first last → count ≤ fewer

/-- A shortest walk backwards is a shortest walk. -/
theorem shortest_flip_iff {count : Nat} {first last : Node} :
    Shortest (fun source target => edge target source) count last first ↔ Shortest edge count first last :=
  ⟨fun here => ⟨here.walk.flip, fun fewer walk => here.least fewer walk.flip⟩,
    fun here => ⟨here.walk.flip, fun fewer walk => here.least fewer walk.flip⟩⟩

/-- A node that is reached has a shortest walk. -/
theorem exists_shortest {first last : Node} (reached : ReflTransGen edge first last) :
    ∃ count, Shortest edge count first last := by
  classical
  have some := exists_hops reached
  exact ⟨Nat.find some, Nat.find_spec some, fun _ shorter => Nat.find_min' some shorter⟩

/-- A shortest walk of one hop or more goes on from a shortest walk. -/
theorem Shortest.before {count : Nat} {first last : Node} (here : Shortest edge (count + 1) first last) :
    ∃ middle, Shortest edge count first middle ∧ edge middle last := by
  obtain ⟨walk, least⟩ := here
  cases walk with
  | hop walk step =>
      refine ⟨_, ⟨walk, fun fewer shorter => ?_⟩, step⟩
      have := least (fewer + 1) (shorter.hop step)
      omega

theorem Shortest.zero_iff {first last : Node} : Shortest edge 0 first last ↔ first = last := by
  constructor
  · rintro ⟨walk, _⟩
    cases walk
    rfl
  · rintro rfl
    exact ⟨.start _, fun _ _ => Nat.zero_le _⟩

end Distance

/-- A trail knows the label of its last hop, where it stands and the nodes that it went through. -/
structure Trail (Label : Type v) (Node : Type u) where
  label : Label
  tip : Node
  nodes : List Node
  deriving DecidableEq, Repr

section Growth

variable {Label : Type v} {Node : Type u} [DecidableEq Node] (steps : Node → List (Label × Node))

/-- A trail goes on to each neighbour that it has not been to. -/
def Trail.grow (trail : Trail Label Node) : List (Trail Label Node) :=
  ((steps trail.tip).filter fun next => next.2 ∉ trail.nodes).map fun next =>
    ⟨next.1, next.2, trail.nodes ++ [next.2]⟩

def trailsAt (seeds : List (Trail Label Node)) : Nat → List (Trail Label Node)
  | 0 => seeds
  | round + 1 => (trailsAt seeds round).flatMap (Trail.grow steps)

/-- The trails of the first rounds, in the order in which they are found. -/
def trailsBelow (seeds : List (Trail Label Node)) (count : Nat) : List (Trail Label Node) :=
  (List.range count).flatMap (trailsAt steps seeds)

/-- The first hop from a root asks nothing. -/
def firstHops (root : Node) : List (Trail Label Node) :=
  (steps root).map fun next => ⟨next.1, next.2, [root, next.2]⟩

def NextTo (source target : Node) : Prop := ∃ label, (label, target) ∈ steps source

variable {steps} {trail grown : Trail Label Node} {seeds : List (Trail Label Node)} {root : Node} {round count : Nat}

@[simp] theorem Trail.mem_grow : grown ∈ trail.grow steps ↔
    (grown.label, grown.tip) ∈ steps trail.tip ∧ grown.tip ∉ trail.nodes ∧
      grown.nodes = trail.nodes ++ [grown.tip] := by
  obtain ⟨label, tip, nodes⟩ := grown
  simp only [Trail.grow, List.mem_map, List.mem_filter, decide_eq_true_eq, Trail.mk.injEq, Prod.exists]
  constructor
  · rintro ⟨_, _, ⟨step, fresh⟩, rfl, rfl, rfl⟩
    exact ⟨step, fresh, rfl⟩
  · rintro ⟨step, fresh, same⟩
    exact ⟨label, tip, ⟨step, fresh⟩, rfl, rfl, same.symm⟩

@[simp] theorem mem_trailsAt_succ : grown ∈ trailsAt steps seeds (round + 1) ↔
    ∃ trail ∈ trailsAt steps seeds round, grown ∈ trail.grow steps := by
  rw [trailsAt, List.mem_flatMap]

@[simp] theorem mem_trailsBelow : trail ∈ trailsBelow steps seeds count ↔
    ∃ round < count, trail ∈ trailsAt steps seeds round := by
  simp [trailsBelow]

omit [DecidableEq Node] in
@[simp] theorem mem_firstHops : trail ∈ firstHops steps root ↔
    (trail.label, trail.tip) ∈ steps root ∧ trail.nodes = [root, trail.tip] := by
  obtain ⟨label, tip, nodes⟩ := trail
  simp only [firstHops, List.mem_map, Trail.mk.injEq, Prod.exists]
  constructor
  · rintro ⟨_, _, step, rfl, rfl, rfl⟩
    exact ⟨step, rfl⟩
  · rintro ⟨step, same⟩
    exact ⟨label, tip, step, rfl, rfl, same.symm⟩

/-- What a trail of any round has gone through. -/
structure Trail.Walked (steps : Node → List (Label × Node)) (root : Node) (trail : Trail Label Node) : Prop where
  starts : trail.nodes.head? = some root
  follows : trail.nodes.IsChain (NextTo steps)
  last : ∃ before previous, trail.nodes = before ++ [previous, trail.tip] ∧ (trail.label, trail.tip) ∈ steps previous

/-- The nodes of a trail are apart, but its first hop may stay at the root. -/
structure Trail.Apart (root : Node) (nodes : List Node) : Prop where
  rest : nodes.tail.Nodup
  root : root ∉ nodes.tail.tail

/-- A grown trail was walked. -/
theorem Trail.Walked.grow {previous : Trail Label Node} (walked : previous.Walked steps root)
    (grown : trail ∈ previous.grow steps) : trail.Walked steps root := by
  obtain ⟨step, _, nodes⟩ := Trail.mem_grow.mp grown
  obtain ⟨starts, follows, before, second, shape, _⟩ := walked
  refine ⟨?_, ?_, before ++ [second], previous.tip, ?_, step⟩
  · rw [nodes, List.head?_append, starts, Option.some_or]
  · rw [nodes, List.isChain_append]
    refine ⟨follows, List.isChain_singleton _, ?_⟩
    intro last isLast next isNext
    rw [shape, List.getLast?_append] at isLast
    simp only [List.getLast?_cons_cons, List.getLast?_singleton, Option.some_or, Option.mem_def, Option.some.injEq,
      List.head?_cons] at isLast isNext
    subst isLast isNext
    exact ⟨_, step⟩
  · rw [nodes, shape]
    simp

omit [DecidableEq Node] in
/-- A first hop was walked. -/
theorem Trail.walked_firstHops (first : trail ∈ firstHops steps root) : trail.Walked steps root := by
  obtain ⟨step, nodes⟩ := mem_firstHops.mp first
  refine ⟨by rw [nodes, List.head?_cons], ?_, [], root, nodes, step⟩
  rw [nodes, List.isChain_pair]
  exact ⟨_, step⟩

omit [DecidableEq Node] in
/-- A trail that was walked and has a node before its last two has grown from one that was walked. -/
theorem Trail.Walked.shorten (walked : trail.Walked steps root) (long : 2 < trail.nodes.length) :
    ∃ previous : Trail Label Node, previous.Walked steps root ∧ trail.nodes = previous.nodes ++ [trail.tip] ∧
      (trail.label, trail.tip) ∈ steps previous.tip := by
  obtain ⟨starts, follows, before, second, shape, step⟩ := walked
  rcases List.eq_nil_or_concat before with rfl | ⟨earlier, third, rfl⟩
  · rw [shape] at long
    simp at long
  · have split : trail.nodes = (earlier ++ [third, second]) ++ [trail.tip] := by simp [shape]
    rw [split] at starts follows
    obtain ⟨inside, _, _⟩ := List.isChain_append.mp follows
    obtain ⟨label, reached⟩ : NextTo steps third second := by
      obtain ⟨_, last, _⟩ := List.isChain_append.mp inside
      exact List.isChain_pair.mp last
    refine ⟨⟨label, second, earlier ++ [third, second]⟩, ⟨?_, inside, earlier, third, rfl, reached⟩, split, step⟩
    rwa [List.head?_append_of_ne_nil _ (by simp)] at starts

omit [DecidableEq Node] in
/-- A trail with one more node stays apart exactly when the node is new. -/
theorem Trail.apart_snoc_iff {nodes : List Node} {next : Node} (starts : nodes.head? = some root)
    (long : 1 < nodes.length) : Trail.Apart root (nodes ++ [next]) ↔ Trail.Apart root nodes ∧ next ∉ nodes := by
  obtain ⟨second, rest, rfl⟩ : ∃ second rest, nodes = root :: second :: rest := by
    match nodes, starts, long with
    | _ :: second :: rest, starts, _ =>
        rw [List.head?_cons, Option.some.injEq] at starts
        exact ⟨second, rest, by rw [starts]⟩
  constructor
  · rintro ⟨rest, root⟩
    simp only [List.cons_append, List.tail_cons, List.nodup_cons, List.mem_append, List.mem_singleton, not_or,
      List.nodup_append] at rest root
    refine ⟨⟨?_, ?_⟩, ?_⟩ <;> simp <;> grind
  · rintro ⟨⟨rest, root⟩, fresh⟩
    simp only [List.tail_cons, List.nodup_cons, List.mem_cons, not_or] at rest root fresh
    constructor <;> simp [List.nodup_append] <;> grind

/-- Seeds of one hop grow to all walks whose nodes are apart, whatever apart means for the first two. -/
theorem mem_trailsAt_iff {apart : List Node → Prop}
    (first : ∀ trail, trail ∈ seeds ↔ trail.Walked steps root ∧ apart trail.nodes ∧ trail.nodes.length = 2)
    (later : ∀ nodes next, nodes.head? = some root → 1 < nodes.length →
      (apart (nodes ++ [next]) ↔ apart nodes ∧ next ∉ nodes)) :
    trail ∈ trailsAt steps seeds round ↔
      trail.Walked steps root ∧ apart trail.nodes ∧ trail.nodes.length = round + 2 := by
  induction round generalizing trail with
  | zero => exact first trail
  | succ round ih =>
      rw [mem_trailsAt_succ]
      constructor
      · rintro ⟨previous, earlier, grown⟩
        obtain ⟨walked, apart, length⟩ := ih.mp earlier
        obtain ⟨_, fresh, nodes⟩ := Trail.mem_grow.mp grown
        refine ⟨walked.grow grown, ?_, ?_⟩
        · rw [nodes, later _ _ walked.starts (by omega)]
          exact ⟨apart, fresh⟩
        · rw [nodes, List.length_append, length, List.length_singleton]
      · rintro ⟨walked, apart, length⟩
        obtain ⟨previous, earlier, nodes, step⟩ := walked.shorten (by omega)
        have shorter : previous.nodes.length = round + 2 := by
          rw [nodes, List.length_append, List.length_singleton] at length
          omega
        rw [nodes, later _ _ earlier.starts (by omega)] at apart
        exact ⟨previous, ih.mpr ⟨earlier, apart.1, shorter⟩, Trail.mem_grow.mpr ⟨step, apart.2, nodes⟩⟩

omit [DecidableEq Node] in
/-- A trail of one hop is its root and its tip. -/
theorem Trail.walked_two_iff : trail.Walked steps root ∧ trail.nodes.length = 2 ↔
    (trail.label, trail.tip) ∈ steps root ∧ trail.nodes = [root, trail.tip] := by
  constructor
  · rintro ⟨⟨starts, _, before, previous, shape, step⟩, length⟩
    rw [shape] at length starts
    obtain rfl : before = [] := by
      apply List.eq_nil_of_length_eq_zero
      simpa using length
    obtain rfl : previous = root := by simpa using starts
    exact ⟨step, shape⟩
  · rintro ⟨step, nodes⟩
    exact ⟨Trail.walked_firstHops (mem_firstHops.mpr ⟨step, nodes⟩),
      by rw [nodes, List.length_cons, List.length_singleton]⟩

/-- The trails of a round from the first hops are the walks of its length whose nodes are apart. -/
theorem mem_trailsAt_firstHops_iff : trail ∈ trailsAt steps (firstHops steps root) round ↔
    trail.Walked steps root ∧ Trail.Apart root trail.nodes ∧ trail.nodes.length = round + 2 := by
  refine mem_trailsAt_iff (fun trail => ?_) (fun nodes next starts long => Trail.apart_snoc_iff starts long)
  rw [and_left_comm, Trail.walked_two_iff, mem_firstHops, iff_and_self]
  rintro ⟨_, nodes⟩
  rw [nodes]
  exact ⟨List.nodup_singleton _, List.not_mem_nil⟩

/-- A seed that stands alone at the root grows to the walks that visit no node twice. -/
theorem mem_trailsAt_alone_iff {label : Label} : trail ∈ trailsAt steps [⟨label, root, [root]⟩] (round + 1) ↔
    trail.Walked steps root ∧ trail.nodes.Nodup ∧ trail.nodes.length = round + 2 := by
  have shift (round : Nat) : trailsAt steps [⟨label, root, [root]⟩] (round + 1) =
      trailsAt steps (Trail.grow steps ⟨label, root, [root]⟩) round := by
    induction round with
    | zero => simp [trailsAt]
    | succ round ih => rw [trailsAt, ih, trailsAt]
  rw [shift]
  refine mem_trailsAt_iff (fun trail => ?_) (fun nodes next _ _ => ?_)
  · rw [and_left_comm, Trail.walked_two_iff, Trail.mem_grow, List.mem_singleton]
    constructor
    · rintro ⟨step, fresh, nodes⟩
      refine ⟨?_, step, nodes⟩
      rw [nodes]
      simpa using Ne.symm fresh
    · rintro ⟨lone, step, nodes⟩
      rw [nodes] at lone
      refine ⟨step, ?_, nodes⟩
      simpa using Ne.symm (by simpa using lone)
  · rw [List.nodup_append]
    constructor
    · rintro ⟨lone, _, apart⟩
      exact ⟨lone, fun present => apart next present next (List.mem_singleton_self _) rfl⟩
    · rintro ⟨lone, fresh⟩
      refine ⟨lone, List.nodup_singleton _, ?_⟩
      rintro node present other isNext rfl
      exact fresh (List.mem_singleton.mp isNext ▸ present)

/-- A trail of a round has taken as many hops, and its nodes are within them. -/
theorem hops_trailsAt_firstHops (grown : trail ∈ trailsAt steps (firstHops steps root) round) :
    Hops (NextTo steps) (round + 1) root trail.tip ∧
      ∀ node ∈ trail.nodes, ∃ count ≤ round + 1, Hops (NextTo steps) count root node := by
  induction round generalizing trail with
  | zero =>
      obtain ⟨step, nodes⟩ := mem_firstHops.mp grown
      have walk : Hops (NextTo steps) 1 root trail.tip := (Hops.start root).hop ⟨_, step⟩
      refine ⟨walk, ?_⟩
      rw [nodes]
      intro node present
      rcases List.mem_pair.mp present with rfl | rfl
      · exact ⟨0, Nat.zero_le _, .start _⟩
      · exact ⟨1, Nat.le_refl _, walk⟩
  | succ round ih =>
      obtain ⟨previous, earlier, grown⟩ := mem_trailsAt_succ.mp grown
      obtain ⟨step, _, nodes⟩ := Trail.mem_grow.mp grown
      obtain ⟨walk, within⟩ := ih earlier
      have longer := walk.hop ⟨_, step⟩
      refine ⟨longer, ?_⟩
      rw [nodes]
      intro node present
      rcases List.mem_append.mp present with old | new
      · obtain ⟨count, low, walk⟩ := within node old
        exact ⟨count, by omega, walk⟩
      · rw [List.mem_singleton.mp new]
        exact ⟨round + 2, Nat.le_refl _, longer⟩

/-- A node that is as many hops away at the least ends a trail of that round. -/
theorem exists_trail_of_shortest {node : Node} (shortest : Shortest (NextTo steps) (round + 1) root node) :
    ∃ trail ∈ trailsAt steps (firstHops steps root) round, trail.tip = node := by
  induction round generalizing node with
  | zero =>
      obtain ⟨middle, start, label, step⟩ := shortest.before
      obtain rfl := Shortest.zero_iff.mp start
      exact ⟨⟨label, node, [root, node]⟩, mem_firstHops.mpr ⟨step, rfl⟩, rfl⟩
  | succ round ih =>
      obtain ⟨middle, before, label, step⟩ := shortest.before
      obtain ⟨trail, earlier, rfl⟩ := ih before
      refine ⟨⟨label, node, trail.nodes ++ [node]⟩, mem_trailsAt_succ.mpr ⟨trail, earlier, ?_⟩, rfl⟩
      refine Trail.mem_grow.mpr ⟨step, fun present => ?_, rfl⟩
      obtain ⟨count, low, walk⟩ := (hops_trailsAt_firstHops earlier).2 node present
      have := shortest.least count walk
      omega

/-- Only the first hop comes back to the root. -/
theorem tip_ne_root (grown : trail ∈ trailsAt steps (firstHops steps root) (round + 1)) : trail.tip ≠ root := by
  obtain ⟨previous, earlier, grown⟩ := mem_trailsAt_succ.mp grown
  have starts := (mem_trailsAt_firstHops_iff.mp earlier).1.starts
  exact fun same => (Trail.mem_grow.mp grown).2.1 (same ▸ List.mem_of_mem_head? starts)

/-- Where a hop has no label but its target, no two trails of a round went through the same nodes. -/
theorem nodup_trailsAt [Subsingleton Label] (distinct : ∀ node, (steps node).Nodup)
    (first : (seeds.map Trail.nodes).Nodup) (round : Nat) : ((trailsAt steps seeds round).map Trail.nodes).Nodup := by
  induction round with
  | zero => exact first
  | succ round ih =>
      rw [trailsAt, List.map_flatMap, List.nodup_flatMap]
      constructor
      · intro trail _
        rw [Trail.grow, List.map_map]
        apply List.Nodup.map_on _ ((distinct trail.tip).filter _)
        intro one _ other _ same
        have tips := List.append_inj_right' same rfl
        exact Prod.ext (Subsingleton.elim _ _) (List.singleton_inj.mp tips)
      · refine (List.pairwise_map.mp ih).imp ?_
        intro one other apart nodes fromOne fromOther
        obtain ⟨first, grown, rfl⟩ := List.mem_map.mp fromOne
        obtain ⟨second, regrown, same⟩ := List.mem_map.mp fromOther
        rw [(Trail.mem_grow.mp grown).2.2, (Trail.mem_grow.mp regrown).2.2] at same
        exact apart (List.append_inj_left' same rfl).symm

/-- No trail is listed twice where no hop is. -/
theorem nodup_trailsBelow [Subsingleton Label] (distinct : ∀ node, (steps node).Nodup)
    (first : (seeds.map Trail.nodes).Nodup)
    (length : ∀ round, ∀ trail ∈ trailsAt steps seeds round, trail.nodes.length = round + 1) :
    ((trailsBelow steps seeds count).map Trail.nodes).Nodup := by
  rw [trailsBelow, List.map_flatMap, List.nodup_flatMap]
  refine ⟨fun round _ => nodup_trailsAt distinct first round, ?_⟩
  refine List.nodup_range.imp ?_
  intro one other apart nodes fromOne fromOther
  obtain ⟨first, grown, rfl⟩ := List.mem_map.mp fromOne
  obtain ⟨second, regrown, same⟩ := List.mem_map.mp fromOther
  have here := length one first grown
  have there := length other second regrown
  rw [same] at there
  omega

end Growth
end AiMemory.Library
