import AiMemory.Actions.Action
import AiMemory.Machine.Numbers
import Mathlib.Data.List.Sort

/-
This file embeds the dependency edges between the actions and the query for the unblocked frontier.
-/

namespace AiMemory.Actions
open AiMemory.Crdt AiMemory.Machine

inductive EdgeType where
  | requires
  | unlocks
  | blocks
  | gatedBy
  | sibling
  deriving DecidableEq

def EdgeType.asStr : EdgeType → String
  | .requires => "requires"
  | .unlocks => "unlocks"
  | .blocks => "blocks"
  | .gatedBy => "gated_by"
  | .sibling => "sibling"

/-- The column of the edge type is a text. -/
structure EdgeRow where
  fromAction : String
  toAction : String
  edgeType : String
  createdAt : Int
  deriving DecidableEq

/-- The tables of the actions and of the edges; an id names one action. -/
structure ActionGraph where
  actions : List (String × ActionRow)
  edges : List EdgeRow
  distinct : (actions.map Prod.fst).Nodup
  room : actions.length ≤ 2 ^ 63 - 1

namespace ActionGraph

variable (graph : ActionGraph)

/-- Some edge of the given types starts at the action and ends at an action that is not done. -/
def awaits (id : String) : Bool :=
  graph.edges.any fun edge => graph.actions.any fun other =>
    other.1 = edge.toAction ∧ edge.fromAction = id ∧
      (edge.edgeType = EdgeType.requires.asStr ∨ edge.edgeType = EdgeType.gatedBy.asStr) ∧
      other.2.state ≠ ActionState.done.asStr

/-- Some blocker of the action is still active. -/
def held (id : String) : Bool :=
  graph.edges.any fun edge => graph.actions.any fun other =>
    other.1 = edge.fromAction ∧ edge.toAction = id ∧ edge.edgeType = EdgeType.blocks.asStr ∧
      ¬ (other.2.state = ActionState.done.asStr ∨ other.2.state = ActionState.failed.asStr ∨
        other.2.state = ActionState.abandoned.asStr)

def frontierWhereTail («namespace» : String) (action : String × ActionRow) : Bool :=
  decide (action.2.namespace = «namespace») && decide (action.2.state = ActionState.pending.asStr) &&
    !graph.awaits action.1 && !graph.held action.1

/-- A higher priority comes first, and an earlier creation among equal priorities. -/
def precedes (first second : String × ActionRow) : Bool :=
  second.2.priority < first.2.priority ∨
    first.2.priority = second.2.priority ∧ first.2.createdAt ≤ second.2.createdAt

variable (readJson : String → Option Json)

/-- The limit is clamped to the range of a stored integer. -/
def frontier («namespace» : String) (limit : Nat) : List Action :=
  (((graph.actions.filter (graph.frontierWhereTail «namespace»)).insertionSort (precedes · ·)).take
    (min limit (2 ^ 63 - 1))).map fun action => rowToAction readJson action.1 action.2

/-- An agent sees the actions that have no owner and its own. -/
def claimable (agentId : Option String) (action : String × ActionRow) : Bool :=
  agentId.all fun agent => action.2.agentId = some agent ∨ action.2.agentId = none

def nextAction («namespace» : String) (agentId : Option String) : Option Action :=
  ((((graph.actions.filter fun action => graph.frontierWhereTail «namespace» action && claimable agentId action
    ).insertionSort (precedes · ·)).take 1).head?).map fun action => rowToAction readJson action.1 action.2

end ActionGraph

namespace ActionGraph

section Order

variable {readJson : String → Option Json} {graph : ActionGraph} {«namespace» : String}

/-- The frontier is listed in the order of precedence. -/
theorem precedes_sorted (actions : List (String × ActionRow)) :
    (actions.insertionSort (precedes · ·)).Pairwise (precedes · ·) := by
  have : Std.Total fun first second : String × ActionRow => precedes first second = true := by
    refine ⟨fun first second => ?_⟩
    simp only [precedes, decide_eq_true_eq]
    omega
  have : IsTrans (String × ActionRow) fun first second => precedes first second = true := by
    refine ⟨fun first second third low high => ?_⟩
    simp only [precedes, decide_eq_true_eq] at low high ⊢
    omega
  exact List.pairwise_insertionSort _ actions

/-- Without a limit the frontier lists the actions that pass the tail of the query. -/
theorem mem_frontier {limit : Nat} (unbounded : graph.actions.length ≤ limit) {action : Action} :
    action ∈ graph.frontier readJson «namespace» limit ↔
      ∃ stored ∈ graph.actions, graph.frontierWhereTail «namespace» stored = true ∧
        rowToAction readJson stored.1 stored.2 = action := by
  have fits : ((graph.actions.filter (graph.frontierWhereTail «namespace»)).insertionSort
      (precedes · ·)).length ≤ min limit (2 ^ 63 - 1) := by
    rw [List.length_insertionSort]
    have shorter := List.length_filter_le (graph.frontierWhereTail «namespace») graph.actions
    have room := graph.room
    omega
  rw [frontier, List.take_of_length_le fits]
  simp [List.mem_insertionSort, and_assoc]

/-- The next action heads the frontier. -/
theorem nextAction_eq {limit : Nat} (unbounded : graph.actions.length ≤ limit) :
    graph.nextAction readJson «namespace» none = (graph.frontier readJson «namespace» limit).head? := by
  rcases Nat.eq_zero_or_pos limit with rfl | positive
  · rw [nextAction, frontier, List.length_eq_zero_iff.mp (Nat.le_zero.mp unbounded)]
    rfl
  have everyone : (graph.actions.filter fun action =>
      graph.frontierWhereTail «namespace» action && claimable none action) =
      graph.actions.filter (graph.frontierWhereTail «namespace») := by
    simp [claimable]
  rw [nextAction, frontier, everyone, List.head?_map, List.head?_take, List.head?_take,
    if_neg (by decide), if_neg (by omega)]

/-- No action of the frontier has a higher priority than its head, or the same priority and an earlier creation. -/
theorem head_frontier {limit : Nat} {top : Action}
    (first : (graph.frontier readJson «namespace» limit).head? = some top) :
    ∀ other ∈ graph.frontier readJson «namespace» limit, other.priority ≤ top.priority ∧
      (other.priority = top.priority → top.createdAt ≤ other.createdAt) := by
  have sorted : (graph.frontier readJson «namespace» limit).Pairwise fun first second : Action =>
      second.priority ≤ first.priority ∧ (second.priority = first.priority → first.createdAt ≤ second.createdAt) := by
    refine List.pairwise_map.mpr (((precedes_sorted _).sublist (List.take_sublist _ _)).imp ?_)
    intro first second before
    simp only [precedes, decide_eq_true_eq] at before
    simp only [rowToAction]
    omega
  obtain ⟨rest, split⟩ := List.head?_eq_some_iff.mp first
  rw [split] at sorted ⊢
  intro other present
  rcases List.mem_cons.mp present with rfl | later
  · exact ⟨Int.le_refl _, fun _ => Int.le_refl _⟩
  · exact (List.pairwise_cons.mp sorted).1 other later

end Order

section Documented

variable (readJson : String → Option Json) (graph : ActionGraph) («namespace» : String)

def HasEdge (kind : EdgeType) (source target : String) : Prop :=
  ∃ edge ∈ graph.edges, edge.fromAction = source ∧ edge.toAction = target ∧ edge.edgeType = kind.asStr

instance (kind : EdgeType) (source target : String) : Decidable (graph.HasEdge kind source target) :=
  inferInstanceAs (Decidable (∃ _ ∈ _, _))

/-- The action is pending, and neither a requirement nor a blocker stops it. -/
structure Free (stored : String × ActionRow) : Prop where
  home : stored.2.namespace = «namespace»
  pending : stored.2.state = ActionState.pending.asStr
  required : ∀ other ∈ graph.actions, graph.HasEdge .requires stored.1 other.1 →
    other.2.state = ActionState.done.asStr
  released : ∀ other ∈ graph.actions, graph.HasEdge .blocks other.1 stored.1 →
    other.2.state = ActionState.done.asStr ∨ other.2.state = ActionState.failed.asStr ∨
      other.2.state = ActionState.abandoned.asStr

/-- The `to` of a gate is gated by its `from`. -/
def Opened (id : String) : Prop :=
  ∀ gate ∈ graph.actions, graph.HasEdge .gatedBy gate.1 id → gate.2.state = ActionState.done.asStr

/-- The query asks whether the targets of the gates are done that start at the action. -/
def GatesDone (id : String) : Prop :=
  ∀ gate ∈ graph.actions, graph.HasEdge .gatedBy id gate.1 → gate.2.state = ActionState.done.asStr

/-- Each kind of edge constrains an action as its type documents it. -/
structure FrontierExact : Prop where
  mem_iff : ∀ limit, graph.actions.length ≤ limit → ∀ action,
    action ∈ graph.frontier readJson «namespace» limit ↔
      ∃ stored ∈ graph.actions, (graph.Free «namespace» stored ∧ graph.Opened stored.1) ∧
        rowToAction readJson stored.1 stored.2 = action
  next_none : ∀ limit, graph.actions.length ≤ limit →
    (graph.nextAction readJson «namespace» none = none ↔ graph.frontier readJson «namespace» limit = [])
  next_some : ∀ limit, graph.actions.length ≤ limit → ∀ top,
    graph.nextAction readJson «namespace» none = some top →
      top ∈ graph.frontier readJson «namespace» limit ∧
        ∀ other ∈ graph.frontier readJson «namespace» limit, other.priority ≤ top.priority ∧
          (other.priority = top.priority → top.createdAt ≤ other.createdAt)

/-- For a free action, the gates into it are open exactly when the targets of its own gates are done. -/
def GatesAgree : Prop :=
  ∀ stored ∈ graph.actions, graph.Free «namespace» stored → (graph.Opened stored.1 ↔ graph.GatesDone stored.1)

variable {readJson graph «namespace»}

/-- An action awaits the targets of its requirements and of its gates. -/
theorem awaits_eq_false_iff (id : String) :
    graph.awaits id = false ↔
      (∀ other ∈ graph.actions, graph.HasEdge .requires id other.1 → other.2.state = ActionState.done.asStr) ∧
        graph.GatesDone id := by
  simp only [awaits, List.any_eq_false, Bool.not_eq_true, decide_eq_false_iff_not, GatesDone, HasEdge]
  constructor
  · intro clear
    constructor
    · rintro other stored ⟨edge, listed, source, target, kind⟩
      by_contra undone
      exact clear edge listed other stored ⟨target.symm, source, .inl kind, undone⟩
    · rintro other stored ⟨edge, listed, source, target, kind⟩
      by_contra undone
      exact clear edge listed other stored ⟨target.symm, source, .inr kind, undone⟩
  · rintro ⟨required, gates⟩ edge listed other stored ⟨target, source, kind | kind, undone⟩
    · exact undone (required other stored ⟨edge, listed, source, target.symm, kind⟩)
    · exact undone (gates other stored ⟨edge, listed, source, target.symm, kind⟩)

/-- An action is held by nothing when every action that blocks it has ended. -/
theorem held_eq_false_iff (id : String) :
    graph.held id = false ↔
      ∀ other ∈ graph.actions, graph.HasEdge .blocks other.1 id →
        other.2.state = ActionState.done.asStr ∨ other.2.state = ActionState.failed.asStr ∨
          other.2.state = ActionState.abandoned.asStr := by
  simp only [held, List.any_eq_false, Bool.not_eq_true, decide_eq_false_iff_not, HasEdge]
  constructor
  · rintro clear other stored ⟨edge, listed, source, target, kind⟩
    by_contra active
    exact clear edge listed other stored ⟨source.symm, target, kind, active⟩
  · rintro released edge listed other stored ⟨source, target, kind, active⟩
    exact active (released other stored ⟨edge, listed, source.symm, target, kind⟩)

/-- The tail of the query asks what the two conditions of a free action ask. -/
theorem frontierWhereTail_iff (stored : String × ActionRow) :
    graph.frontierWhereTail «namespace» stored = true ↔
      graph.Free «namespace» stored ∧ graph.GatesDone stored.1 := by
  simp only [frontierWhereTail, Bool.and_eq_true, decide_eq_true_eq, Bool.not_eq_true', awaits_eq_false_iff,
    held_eq_false_iff]
  constructor
  · rintro ⟨⟨⟨home, pending⟩, required, gates⟩, released⟩
    exact ⟨⟨home, pending, required, released⟩, gates⟩
  · rintro ⟨⟨home, pending, required, released⟩, gates⟩
    exact ⟨⟨⟨home, pending⟩, required, gates⟩, released⟩

theorem eq_of_rowToAction {first second : String × ActionRow} (firstStored : first ∈ graph.actions)
    (secondStored : second ∈ graph.actions)
    (same : rowToAction readJson first.1 first.2 = rowToAction readJson second.1 second.2) : first = second :=
  List.inj_on_of_nodup_map graph.distinct firstStored secondStored (congrArg Action.id same)

variable (readJson graph «namespace»)

/-- The frontier honours the documented edges exactly when the gates of its free actions agree. -/
theorem frontierExact_iff : graph.FrontierExact readJson «namespace» ↔ graph.GatesAgree «namespace» := by
  constructor
  · intro exact stored listed free
    have both := exact.mem_iff _ Nat.le.refl (rowToAction readJson stored.1 stored.2)
    rw [mem_frontier Nat.le.refl] at both
    constructor
    · intro opened
      obtain ⟨other, otherListed, passes, same⟩ := both.mpr ⟨stored, listed, ⟨free, opened⟩, rfl⟩
      rw [eq_of_rowToAction otherListed listed same] at passes
      exact ((frontierWhereTail_iff stored).mp passes).2
    · intro gates
      obtain ⟨other, otherListed, ⟨_, opened⟩, same⟩ :=
        both.mp ⟨stored, listed, (frontierWhereTail_iff stored).mpr ⟨free, gates⟩, rfl⟩
      rw [eq_of_rowToAction otherListed listed same] at opened
      exact opened
  · intro agree
    refine ⟨fun limit unbounded action => ?_, fun limit unbounded => ?_, fun limit unbounded top next => ?_⟩
    · rw [mem_frontier unbounded]
      refine exists_congr fun stored => and_congr_right fun listed => and_congr_left fun _ => ?_
      rw [frontierWhereTail_iff]
      exact and_congr_right fun free => (agree stored listed free).symm
    · rw [nextAction_eq unbounded, List.head?_eq_none_iff]
    · rw [nextAction_eq unbounded] at next
      exact ⟨List.mem_of_head? next, head_frontier next⟩

end Documented

section Samples

def sampleRow (state : ActionState) : ActionRow :=
  ⟨"team", "task", state.asStr, "", "\x7b\x7d", 5, none, none, "\x7b\x7d", "\x7b\x7d", 0, 0⟩

/-- The release is gated by the review, which is still pending. -/
def gatedGraph : ActionGraph where
  actions := [("release", sampleRow .pending), ("review", sampleRow .claimed)]
  edges := [⟨"review", "release", EdgeType.gatedBy.asStr, 0⟩]
  distinct := by decide
  room := by decide

/-- A gate that is not done does not hold the action that it gates. -/
theorem gatedGraph_not_exact :
    gatedGraph.HasEdge .gatedBy "review" "release" ∧ ¬ gatedGraph.Opened "release" ∧
      (gatedGraph.frontier (fun _ => none) "team" (2 ^ 64 - 1)).map Action.id = ["release"] ∧
      ¬ gatedGraph.FrontierExact (fun _ => none) "team" := by
  have shut : ¬ gatedGraph.Opened "release" := fun opened =>
    absurd (opened ("review", sampleRow .claimed) (by simp [gatedGraph]) (by decide)) (by decide)
  have listed : (gatedGraph.frontier (fun _ => none) "team" (2 ^ 64 - 1)).map Action.id = ["release"] := by
    decide +kernel
  refine ⟨by decide, shut, listed, fun exact => ?_⟩
  obtain ⟨action, present, named⟩ := List.mem_map.mp (listed ▸ List.mem_singleton_self "release")
  obtain ⟨stored, _, ⟨_, opened⟩, same⟩ := (exact.mem_iff _ (by decide) action).mp present
  have id : stored.1 = "release" := by rw [← named, ← same, rowToAction]
  exact shut (id ▸ opened)

end Samples
end ActionGraph
end AiMemory.Actions
