import AiMemory.Library.BoundedWalk
import AiMemory.Links.CycleCheck

/-
This file proves that the bounded walk is exact within its bound, and that the path it reports is a cycle.
-/

namespace AiMemory.Links
open AiMemory.Library Relation

section Trace

variable (edge : String → String → Prop) (targetId : String)

/-- Each entry leads over an edge from the target or from an older entry. -/
def Traced : Predecessors → Prop
  | [] => True
  | (node, earlier) :: older =>
      (node ≠ targetId ∧ node ∉ older.map Prod.fst) ∧ edge earlier node ∧
        (earlier = targetId ∨ earlier ∈ older.map Prod.fst) ∧ Traced older

variable {edge targetId} {predecessor : Predecessors}

/-- The search starts at the target, so nothing precedes it. -/
theorem Traced.target_absent (traced : Traced edge targetId predecessor) :
    predecessor.lookup targetId = none := by
  induction predecessor with
  | nil => rfl
  | cons entry older ih =>
      obtain ⟨⟨other, _⟩, _, _, older⟩ := traced
      rw [List.lookup_cons, beq_false_of_ne (Ne.symm other)]
      exact ih older

/-- The path back stops at the target. -/
theorem predecessorsOf_target (traced : Traced edge targetId predecessor) (hops : Nat) :
    predecessorsOf targetId predecessor hops targetId = [] := by
  cases hops with
  | zero => rfl
  | succ hops => rw [predecessorsOf, traced.target_absent]

/-- The predecessor of a node has an edge to it. -/
theorem Traced.lookup (traced : Traced edge targetId predecessor) {node earlier : String}
    (found : predecessor.lookup node = some earlier) :
    edge earlier node ∧ (earlier = targetId ∨ earlier ∈ predecessor.map Prod.fst) := by
  induction predecessor with
  | nil => cases found
  | cons entry older ih =>
      obtain ⟨_, step, origin, traced⟩ := traced
      rw [List.lookup_cons] at found
      split at found
      · rename_i same
        rw [eq_of_beq same, ← Option.some.inj found]
        exact ⟨step, origin.imp_right (List.mem_cons_of_mem _)⟩
      · obtain ⟨step, origin⟩ := ih traced found
        exact ⟨step, origin.imp_right (List.mem_cons_of_mem _)⟩

/-- The newest entry is not met on the way back from an older node. -/
theorem predecessorsOf_older {entry : String × String} (traced : Traced edge targetId (entry :: predecessor))
    (hops : Nat) {node : String} (old : node = targetId ∨ node ∈ predecessor.map Prod.fst) :
    predecessorsOf targetId (entry :: predecessor) hops node =
      predecessorsOf targetId predecessor hops node := by
  have older := traced.2.2.2
  induction hops generalizing node with
  | zero => rfl
  | succ hops ih =>
      have differs : node ≠ entry.1 := by
        rintro rfl
        rcases old with same | listed
        · exact traced.1.1 same
        · exact traced.1.2 listed
      rw [predecessorsOf, predecessorsOf, List.lookup_cons, beq_false_of_ne differs]
      simp only
      cases found : predecessor.lookup node with
      | none => rfl
      | some earlier => simp only [ih (older.lookup found).2]

/-- The way back from a traced node follows the edges down to the target. -/
theorem predecessorsOf_chain (traced : Traced edge targetId predecessor) {hops : Nat}
    (enough : predecessor.length ≤ hops) {node : String}
    (known : node = targetId ∨ node ∈ predecessor.map Prod.fst) :
    (node :: predecessorsOf targetId predecessor hops node).IsChain (flip edge) ∧
      (node :: predecessorsOf targetId predecessor hops node).getLast? = some targetId := by
  induction predecessor generalizing hops node with
  | nil =>
      rcases known with rfl | none
      · rw [predecessorsOf_target traced]
        exact ⟨List.isChain_singleton _, rfl⟩
      · cases none
  | cons entry older ih =>
      by_cases old : node = targetId ∨ node ∈ older.map Prod.fst
      · rw [predecessorsOf_older traced hops old]
        exact ih traced.2.2.2 (by simp only [List.length_cons] at enough; omega) old
      · obtain ⟨_, step, origin, rest⟩ := traced
        have newest : node = entry.1 := by
          rcases known with same | listed
          · exact absurd (.inl same) old
          · rcases List.mem_cons.mp listed with same | listed
            · exact same
            · exact absurd (.inr listed) old
        cases hops with
        | zero => cases enough
        | succ hops =>
            have onward := @ih rest hops (by simp only [List.length_cons] at enough; omega) entry.2 origin
            rw [predecessorsOf, newest, List.lookup_cons, beq_self_eq_true]
            simp only
            by_cases arrived : entry.2 = targetId
            · rw [if_pos arrived, arrived]
              exact ⟨List.isChain_pair.mpr (arrived ▸ step), rfl⟩
            · rw [if_neg arrived, predecessorsOf_older ⟨by assumption, step, origin, rest⟩ hops origin,
                List.getLast?_cons_cons]
              exact ⟨List.isChain_cons_cons.mpr ⟨step, onward.1⟩, onward.2⟩

/-- The reconstructed path closes over the edge from the found node to the source. -/
theorem reconstructPath_closed (traced : Traced edge targetId predecessor) {sourceId foundAt : String}
    (known : foundAt = targetId ∨ foundAt ∈ predecessor.map Prod.fst) (step : edge foundAt sourceId) :
    ClosedWalk edge sourceId targetId (reconstructPath sourceId targetId foundAt predecessor) := by
  obtain ⟨chain, last⟩ := predecessorsOf_chain traced Nat.le.refl known
  obtain ⟨back, split⟩ := List.getLast?_eq_some_iff.mp last
  rw [reconstructPath]
  refine ⟨⟨back.reverse ++ [sourceId], ?_⟩, ?_, ?_⟩
  · rw [split, List.reverse_append, List.reverse_singleton]
    rfl
  · rw [List.cons_append, ← List.cons_append, List.getLast?_append_of_ne_nil _ (List.cons_ne_nil _ _)]
    rfl
  · rw [List.cons_append, List.tail_cons, List.isChain_append]
    refine ⟨List.isChain_reverse.mpr chain, List.isChain_singleton _, fun first found second only => ?_⟩
    rw [List.getLast?_reverse, List.head?_cons] at found
    rw [List.head?_cons] at only
    rw [← Option.some.inj found, ← Option.some.inj only]
    exact step

end Trace

section Rounds

variable (edge : String → String → Prop) (sourceId targetId : String)

/-- The visited nodes are the target and the nodes with an entry. -/
structure Trailed (walk : Walk) : Prop where
  traced : Traced edge targetId walk.predecessor
  known : ∀ node, node ∈ walk.visited ↔ node = targetId ∨ node ∈ walk.predecessor.map Prod.fst

variable {edge sourceId targetId} {Error : Type} {current : String}

/-- Every visited node is reached from the target. -/
theorem Trailed.reached {walk : Walk} (trailed : Trailed edge targetId walk) {node : String}
    (seen : node ∈ walk.visited) : ReflTransGen edge targetId node := by
  obtain ⟨chain, last⟩ := predecessorsOf_chain trailed.traced Nat.le.refl ((trailed.known node).mp seen)
  exact reflTransGen_swap.mp (reached_of_isChain chain (List.mem_of_getLast? last))

/-- An entry for an unvisited neighbour of a visited node keeps the trail. -/
theorem Trailed.visit {walk : Walk} (trailed : Trailed edge targetId walk) (seen : current ∈ walk.visited)
    {neighbor : String} (step : edge current neighbor) (unseen : neighbor ∉ walk.visited)
    (nextFrontier : List String) :
    Trailed edge targetId ⟨neighbor :: walk.visited, (neighbor, current) :: walk.predecessor, nextFrontier⟩ := by
  refine ⟨⟨?_, step, (trailed.known current).mp seen, trailed.traced⟩, fun node => ?_⟩
  · rw [trailed.known, not_or] at unseen
    exact unseen
  · simp only [List.mem_cons, List.map_cons, trailed.known]
    exact or_left_comm

/-- Over the neighbours of a visited node the trail is kept, and a reported path is closed. -/
theorem trailed_visitNeighbors {step : List String} (steps : ∀ next ∈ step, edge current next) {before : Walk}
    (trailed : Trailed edge targetId before) (seen : current ∈ before.visited) :
    (∀ after, visitNeighbors sourceId targetId current step before = (.ok after : Except (WalkStop Error) Walk) →
        Trailed edge targetId after) ∧
      ∀ path, visitNeighbors sourceId targetId current step before =
          (.error (.cycle path) : Except (WalkStop Error) Walk) → ClosedWalk edge sourceId targetId path := by
  induction step generalizing before with
  | nil =>
      refine ⟨fun after ok => ?_, fun path stop => ?_⟩
      · rw [← Except.ok.inj ok]
        exact trailed
      · cases stop
  | cons neighbor rest ih =>
      have here := steps neighbor List.mem_cons_self
      have later (next : String) (listed : next ∈ rest) : edge current next :=
        steps next (List.mem_cons_of_mem _ listed)
      rw [visitNeighbors]
      split_ifs with found known
      · refine ⟨fun after ok => ?_, fun path stop => ?_⟩
        · cases ok
        · rw [← WalkStop.cycle.inj (Except.error.inj stop)]
          exact reconstructPath_closed trailed.traced ((trailed.known current).mp seen) (found ▸ here)
      · exact ih later trailed seen
      · exact ih later (trailed.visit seen here known _) (List.mem_cons_of_mem _ seen)

variable {adjacency : String → List String}

/-- A round over visited nodes keeps the trail, and a path that it reports is closed. -/
theorem trailed_visitFrontier {frontier : List String} {before : Walk}
    (trailed : Trailed (fun node next => next ∈ adjacency node) targetId before)
    (waits : ∀ node ∈ frontier, node ∈ before.visited) :
    (∀ after, visitFrontier sourceId targetId (fun node => .ok (adjacency node)) frontier before =
          (.ok after : Except (WalkStop Error) Walk) →
        Trailed (fun node next => next ∈ adjacency node) targetId after) ∧
      ∀ path, visitFrontier sourceId targetId (fun node => .ok (adjacency node)) frontier before =
          (.error (.cycle path) : Except (WalkStop Error) Walk) →
        ClosedWalk (fun node next => next ∈ adjacency node) sourceId targetId path := by
  induction frontier generalizing before with
  | nil =>
      refine ⟨fun after ok => ?_, fun path stop => ?_⟩
      · rw [← Except.ok.inj ok]
        exact trailed
      · cases stop
  | cons current rest ih =>
      have both := @trailed_visitNeighbors _ sourceId targetId Error current (adjacency current)
        (fun _ listed => listed) before trailed (waits current List.mem_cons_self)
      rw [visitFrontier]
      simp only
      cases inner : (visitNeighbors sourceId targetId current (adjacency current) before :
          Except (WalkStop Error) Walk) with
      | error stop =>
          refine ⟨fun after ok => ?_, fun path same => both.2 path ?_⟩
          · cases ok
          · rw [inner, ← Except.error.inj same]
      | ok walk =>
          have grows := (visited_visitNeighbors inner).grows
          exact ih (both.1 walk inner) fun node listed =>
            (grows node).mpr (.inl (waits node (List.mem_cons_of_mem _ listed)))

/-- A total lookup never fails the round. -/
theorem visitFrontier_total {error : Error} (frontier : List String) (before : Walk) :
    visitFrontier sourceId targetId (fun node => .ok (adjacency node)) frontier before ≠
      .error (.failed error) := by
  have inner (current : String) (step : List String) (before : Walk) :
      visitNeighbors sourceId targetId current step before ≠ .error (.failed error) := by
    induction step generalizing before with
    | nil => exact fun same => by cases same
    | cons neighbor rest ih =>
        rw [visitNeighbors]
        split_ifs
        · exact fun same => by cases same
        · exact ih _
        · exact ih _
  induction frontier generalizing before with
  | nil => exact fun same => by cases same
  | cons current rest ih =>
      rw [visitFrontier]
      simp only
      cases step : visitNeighbors sourceId targetId current (adjacency current) before with
      | error stop => exact fun same => inner _ _ _ (step.trans same)
      | ok walk => exact ih walk

/-- A node is queued at its first visit. -/
structure Queued (before after : Walk) : Prop where
  grows : ∀ node ∈ before.visited, node ∈ after.visited
  fresh : ∀ node ∈ after.nextFrontier, node ∈ before.nextFrontier ∨ node ∉ before.visited ∧ node ∈ after.visited

/-- What is queued stays queued. -/
theorem Queued.trans {first second third : Walk} (one : Queued first second) (two : Queued second third) :
    Queued first third := by
  refine ⟨fun node seen => two.grows node (one.grows node seen), fun node queued => ?_⟩
  rcases two.fresh node queued with before | ⟨unseen, seen⟩
  · exact (one.fresh node before).imp_right fun late => ⟨late.1, two.grows node late.2⟩
  · exact .inr ⟨fun early => unseen (one.grows node early), seen⟩

/-- A visit queues what it finds. -/
theorem queued_visitNeighbors {step : List String} {before after : Walk}
    (ok : visitNeighbors sourceId targetId current step before = (.ok after : Except (WalkStop Error) Walk)) :
    Queued before after := by
  induction step generalizing before with
  | nil =>
      rw [← Except.ok.inj ok]
      exact ⟨fun _ seen => seen, fun _ queued => .inl queued⟩
  | cons neighbor rest ih =>
      rw [visitNeighbors] at ok
      split_ifs at ok with found known
      · exact ih ok
      · refine Queued.trans ⟨fun node seen => List.mem_cons_of_mem _ seen, fun node queued => ?_⟩ (ih ok)
        rcases List.mem_append.mp queued with old | new
        · exact .inl old
        · rw [List.mem_singleton.mp new]
          exact .inr ⟨known, List.mem_cons_self⟩

/-- A frontier queues what it finds. -/
theorem queued_visitFrontier {neighbors : String → Except Error (List String)} {frontier : List String}
    {before after : Walk} (ok : visitFrontier sourceId targetId neighbors frontier before = .ok after) :
    Queued before after := by
  induction frontier generalizing before with
  | nil =>
      rw [← Except.ok.inj ok]
      exact ⟨fun _ seen => seen, fun _ queued => .inl queued⟩
  | cons current rest ih =>
      rw [visitFrontier] at ok
      split at ok
      · contradiction
      · cases inner : visitNeighbors sourceId targetId current _ before with
        | error stop =>
            rw [inner] at ok
            contradiction
        | ok walk =>
            rw [inner] at ok
            exact (queued_visitNeighbors inner).trans (ih ok)

end Rounds

section Levels

variable (adjacency : String → List String) (sourceId targetId : String)

/-- The graph that a total lookup of the neighbours gives. -/
def Adjacent (node next : String) : Prop := next ∈ adjacency node

/-- After some rounds the walk has visited all within as many hops, and its frontier is no nearer. -/
structure Level (depth : Nat) (frontier : List String) (walk : Walk) : Prop where
  explored : Explored (Adjacent adjacency) sourceId targetId frontier { walk with nextFrontier := [] }
  trailed : Trailed (Adjacent adjacency) targetId walk
  waits : ∀ node ∈ frontier, node ∈ walk.visited
  near : ∀ node count, count ≤ depth → Hops (Adjacent adjacency) count targetId node → node ∈ walk.visited
  far : ∀ node ∈ frontier, ∀ count, Hops (Adjacent adjacency) count targetId node → depth ≤ count

variable {adjacency sourceId targetId} {Error : Type}

/-- The first level holds the target only. -/
theorem level_start (differs : sourceId ≠ targetId) :
    Level adjacency sourceId targetId 0 [targetId] ⟨[targetId], [], []⟩ := by
  refine ⟨⟨List.mem_cons_self, by simpa using differs, fun node seen => .inl seen⟩, ⟨trivial, ?_⟩,
    fun _ listed => listed, fun node count none walk => ?_, fun _ _ _ _ => Nat.zero_le _⟩
  · simp
  · cases walk with
    | start => exact List.mem_cons_self
    | hop _ _ => cases none

/-- A round that does not meet the source goes one level further. -/
theorem Level.round {depth : Nat} {frontier : List String} {walk after : Walk}
    (level : Level adjacency sourceId targetId depth frontier walk)
    (ok : visitFrontier sourceId targetId (fun node => .ok (adjacency node)) frontier
      { walk with nextFrontier := [] } = (.ok after : Except (WalkStop Error) Walk)) :
    Level adjacency sourceId targetId (depth + 1) after.nextFrontier after := by
  have reads (node : String) (found : List String)
      (read : (.ok (adjacency node) : Except Error (List String)) = .ok found) (next : String)
      (step : Adjacent adjacency node next) : next ∈ found := by
    rw [← Except.ok.inj read]
    exact step
  have explored := explored_visitFrontier reads level.explored ok
  have queued := queued_visitFrontier ok
  have fresh (node : String) (listed : node ∈ after.nextFrontier) :
      node ∉ walk.visited ∧ node ∈ after.visited :=
    (queued.fresh node listed).resolve_left List.not_mem_nil
  have trail : Trailed (Adjacent adjacency) targetId { walk with nextFrontier := [] } :=
    ⟨level.trailed.traced, level.trailed.known⟩
  refine ⟨⟨explored.starts, explored.avoids, fun node seen => ?_⟩,
    (trailed_visitFrontier trail level.waits).1 after ok, fun node listed => (fresh node listed).2,
    fun node count within walked => ?_, fun node listed count walked => ?_⟩
  · rcases explored.closed node seen with none | waits | done
    · cases none
    · exact .inl waits
    · exact .inr (.inr done)
  · cases walked with
    | start => exact explored.starts
    | hop earlier step =>
        -- The node before the last hop was visited earlier, so its neighbours are visited by now.
        have before := level.near _ _ (Nat.le_of_succ_le_succ within) earlier
        rcases explored.closed _ (queued.grows _ before) with none | waits | done
        · cases none
        · exact absurd before (fresh _ waits).1
        · exact done node step
  · by_contra nearer
    exact (fresh node listed).1 (level.near node count (by omega) walked)

/-- The answer of the walk from a level on. -/
structure Answered (bound : Nat) (result : CycleCheckResult) : Prop where
  sound : result.wouldCycle = false → ¬ ReflTransGen (Adjacent adjacency) targetId sourceId
  exact : (∀ node, ReflTransGen (Adjacent adjacency) targetId node →
      ∃ count ≤ bound - 1, Hops (Adjacent adjacency) count targetId node) →
    (result.wouldCycle = true ↔ ReflTransGen (Adjacent adjacency) targetId sourceId) ∧
      (result.wouldCycle = true → ClosedWalk (Adjacent adjacency) sourceId targetId result.cyclePath)

/-- A closed walk answers the search with a cycle. -/
theorem answered_of_closed {bound : Nat} {path : List String}
    (closed : ClosedWalk (Adjacent adjacency) sourceId targetId path) :
    @Answered adjacency sourceId targetId bound ⟨true, path⟩ :=
  ⟨fun none => Bool.noConfusion none, fun _ => ⟨iff_of_true rfl closed.reached, fun _ => closed⟩⟩

/-- A walk that ends on an empty frontier has not met the source. -/
theorem Level.ended {depth bound : Nat} {walk : Walk} (level : Level adjacency sourceId targetId depth [] walk) :
    @Answered adjacency sourceId targetId bound ⟨false, []⟩ :=
  ⟨fun _ => level.explored.unreached, fun _ =>
    ⟨iff_of_false (by decide) level.explored.unreached, fun met => Bool.noConfusion met⟩⟩

/-- From every level on the walk answers, and it stops at the ceiling only above a node that is too far away. -/
theorem answered_walkLoop {rounds depth bound : Nat} (left : depth + rounds = bound) (positive : 0 < bound)
    {frontier : List String} {walk : Walk} (level : Level adjacency sourceId targetId depth frontier walk) :
    ∃ result, walkLoop sourceId targetId (fun node => .ok (adjacency node)) rounds frontier walk =
        (.ok result : Except Error CycleCheckResult) ∧ @Answered adjacency sourceId targetId bound result := by
  induction rounds generalizing depth frontier walk with
  | zero =>
      cases frontier with
      | nil => exact ⟨_, rfl, level.ended⟩
      | cons current rest =>
          refine ⟨_, rfl, fun none => Bool.noConfusion none, fun within => ?_⟩
          -- The frontier at the ceiling is beyond the bound.
          have reached := level.trailed.reached (level.waits current List.mem_cons_self)
          obtain ⟨count, few, walked⟩ := within current reached
          have far := level.far current List.mem_cons_self count walked
          omega
  | succ rounds ih =>
      cases frontier with
      | nil => exact ⟨_, rfl, level.ended⟩
      | cons current rest =>
          rw [walkLoop]
          have waits : ∀ node ∈ current :: rest, node ∈ ({ walk with nextFrontier := [] } : Walk).visited := level.waits
          have trail : Trailed (Adjacent adjacency) targetId { walk with nextFrontier := [] } :=
            ⟨level.trailed.traced, level.trailed.known⟩
          cases round : (visitFrontier sourceId targetId (fun node => .ok (adjacency node)) (current :: rest)
              { walk with nextFrontier := [] } : Except (WalkStop Error) Walk) with
          | ok after => exact ih (by omega) (level.round round)
          | error stop =>
              cases stop with
              | cycle path => exact ⟨_, rfl, answered_of_closed ((trailed_visitFrontier trail waits).2 path round)⟩
              | failed error => exact absurd round (visitFrontier_total _ _)

theorem walkBound_pos (maxDepth : Nat) : 0 < walkBound maxDepth := by
  unfold walkBound defaultMaxDepth cycleDepthSafetyFactor
  split <;> omega

variable (adjacency sourceId targetId Error)

/-- The check is exact within its bound, it misses no cycle, and the path that it reports is one. -/
theorem wouldCreateReflectionCycleWith_exact (maxDepth : Nat) :
    ∃ result, wouldCreateReflectionCycleWith sourceId targetId (fun node => .ok (adjacency node)) maxDepth =
        (.ok result : Except Error CycleCheckResult) ∧
      @Answered adjacency sourceId targetId (walkBound maxDepth) result := by
  unfold wouldCreateReflectionCycleWith
  split_ifs with same
  · refine ⟨_, rfl, answered_of_closed ⟨⟨[], rfl⟩, ?_, List.isChain_singleton _⟩⟩
    rw [same]
    rfl
  · exact answered_walkLoop (Nat.zero_add _) (walkBound_pos maxDepth) (level_start same)

end Levels
end AiMemory.Links
