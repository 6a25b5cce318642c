import AiMemory.Library.Acyclic
import Mathlib.Algebra.Group.Nat.Defs
import Mathlib.Data.List.Basic

/-
This file embeds the bounded walk that refuses a link which would close a cycle.
-/

namespace AiMemory.Links
open AiMemory.Library Relation

section Model

/-- The path of a cycle starts and ends at the source. -/
structure CycleCheckResult where
  wouldCycle : Bool
  cyclePath : List String
  deriving DecidableEq, Repr

def defaultMaxDepth : Nat := 16

def cycleDepthSafetyFactor : Nat := 2

/-- The product saturates at the largest 32-bit number. -/
def walkBound (maxDepth : Nat) : Nat :=
  min ((if maxDepth = 0 then defaultMaxDepth else maxDepth) * cycleDepthSafetyFactor) (2 ^ 32 - 1)

/-- The node before each visited node, the newest first. -/
abbrev Predecessors := List (String × String)

/-- A node's predecessor was visited before it, so the hops are no more than the entries. -/
def predecessorsOf (targetId : String) (predecessor : Predecessors) : Nat → String → List String
  | 0, _ => []
  | hops + 1, current =>
      match predecessor.lookup current with
      | none => []
      | some earlier =>
          earlier :: if earlier = targetId then [] else predecessorsOf targetId predecessor hops earlier

def reconstructPath (sourceId targetId foundAt : String) (predecessor : Predecessors) : List String :=
  let segment := foundAt :: predecessorsOf targetId predecessor predecessor.length foundAt
  sourceId :: segment.reverse ++ [sourceId]

structure Walk where
  visited : List String
  predecessor : Predecessors
  nextFrontier : List String

/-- A walk ends early at a failed lookup or at the source. -/
inductive WalkStop (Error : Type) where
  | failed (error : Error)
  | cycle (path : List String)

variable {Error : Type}

/-- A node enters the next frontier at its first visit. -/
def visitNeighbors (sourceId targetId current : String) : List String → Walk → Except (WalkStop Error) Walk
  | [], walk => .ok walk
  | neighbor :: rest, walk =>
      if neighbor = sourceId then
        .error (.cycle (reconstructPath sourceId targetId current walk.predecessor))
      else if neighbor ∈ walk.visited then visitNeighbors sourceId targetId current rest walk
      else
        visitNeighbors sourceId targetId current rest
          ⟨neighbor :: walk.visited, (neighbor, current) :: walk.predecessor, walk.nextFrontier ++ [neighbor]⟩

variable (sourceId targetId : String) (neighbors : String → Except Error (List String))

/-- One round visits the neighbours of every node of the frontier. -/
def visitFrontier : List String → Walk → Except (WalkStop Error) Walk
  | [], walk => .ok walk
  | current :: rest, walk =>
      match neighbors current with
      | .error error => .error (.failed error)
      | .ok step => (visitNeighbors sourceId targetId current step walk).bind (visitFrontier rest)

/-- The walk that has rounds left goes on until its frontier is empty; at the ceiling it fails closed. -/
def walkLoop : Nat → List String → Walk → Except Error CycleCheckResult
  | _, [], _ => .ok ⟨false, []⟩
  | 0, _ :: _, _ => .ok ⟨true, [sourceId, targetId]⟩
  | rounds + 1, current :: rest, walk =>
      match visitFrontier sourceId targetId neighbors (current :: rest) { walk with nextFrontier := [] } with
      | .error (.failed error) => .error error
      | .error (.cycle path) => .ok ⟨true, path⟩
      | .ok visited => walkLoop rounds visited.nextFrontier visited

def wouldCreateReflectionCycleWith (maxDepth : Nat) : Except Error CycleCheckResult :=
  if sourceId = targetId then .ok ⟨true, [sourceId, targetId]⟩
  else walkLoop sourceId targetId neighbors (walkBound maxDepth) [targetId] ⟨[targetId], [], []⟩

end Model

section Spec

variable {Error : Type} {sourceId targetId current : String} {neighbors : String → Except Error (List String)}

/-- What the neighbours of a node leave behind when the source is not among them. -/
structure Visited (step : List String) (sourceId : String) (before after : Walk) : Prop where
  grows : ∀ node, node ∈ after.visited ↔ node ∈ before.visited ∨ node ∈ step
  queued : ∀ node ∈ after.visited, node ∈ before.visited ∨ node ∈ after.nextFrontier
  keeps : ∀ node ∈ before.nextFrontier, node ∈ after.nextFrontier
  avoids : sourceId ∉ step

/-- A visit adds the neighbours that were not visited. -/
theorem visited_visitNeighbors {step : List String} {before after : Walk}
    (ok : visitNeighbors sourceId targetId current step before = (.ok after : Except (WalkStop Error) Walk)) :
    Visited step sourceId before after := by
  induction step generalizing before with
  | nil =>
      rw [← Except.ok.inj ok]
      exact ⟨by simp, fun _ seen => .inl seen, fun _ kept => kept, List.not_mem_nil⟩
  | cons neighbor rest ih =>
      rw [visitNeighbors] at ok
      split_ifs at ok with found known
      · have later := ih ok
        refine ⟨fun node => ?_, later.queued, later.keeps, ?_⟩
        · rw [later.grows, List.mem_cons]
          constructor
          · rintro (seen | next)
            · exact .inl seen
            · exact .inr (.inr next)
          · rintro (seen | rfl | next)
            · exact .inl seen
            · exact .inl known
            · exact .inr next
        · simp only [List.mem_cons, not_or]
          exact ⟨Ne.symm found, later.avoids⟩
      · have later := ih ok
        refine ⟨fun node => ?_, fun node seen => ?_, fun node kept => ?_, ?_⟩
        · rw [later.grows, List.mem_cons, List.mem_cons, or_assoc]
          exact or_left_comm
        · rcases later.queued node seen with before | queued
          · rcases List.mem_cons.mp before with rfl | old
            · exact .inr (later.keeps node (List.mem_append_right _ List.mem_cons_self))
            · exact .inl old
          · exact .inr queued
        · exact later.keeps node (List.mem_append_left _ kept)
        · simp only [List.mem_cons, not_or]
          exact ⟨Ne.symm found, later.avoids⟩

/-- Every visited node waits in a frontier or has only visited neighbours, and the source is unvisited. -/
structure Explored (edge : String → String → Prop) (sourceId targetId : String) (frontier : List String)
    (walk : Walk) : Prop where
  starts : targetId ∈ walk.visited
  avoids : sourceId ∉ walk.visited
  closed : ∀ node ∈ walk.visited, node ∈ frontier ∨ node ∈ walk.nextFrontier ∨
    ∀ next, edge node next → next ∈ walk.visited

variable {edge : String → String → Prop}

/-- A frontier that was read through is explored. -/
theorem explored_visitFrontier
    (reads : ∀ node found, neighbors node = .ok found → ∀ next, edge node next → next ∈ found)
    {frontier : List String} {before after : Walk} (explored : Explored edge sourceId targetId frontier before)
    (ok : visitFrontier sourceId targetId neighbors frontier before = .ok after) :
    Explored edge sourceId targetId [] after := by
  induction frontier generalizing before with
  | nil =>
      rw [← Except.ok.inj ok]
      exact explored
  | cons current rest ih =>
      rw [visitFrontier] at ok
      split at ok
      · contradiction
      · rename_i step read
        cases inner : visitNeighbors sourceId targetId current step before with
        | error stop =>
            rw [inner] at ok
            contradiction
        | ok walk =>
            rw [inner] at ok
            have visited := visited_visitNeighbors inner
            refine ih ⟨(visited.grows _).mpr (.inl explored.starts), ?_, fun node seen => ?_⟩ ok
            · rw [visited.grows, not_or]
              exact ⟨explored.avoids, visited.avoids⟩
            · rcases visited.queued node seen with old | queued
              · rcases explored.closed node old with waits | queued | done
                · rcases List.mem_cons.mp waits with rfl | later
                  · refine .inr (.inr fun next step => (visited.grows next).mpr (.inr ?_))
                    exact reads node _ read next step
                  · exact .inl later
                · exact .inr (.inl (visited.keeps node queued))
                · exact .inr (.inr fun next step => (visited.grows next).mpr (.inl (done next step)))
              · exact .inr (.inl queued)

/-- An explored walk that never met its target does not reach it. -/
theorem Explored.unreached {walk : Walk}
    (explored : Explored edge sourceId targetId [] { walk with nextFrontier := [] }) :
    ¬ ReflTransGen edge targetId sourceId := by
  intro reached
  have closed (node next : String) (seen : node ∈ walk.visited) (step : edge node next) :
      next ∈ walk.visited := by
    rcases explored.closed node seen with none | none | done
    · cases none
    · cases none
    · exact done next step
  exact explored.avoids (mem_of_reflTransGen closed explored.starts reached)

/-- The walk that ends on an empty frontier has visited all that the target reaches. -/
theorem unreached_walkLoop
    (reads : ∀ node found, neighbors node = .ok found → ∀ next, edge node next → next ∈ found)
    {rounds : Nat} {frontier : List String} {walk : Walk} {result : CycleCheckResult}
    (explored : Explored edge sourceId targetId frontier { walk with nextFrontier := [] })
    (ok : walkLoop sourceId targetId neighbors rounds frontier walk = .ok result)
    (clear : result.wouldCycle = false) : ¬ ReflTransGen edge targetId sourceId := by
  induction rounds generalizing frontier walk with
  | zero =>
      cases frontier with
      | nil => exact explored.unreached
      | cons current rest =>
          rw [walkLoop] at ok
          rw [← Except.ok.inj ok] at clear
          contradiction
  | succ rounds ih =>
      cases frontier with
      | nil => exact explored.unreached
      | cons current rest =>
          rw [walkLoop] at ok
          split at ok
          · contradiction
          · rw [← Except.ok.inj ok] at clear
            contradiction
          · rename_i visited round
            have after := explored_visitFrontier reads explored round
            refine ih ⟨after.starts, after.avoids, fun node seen => ?_⟩ ok
            rcases after.closed node seen with none | queued | done
            · cases none
            · exact .inl queued
            · exact .inr (.inr done)

/-- Where the check passes, the target does not reach the source. -/
theorem unreached_wouldCreateReflectionCycleWith
    (reads : ∀ node found, neighbors node = .ok found → ∀ next, edge node next → next ∈ found)
    {maxDepth : Nat} {result : CycleCheckResult}
    (ok : wouldCreateReflectionCycleWith sourceId targetId neighbors maxDepth = .ok result)
    (clear : result.wouldCycle = false) : ¬ ReflTransGen edge targetId sourceId := by
  unfold wouldCreateReflectionCycleWith at ok
  split_ifs at ok with same
  · rw [← Except.ok.inj ok] at clear
    contradiction
  · have initially : Explored edge sourceId targetId [targetId] ⟨[targetId], [], []⟩ :=
      ⟨List.mem_cons_self, by simpa using same, fun node seen => .inl seen⟩
    exact unreached_walkLoop reads initially ok clear

end Spec
end AiMemory.Links
