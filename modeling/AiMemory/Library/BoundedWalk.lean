import Mathlib.Data.List.Chain
import Mathlib.Logic.Relation

/-
This file counts the hops of a walk in a directed graph.
-/

namespace AiMemory.Library
open Relation

universe u
variable {Node : Type u} (edge : Node → Node → Prop)

inductive Hops : Nat → Node → Node → Prop
  | start (node : Node) : Hops 0 node node
  | hop {count : Nat} {first second third : Node} :
      Hops count first second → edge second third → Hops (count + 1) first third

variable {edge}

/-- The hops of a walk reach its end. -/
theorem Hops.reached {count : Nat} {first second : Node} (walk : Hops edge count first second) :
    ReflTransGen edge first second := by
  induction walk with
  | start => exact .refl
  | hop _ step ih => exact ih.tail step

/-- A chain of edges walks from its first node to each of its nodes. -/
theorem reached_of_isChain {first : Node} {rest : List Node} (chain : (first :: rest).IsChain edge)
    {node : Node} (present : node ∈ first :: rest) : ReflTransGen edge first node := by
  induction rest generalizing first with
  | nil => rw [List.mem_singleton.mp present]
  | cons second rest ih =>
      obtain ⟨step, chain⟩ := List.isChain_cons_cons.mp chain
      rcases List.mem_cons.mp present with rfl | later
      · exact .refl
      · exact (ih chain later).head step

/-- A closed walk over a new edge goes back to its source over existing ones. -/
structure ClosedWalk (edge : Node → Node → Prop) (source target : Node) (path : List Node) : Prop where
  opens : ∃ back, path = source :: target :: back
  closes : path.getLast? = some source
  follows : path.tail.IsChain edge

/-- A closed walk leads back to its source. -/
theorem ClosedWalk.reached {source target : Node} {path : List Node} (closed : ClosedWalk edge source target path) :
    ReflTransGen edge target source := by
  obtain ⟨back, rfl⟩ := closed.opens
  refine reached_of_isChain closed.follows ?_
  have last := closed.closes
  rw [List.getLast?_cons_cons] at last
  exact List.mem_of_getLast? last

end AiMemory.Library
