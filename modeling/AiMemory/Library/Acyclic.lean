import Mathlib.Logic.Relation

/-
This file collects the facts about directed graphs without cycles.
-/

namespace AiMemory.Library
open Relation

universe u
variable {Node : Type u} {edge extra : Node → Node → Prop}

/-- No walk of one edge or more returns to its start. -/
def Acyclic (edge : Node → Node → Prop) : Prop := ∀ node, ¬ TransGen edge node node

/-- A graph with fewer edges stays acyclic. -/
theorem Acyclic.mono (fewer : ∀ source target, extra source target → edge source target)
    (acyclic : Acyclic edge) : Acyclic extra :=
  fun node cycle => acyclic node (TransGen.mono fewer _ _ cycle)

theorem acyclic_empty (none : ∀ source target, ¬ edge source target) : Acyclic edge := by
  intro node cycle
  cases cycle with
  | single step => exact none _ _ step
  | tail _ step => exact none _ _ step

/-- Edges that descend in a strict order close no cycle. -/
theorem acyclic_of_descends {below : Node → Node → Prop} (irreflexive : ∀ node, ¬ below node node)
    (transitive : ∀ first second third, below first second → below second third → below first third)
    (descends : ∀ source target, edge source target → below source target) : Acyclic edge := by
  have walks (source target : Node) (walk : TransGen edge source target) : below source target := by
    induction walk with
    | single step => exact descends _ _ step
    | tail _ step ih => exact transitive _ _ _ ih (descends _ _ step)
  exact fun node cycle => irreflexive node (walks node node cycle)

/-- A set that the edges do not leave holds what its members reach. -/
theorem mem_of_reflTransGen {held : Node → Prop}
    (closed : ∀ source target, held source → edge source target → held target) {start finish : Node}
    (starts : held start) (walk : ReflTransGen edge start finish) : held finish := by
  induction walk with
  | refl => exact starts
  | tail _ step ih => exact closed _ _ ih step

/-- A walk takes an added edge, or it is a walk of the old ones. -/
theorem transGen_adjoin {source target : Node}
    (walk : TransGen (fun first second => edge first second ∨ extra first second) source target) :
    TransGen edge source target ∨ ∃ first second, extra first second ∧
      ReflTransGen (fun first second => edge first second ∨ extra first second) source first ∧
      ReflTransGen (fun first second => edge first second ∨ extra first second) second target := by
  induction walk with
  | single step =>
      rcases step with old | added
      · exact .inl (.single old)
      · exact .inr ⟨_, _, added, .refl, .refl⟩
  | tail before step ih =>
      rcases step with old | added
      · rcases ih with walk | ⟨first, second, taken, upTo, onward⟩
        · exact .inl (walk.tail old)
        · exact .inr ⟨first, second, taken, upTo, onward.tail (.inl old)⟩
      · exact .inr ⟨_, _, added, before.to_reflTransGen, .refl⟩

/-- Added edges keep a graph acyclic exactly when none of them can be walked back. -/
theorem acyclic_adjoin_iff : Acyclic (fun source target => edge source target ∨ extra source target) ↔
    Acyclic edge ∧ ∀ source target, extra source target →
      ¬ ReflTransGen (fun source target => edge source target ∨ extra source target) target source := by
  constructor
  · intro acyclic
    refine ⟨acyclic.mono fun _ _ old => .inl old, fun source target added back => ?_⟩
    exact acyclic source (TransGen.head' (.inr added) back)
  · rintro ⟨acyclic, noBack⟩ node cycle
    rcases transGen_adjoin cycle with walk | ⟨first, second, added, upTo, onward⟩
    · exact acyclic node walk
    · exact noBack first second added (onward.trans upTo)

/-- One edge may be added where its target does not reach its source. -/
theorem acyclic_adjoin_one {source target : Node} (acyclic : Acyclic edge)
    (unreached : ¬ ReflTransGen edge target source) :
    Acyclic fun first second => edge first second ∨ (first = source ∧ second = target) := by
  have upTo (start : Node)
      (walk : ReflTransGen (fun first second => edge first second ∨ (first = source ∧ second = target)) start source) :
      ReflTransGen edge start source := by
    induction walk using ReflTransGen.head_induction_on with
    | refl => exact .refl
    | head step _ ih =>
        rcases step with old | ⟨rfl, _⟩
        · exact ih.head old
        · exact .refl
  rw [acyclic_adjoin_iff]
  refine ⟨acyclic, ?_⟩
  rintro _ _ ⟨rfl, rfl⟩ back
  exact unreached (upTo _ back)

end AiMemory.Library
