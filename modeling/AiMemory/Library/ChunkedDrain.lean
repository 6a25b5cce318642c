import Mathlib.Data.List.Nodup

/-
This file develops the loop that settles the pending work of a state chunk by chunk until it is drained.
-/

namespace AiMemory.Library

universe u v

/-- A step settles one piece of work and leaves the others pending. -/
structure Drain (State : Type u) (Work : Type v) [DecidableEq Work] where
  pending : State → List Work
  distinct : ∀ state, (pending state).Nodup
  step : Nat → State → Work → State
  settles : ∀ round state work, work ∈ pending state →
    pending (step round state work) = (pending state).filter fun other => other ≠ work

namespace Drain

variable {State : Type u} {Work : Type v} [DecidableEq Work] (drain : Drain State Work)

/-- One transaction settles what was pending before it, up to the limit. -/
def chunk (limit round : Nat) (state : State) : State :=
  ((drain.pending state).take limit).foldl (drain.step round) state

/-- A round works off the first pending item. -/
theorem pending_step {round : Nat} {state : State} {work : Work} {rest : List Work}
    (next : drain.pending state = work :: rest) : drain.pending (drain.step round state work) = rest := by
  have apart := List.nodup_cons.mp (next ▸ drain.distinct state)
  rw [drain.settles round state work (next ▸ List.mem_cons_self), next, List.filter_cons_of_neg (by simp),
    List.filter_eq_self]
  intro other present
  exact decide_eq_true fun same => apart.1 (same ▸ present)

/-- The steps over the first pending pieces leave the others. -/
theorem pending_foldl {round : Nat} {state : State} {first rest : List Work}
    (split : drain.pending state = first ++ rest) :
    drain.pending (first.foldl (drain.step round) state) = rest := by
  induction first generalizing state with
  | nil => exact split
  | cons work first ih => exact ih (drain.pending_step split)

/-- A chunk works off as many items as it may take. -/
theorem pending_chunk (limit round : Nat) (state : State) :
    drain.pending (drain.chunk limit round state) = (drain.pending state).drop limit :=
  drain.pending_foldl (List.take_append_drop limit _).symm

/-- The loop ends after a chunk below the limit and counts the settled pieces. -/
def run (limit : Nat) (positive : 0 < limit) (round : Nat) (state : State) : State × Nat :=
  if _ : ((drain.pending state).take limit).length < limit then
    (drain.chunk limit round state, ((drain.pending state).take limit).length)
  else
    ((run limit positive (round + 1) (drain.chunk limit round state)).1,
      ((drain.pending state).take limit).length +
        (run limit positive (round + 1) (drain.chunk limit round state)).2)
termination_by (drain.pending state).length
decreasing_by
  all_goals
    rename_i last
    rw [List.length_take] at last
    rw [drain.pending_chunk, List.length_drop]
    omega

/-- The loop settles each pending piece once, each in the round of its chunk. -/
theorem run_eq (limit : Nat) (positive : 0 < limit) (round : Nat) (state : State) :
    ∃ roundOf : Work → Nat, drain.run limit positive round state =
      ((drain.pending state).foldl (fun state work => drain.step (roundOf work) state work) state,
        (drain.pending state).length) := by
  fun_induction drain.run limit positive round state with
  | case1 round state last =>
      rw [List.length_take] at last
      have whole : (drain.pending state).take limit = drain.pending state := List.take_of_length_le (by omega)
      exact ⟨fun _ => round, by rw [chunk, whole]⟩
  | case2 round state more ih =>
      obtain ⟨roundOf, later⟩ := ih
      let taken := (drain.pending state).take limit
      have split : drain.pending state = taken ++ (drain.pending state).drop limit :=
        (List.take_append_drop limit _).symm
      have apart := List.disjoint_of_nodup_append (split ▸ drain.distinct state)
      refine ⟨fun work => if work ∈ taken then round else roundOf work, ?_⟩
      have early : drain.chunk limit round state =
          taken.foldl (fun state work => drain.step (if work ∈ taken then round else roundOf work) state work)
            state :=
        List.foldl_ext _ _ _ fun state work present => by rw [if_pos present]
      rw [later, drain.pending_chunk, early, Prod.mk.injEq]
      constructor
      · conv_rhs => rw [split, List.foldl_append]
        apply List.foldl_ext
        intro state work present
        simp only [if_neg fun other => apart other present]
      · rw [← List.length_append, ← split]

/-- Nothing is pending after the loop. -/
theorem pending_run (limit : Nat) (positive : 0 < limit) (round : Nat) (state : State) :
    drain.pending (drain.run limit positive round state).1 = [] := by
  fun_induction drain.run limit positive round state with
  | case1 round state last =>
      rw [List.length_take] at last
      rw [drain.pending_chunk, List.drop_eq_nil_iff]
      omega
  | case2 round state more ih => exact ih

end Drain
end AiMemory.Library
