import AiMemory.Consensus.Sequencer
import AiMemory.Library.FencedLog

/-
This file proves that the cluster refines the fenced log and carries its order to the commits.
-/

namespace AiMemory.Consensus
open AiMemory.Machine AiMemory.Library

variable {N : Nat}

/-- The abstract log keeps the registers and the committed slots. -/
def Cluster.fencedLog (cluster : Cluster N) : FencedLog (Fin N) Int Int :=
  ⟨fun index => (cluster.acceptors index).maxTermSeen, cluster.committed⟩

/-- A call offers the slot that its round carries to the reached acceptors. -/
def Cluster.offer (cluster : Cluster N) : Call N → Option (Round (Fin N) Int Int)
  | .commitAssignment reach term seq => some ⟨reach, term, seq⟩
  | .commitOp node reach lease candidate _ now =>
      ((cluster.nodes node).propose (slice cluster.acceptors reach) lease candidate now).map
        fun leading => ⟨reach, leading.state.term, leading.nextSeq⟩

/-- One quorum round has the effect of one abstract round. -/
theorem commitAssignment_refines (w : Nat) (cluster : Cluster N) (reach : Finset (Fin N))
    (term seq : Int) :
    let result := commitAssignment (slice cluster.acceptors reach) term seq w
    let after := cluster.fencedLog.step w (some ⟨reach, term, seq⟩)
    (fun index => (writeBack cluster.acceptors reach result.2 index).maxTermSeen) = after.seen ∧
      cluster.committed ++ result.1.slots = after.entries := by
  have states : (commitAssignment (slice cluster.acceptors reach) term seq w).2 =
      (slice cluster.acceptors reach).map fun acceptor => (acceptor.vote term).2 :=
    collectVotes_states _ _
  have accepted : cluster.fencedLog.Accepts w ⟨reach, term, seq⟩ ↔
      w ≤ (collectVotes term (slice cluster.acceptors reach)).1 := by
    rw [collectVotes_acks, slice_countP]
    rfl
  constructor
  · funext index
    rw [states, writeBack_map, FencedLog.step]
    simp only [Cluster.fencedLog]
    split
    · exact AcceptorState.vote_maxTermSeen _ _
    · rfl
  · simp only [FencedLog.step, accepted, commitAssignment, ge_iff_le]
    split <;> simp [AssignmentOutcome.slots, Cluster.fencedLog]

/-- A call that proposes runs one quorum round on behalf of the leading node. -/
theorem commitOp_of_propose {node leading : Sequencer} {quorum : List AcceptorState}
    {lease : Option Lease} {candidate : String} {now : Int}
    (proposed : node.propose quorum lease candidate now = some leading) (op : String) (w : Nat) :
    let round := commitAssignment quorum leading.state.term leading.nextSeq w
    let result := node.commitOp quorum lease candidate op w now
    (result.1.map CommittedAssignment.slot).toList = round.1.slots ∧ result.2.2 = round.2 ∧
      (result.2.1 = leading ∧ result.1 = none ∨
        result.2.1 = { leading with nextSeq := wrappingAdd leading.nextSeq 1 } ∧
          result.1 = some ⟨leading.state.term, leading.nextSeq, op⟩) := by
  simp only [Sequencer.commitOp, proposed]
  by_cases enough : (collectVotes leading.state.term quorum).1 ≥ w
  · simp [commitAssignment, enough, AssignmentOutcome.slots, CommittedAssignment.slot]
  · simp [commitAssignment, enough, AssignmentOutcome.slots]

/-- A leader that cannot propose commits nothing. -/
theorem commitOp_of_conflict {node : Sequencer} {quorum : List AcceptorState}
    {lease : Option Lease} {candidate : String} {now : Int}
    (conflict : node.propose quorum lease candidate now = none) (op : String) (w : Nat) :
    node.commitOp quorum lease candidate op w now = (none, node, quorum) := by
  simp only [Sequencer.commitOp, conflict]

/-- Each call of the cluster is one step of the abstract log. -/
theorem Cluster.step_refines (w : Nat) (cluster : Cluster N) (call : Call N) :
    (cluster.step w call).fencedLog = cluster.fencedLog.step w (cluster.offer call) := by
  cases call with
  | commitAssignment reach term seq =>
      obtain ⟨seen, entries⟩ := commitAssignment_refines w cluster reach term seq
      exact congrArg₂ FencedLog.mk seen entries
  | commitOp node reach lease candidate op now =>
      cases proposed : (cluster.nodes node).propose (slice cluster.acceptors reach)
          lease candidate now with
      | none =>
          simp only [Cluster.step, Cluster.offer, proposed, commitOp_of_conflict proposed]
          simp [Cluster.fencedLog, FencedLog.step, writeBack_slice]
      | some leading =>
          obtain ⟨slots, after, _⟩ := commitOp_of_propose proposed op w
          obtain ⟨seen, entries⟩ := commitAssignment_refines w cluster reach
            leading.state.term leading.nextSeq
          simp only [Cluster.step, Cluster.offer, proposed, Option.map_some]
          rw [← slots] at entries
          rw [← after] at seen
          exact congrArg₂ FencedLog.mk seen entries

/-- Every run keeps its log fenced. -/
theorem Cluster.run_fenced {w : Nat} (majority : N < 2 * w) (cluster : Cluster N)
    (fenced : cluster.fencedLog.Fenced w) (calls : List (Call N)) :
    (cluster.run w calls).fencedLog.Fenced w := by
  have majority' : Fintype.card (Fin N) < 2 * w := by simpa using majority
  have preserved : ∀ (state : Cluster N) (call : Call N), state.fencedLog.Fenced w →
      (state.step w call).fencedLog.Fenced w := by
    intro state call held
    rw [Cluster.step_refines]
    exact held.step majority' _
  exact @run_invariant_always _ _ _ (fun state : Cluster N => state.fencedLog.Fenced w) preserved _
    calls fenced

/-- No run lowers the highest term of an acceptor. -/
theorem Cluster.maxTermSeen_le_run (w : Nat) (cluster : Cluster N) (calls : List (Call N))
    (index : Fin N) :
    (cluster.acceptors index).maxTermSeen ≤ ((cluster.run w calls).acceptors index).maxTermSeen := by
  have grows : ∀ (state : Cluster N) (call : Call N),
      state.fencedLog.seen index ≤ (state.step w call).fencedLog.seen index := by
    intro state call
    rw [Cluster.step_refines]
    exact FencedLog.seen_le_step w state.fencedLog _ index
  exact @run_monotone _ _ _ _ _ (fun state : Cluster N => state.fencedLog.seen index) grows cluster calls

/-- The commits follow the terms, and no part of a run lowers an acceptor. -/
theorem Cluster.commits_follow_terms {w : Nat} (majority : N < 2 * w) (calls : List (Call N)) :
    (((Cluster.start N).run w calls).committed.Pairwise
        fun earlier later => earlier.1 ≤ later.1) ∧
      ∀ before after, calls = before ++ after → ∀ index,
        (((Cluster.start N).run w before).acceptors index).maxTermSeen ≤
          (((Cluster.start N).run w calls).acceptors index).maxTermSeen := by
  constructor
  · exact (Cluster.run_fenced majority _ (FencedLog.Fenced.empty w _) calls).ordered
  · rintro before after rfl index
    unfold Cluster.run
    rw [run_append]
    exact Cluster.maxTermSeen_le_run w _ after index

theorem Cluster.commits_follow_terms_three :
    (((Cluster.start 3).run 2
        [.commitAssignment {0, 1, 2} 1 10, .commitAssignment {1, 2} 2 11,
          .commitAssignment {0, 1} 1 12]).committed.Pairwise
        fun earlier later => earlier.1 ≤ later.1) ∧
      ∀ before after, [.commitAssignment {0, 1, 2} 1 10, .commitAssignment {1, 2} 2 11,
          .commitAssignment {0, 1} 1 12] = before ++ after → ∀ index,
        (((Cluster.start 3).run 2 before).acceptors index).maxTermSeen ≤
          (((Cluster.start 3).run 2 [.commitAssignment {0, 1, 2} 1 10,
            .commitAssignment {1, 2} 2 11, .commitAssignment {0, 1} 1 12]).acceptors
              index).maxTermSeen :=
  Cluster.commits_follow_terms (by decide) _

end AiMemory.Consensus
