import AiMemory.Library.Quorum
import AiMemory.Library.Run
import AiMemory.Machine.Numbers
import Mathlib.Data.Fintype.Basic
import Mathlib.Data.List.Basic
import Mathlib.Data.List.FinRange
import Mathlib.Logic.Function.Basic

/-
This file embeds the leadership state, the acceptors and the commit rounds of many nodes against one acceptor group.
-/

namespace AiMemory.Consensus
open AiMemory.Library AiMemory.Machine

/-- A lease row gives one holder an interval of leadership. -/
structure Lease where
  actionId : String
  holder : String
  acquiredAt : Int
  expiresAt : Int
  heartbeatAt : Int
  deriving DecidableEq, Repr

structure SequencerState where
  term : Int
  leader : Option String
  deriving DecidableEq, Repr

inductive LeadershipOutcome where
  | acquired (term : Int)
  | renewed (term : Int)
  | conflict (currentLeader : String)
  deriving DecidableEq, Repr

/-- A live lease of another holder blocks the candidate. -/
def Lease.blocks (lease : Option Lease) (candidate : String) (now : Int) : Option String :=
  match lease with
  | some held => if held.expiresAt > now ∧ held.holder ≠ candidate then some held.holder else none
  | none => none

def SequencerState.evaluate (state : SequencerState) (existing : Option Lease)
    (candidate : String) (now : Int) : LeadershipOutcome :=
  match Lease.blocks existing candidate now with
  | some holder => .conflict holder
  | none =>
      if state.leader = some candidate then .renewed state.term
      else .acquired (wrappingAdd state.term 1)

/-- An acceptor keeps the highest term that it has acknowledged. -/
structure AcceptorState where
  maxTermSeen : Int
  deriving DecidableEq, Repr

inductive AcceptorVote where
  | ack
  | rejectStaleTerm (maxTermSeen : Int)
  deriving DecidableEq, Repr

def AcceptorState.vote (acceptor : AcceptorState) (proposedTerm : Int) :
    AcceptorVote × AcceptorState :=
  if proposedTerm ≥ acceptor.maxTermSeen then (.ack, ⟨proposedTerm⟩)
  else (.rejectStaleTerm acceptor.maxTermSeen, acceptor)

theorem AcceptorState.vote_ack_iff (acceptor : AcceptorState) (term : Int) :
    (acceptor.vote term).1 = .ack ↔ acceptor.maxTermSeen ≤ term := by
  unfold vote
  split <;> simp_all

/-- A vote raises the acceptor to the proposed term and never lowers it. -/
theorem AcceptorState.vote_maxTermSeen (acceptor : AcceptorState) (term : Int) :
    (acceptor.vote term).2.maxTermSeen = max acceptor.maxTermSeen term := by
  unfold vote
  split <;> simp only [] <;> omega

inductive AssignmentOutcome where
  | committed (term seq : Int) (acks : Nat)
  | rejected (term : Int) (acks needed : Nat)
  deriving DecidableEq, Repr

/-- The loop lets each acceptor vote and counts the acknowledgements. -/
def collectVotes (term : Int) : List AcceptorState → Nat × List AcceptorState
  | [] => (0, [])
  | acceptor :: rest =>
      let voted := acceptor.vote term
      let (acks, after) := collectVotes term rest
      (if voted.1 = .ack then acks + 1 else acks, voted.2 :: after)

theorem collectVotes_states (term : Int) (quorum : List AcceptorState) :
    (collectVotes term quorum).2 = quorum.map fun acceptor => (acceptor.vote term).2 := by
  induction quorum with
  | nil => rfl
  | cons acceptor rest ih => simp only [collectVotes, ih, List.map_cons]

/-- The acknowledgements are counted over the acceptors that are not ahead. -/
theorem collectVotes_acks (term : Int) (quorum : List AcceptorState) :
    (collectVotes term quorum).1 = quorum.countP fun acceptor => acceptor.maxTermSeen ≤ term := by
  induction quorum with
  | nil => rfl
  | cons acceptor rest ih =>
      simp only [collectVotes, ih, AcceptorState.vote_ack_iff, List.countP_cons, decide_eq_true_eq]
      split <;> rfl

def commitAssignment (quorum : List AcceptorState) (term seq : Int) (w : Nat) :
    AssignmentOutcome × List AcceptorState :=
  let votes := collectVotes term quorum
  (if votes.1 ≥ w then .committed term seq votes.1 else .rejected term votes.1 w, votes.2)

structure CommittedAssignment where
  term : Int
  seq : Int
  op : String
  deriving DecidableEq, Repr

structure Sequencer where
  state : SequencerState
  nextSeq : Int
  deriving DecidableEq, Repr

/-- A fresh sequencer has no leader and term zero. -/
def Sequencer.new : Sequencer := ⟨⟨0, none⟩, 0⟩

/-- A new leader claims one term above every reached acceptor and above its own term. -/
def mintedTerm (quorum : List AcceptorState) (state : SequencerState) : Int :=
  wrappingAdd (max ((quorum.map AcceptorState.maxTermSeen).max?.getD 0) state.term) 1

/-- This is the term part of `commit_op`: a conflict gives no proposal. -/
def Sequencer.propose (node : Sequencer) (quorum : List AcceptorState) (lease : Option Lease)
    (candidate : String) (now : Int) : Option Sequencer :=
  match node.state.evaluate lease candidate now with
  | .conflict _ => none
  | .acquired _ => some ⟨⟨mintedTerm quorum node.state, some candidate⟩, 0⟩
  | .renewed _ => some node

def Sequencer.commitOp (node : Sequencer) (quorum : List AcceptorState) (lease : Option Lease)
    (candidate op : String) (w : Nat) (now : Int) :
    Option CommittedAssignment × Sequencer × List AcceptorState :=
  match node.propose quorum lease candidate now with
  | none => (none, node, quorum)
  | some leading =>
      let term := leading.state.term
      let seq := leading.nextSeq
      let round := commitAssignment quorum term seq w
      match round.1 with
      | .committed _ _ _ =>
          (some ⟨term, seq, op⟩, { leading with nextSeq := wrappingAdd seq 1 }, round.2)
      | .rejected _ _ _ => (none, leading, round.2)

/-- The log lists the committed slots from the oldest to the newest. -/
structure Cluster (N : Nat) where
  acceptors : Fin N → AcceptorState
  nodes : String → Sequencer
  committed : List (Int × Int)

/-- Every acceptor and every node starts from its default state. -/
def Cluster.start (N : Nat) : Cluster N := ⟨fun _ => ⟨0⟩, fun _ => Sequencer.new, []⟩

/-- A call reaches an arbitrary subset of the acceptors. -/
inductive Call (N : Nat) where
  | commitAssignment (reach : Finset (Fin N)) (term seq : Int)
  | commitOp (node : String) (reach : Finset (Fin N)) (lease : Option Lease)
      (candidate op : String) (now : Int)

variable {N : Nat}

/-- The slice borrows the reached acceptors in index order. -/
def members (reach : Finset (Fin N)) : List (Fin N) := (List.finRange N).filter (· ∈ reach)

def slice (acceptors : Fin N → AcceptorState) (reach : Finset (Fin N)) : List AcceptorState :=
  (members reach).map acceptors

/-- The round ends with the changed slice in place of the borrowed one. -/
def writeBack (acceptors : Fin N → AcceptorState) (reach : Finset (Fin N))
    (after : List AcceptorState) (index : Fin N) : AcceptorState :=
  (((members reach).zip after).lookup index).getD (acceptors index)

def AssignmentOutcome.slots : AssignmentOutcome → List (Int × Int)
  | .committed term seq _ => [(term, seq)]
  | .rejected _ _ _ => []

def CommittedAssignment.slot (assignment : CommittedAssignment) : Int × Int :=
  (assignment.term, assignment.seq)

def Cluster.step (w : Nat) (cluster : Cluster N) : Call N → Cluster N
  | .commitAssignment reach term seq =>
      let (outcome, after) :=
        Consensus.commitAssignment (slice cluster.acceptors reach) term seq w
      { cluster with
        acceptors := writeBack cluster.acceptors reach after
        committed := cluster.committed ++ outcome.slots }
  | .commitOp node reach lease candidate op now =>
      let (result, changed, after) :=
        (cluster.nodes node).commitOp (slice cluster.acceptors reach) lease candidate op w now
      { acceptors := writeBack cluster.acceptors reach after
        nodes := Function.update cluster.nodes node changed
        committed := cluster.committed ++ (result.map CommittedAssignment.slot).toList }

/-- A run executes its calls one after the other. -/
def Cluster.run (w : Nat) (cluster : Cluster N) (calls : List (Call N)) : Cluster N :=
  Library.run (Cluster.step w) cluster calls

theorem mem_members (reach : Finset (Fin N)) (index : Fin N) :
    index ∈ members reach ↔ index ∈ reach := by
  simp [members]

theorem lookup_zip_map (indices : List (Fin N)) (value : Fin N → AcceptorState)
    (index : Fin N) :
    (indices.zip (indices.map value)).lookup index =
      if index ∈ indices then some (value index) else none := by
  induction indices with
  | nil => rfl
  | cons head rest ih =>
      by_cases same : index = head
      · subst same
        simp
      · have different : (index == head) = false := by simpa using same
        simp [List.lookup_cons, different, ih, same]

/-- The written acceptors keep every acceptor outside the reached set. -/
theorem writeBack_map (acceptors : Fin N → AcceptorState) (reach : Finset (Fin N))
    (change : AcceptorState → AcceptorState) (index : Fin N) :
    writeBack acceptors reach ((slice acceptors reach).map change) index =
      if index ∈ reach then change (acceptors index) else acceptors index := by
  unfold writeBack slice
  rw [List.map_map, lookup_zip_map]
  simp only [mem_members, Function.comp_apply]
  split <;> rfl

theorem writeBack_slice (acceptors : Fin N → AcceptorState) (reach : Finset (Fin N))
    (index : Fin N) : writeBack acceptors reach (slice acceptors reach) index = acceptors index := by
  have unchanged := writeBack_map acceptors reach id index
  simpa using unchanged

/-- The acknowledgements of a slice are the reached acceptors that the term does not undercut. -/
theorem slice_countP (acceptors : Fin N → AcceptorState) (reach : Finset (Fin N)) (term : Int) :
    (slice acceptors reach).countP (fun acceptor => acceptor.maxTermSeen ≤ term) =
      (Finset.univ.filter fun index =>
        index ∈ reach ∧ (acceptors index).maxTermSeen ≤ term).card := by
  unfold slice members
  rw [List.countP_map, List.countP_filter, List.countP_eq_length_filter,
    ← List.toFinset_card_of_nodup ((List.nodup_finRange N).filter _)]
  congr 1
  ext index
  simp [and_comm]

end AiMemory.Consensus
