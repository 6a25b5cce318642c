import AiMemory.Consensus.Fencing

/-
This file finds when the committed slots of a run are pairwise distinct.
-/

namespace AiMemory.Consensus
open AiMemory.Machine AiMemory.Library

variable {N : Nat}

/-- Every call is a `commit_op` of a node under its own candidate id. -/
def Call.IsOwnOp : Call N → Prop
  | .commitAssignment _ _ _ => False
  | .commitOp node _ _ candidate _ _ => candidate = node

instance : DecidablePred (Call.IsOwnOp (N := N))
  | .commitAssignment _ _ _ => .isFalse id
  | .commitOp node _ _ candidate _ _ => decEq candidate node

/-- A node leads an epoch from its first won election on. -/
def Sequencer.Leads (node : Sequencer) : Prop := node.state.leader ≠ none

/-- A call that starts an epoch mints a term that no other leading node holds. -/
def Cluster.MintsUnclaimed (cluster : Cluster N) : Call N → Prop
  | .commitAssignment _ _ _ => True
  | .commitOp node reach lease candidate _ now =>
      (cluster.nodes node).nextSeq < i64Max ∧
        (Lease.blocks lease candidate now = none →
          (cluster.nodes node).state.leader ≠ some candidate →
            ∀ other, other ≠ node → (cluster.nodes other).Leads →
              (cluster.nodes other).state.term ≠
                mintedTerm (slice cluster.acceptors reach) (cluster.nodes node).state)

/-- A proposal comes from the leading node itself or from a newly minted epoch. -/
theorem Sequencer.propose_cases {node leading : Sequencer} {quorum : List AcceptorState}
    {lease : Option Lease} {candidate : String} {now : Int}
    (proposed : node.propose quorum lease candidate now = some leading) :
    Lease.blocks lease candidate now = none ∧
      (node.state.leader = some candidate ∧ leading = node ∨
        node.state.leader ≠ some candidate ∧
          leading = ⟨⟨mintedTerm quorum node.state, some candidate⟩, 0⟩) := by
  unfold propose SequencerState.evaluate at proposed
  cases blocked : Lease.blocks lease candidate now with
  | some holder => simp [blocked] at proposed
  | none =>
      by_cases holds : node.state.leader = some candidate
      · simp only [blocked, holds, if_true, Option.some.injEq] at proposed
        exact ⟨rfl, .inl ⟨holds, proposed.symm⟩⟩
      · simp only [blocked, holds, if_false, Option.some.injEq] at proposed
        exact ⟨rfl, .inr ⟨holds, proposed.symm⟩⟩

/-- Leading nodes hold different terms, and each slot lies below the counter of its leader. -/
structure Epochs (nodes : String → Sequencer) (committed : List (Int × Int)) : Prop where
  ownLeader : ∀ node, (nodes node).Leads → (nodes node).state.leader = some node
  separate : ∀ first second, (nodes first).Leads → (nodes second).Leads →
    (nodes first).state.term = (nodes second).state.term → first = second
  counted : ∀ slot ∈ committed, ∃ node, (nodes node).Leads ∧
    (nodes node).state.term = slot.1 ∧ slot.2 < (nodes node).nextSeq
  counter : ∀ node, 0 ≤ (nodes node).nextSeq
  distinct : committed.Nodup

theorem Epochs.start : Epochs (fun _ => Sequencer.new) [] where
  ownLeader _ leads := absurd rfl leads
  separate _ _ leads := absurd rfl leads
  counted _ present := absurd present List.not_mem_nil
  counter _ := le_refl _
  distinct := List.nodup_nil

/-- An unclaimed minted term opens a separate epoch with an empty sequence. -/
theorem Epochs.mint {nodes : String → Sequencer} {committed : List (Int × Int)}
    (epochs : Epochs nodes committed) (node : String) (term : Int)
    (resting : (nodes node).state.leader ≠ some node)
    (unclaimed : ∀ other, other ≠ node → (nodes other).Leads → (nodes other).state.term ≠ term) :
    Epochs (Function.update nodes node ⟨⟨term, some node⟩, 0⟩) committed := by
  have notLeading : ¬ (nodes node).Leads := fun leads => resting (epochs.ownLeader node leads)
  constructor
  · intro query leads
    by_cases same : query = node
    · subst same
      simp
    · rw [Function.update_of_ne same] at leads ⊢
      exact epochs.ownLeader query leads
  · intro first second firstLeads secondLeads equal
    by_cases atFirst : first = node <;> by_cases atSecond : second = node
    · rw [atFirst, atSecond]
    · subst atFirst
      rw [Function.update_self, Function.update_of_ne atSecond] at equal
      rw [Function.update_of_ne atSecond] at secondLeads
      exact absurd equal.symm (unclaimed second atSecond secondLeads)
    · subst atSecond
      rw [Function.update_self, Function.update_of_ne atFirst] at equal
      rw [Function.update_of_ne atFirst] at firstLeads
      exact absurd equal (unclaimed first atFirst firstLeads)
    · rw [Function.update_of_ne atFirst] at equal firstLeads
      rw [Function.update_of_ne atSecond] at equal secondLeads
      exact epochs.separate first second firstLeads secondLeads equal
  · intro slot present
    obtain ⟨owner, leads, sameTerm, below⟩ := epochs.counted slot present
    have different : owner ≠ node := fun same => notLeading (same ▸ leads)
    exact ⟨owner, by rw [Function.update_of_ne different]; exact ⟨leads, sameTerm, below⟩⟩
  · intro query
    by_cases same : query = node
    · subst same
      simp
    · rw [Function.update_of_ne same]
      exact epochs.counter query
  · exact epochs.distinct

/-- A leading node commits its next slot, which no earlier commit has used. -/
theorem Epochs.commit {nodes : String → Sequencer} {committed : List (Int × Int)}
    (epochs : Epochs nodes committed) (node : String) (leads : (nodes node).Leads)
    (room : (nodes node).nextSeq < i64Max) :
    Epochs (Function.update nodes node
        { nodes node with nextSeq := wrappingAdd (nodes node).nextSeq 1 })
      (committed ++ [((nodes node).state.term, (nodes node).nextSeq)]) := by
  have low := epochs.counter node
  have advanced : wrappingAdd (nodes node).nextSeq 1 = (nodes node).nextSeq + 1 :=
    wrappingAdd_inside _ _ (by omega) (by omega)
  rw [advanced]
  have state (query : String) : ((Function.update nodes node
      { nodes node with nextSeq := (nodes node).nextSeq + 1 }) query).state =
        (nodes query).state := by
    by_cases same : query = node
    · subst same
      simp
    · rw [Function.update_of_ne same]
  have grown (query : String) : (nodes query).nextSeq ≤ ((Function.update nodes node
      { nodes node with nextSeq := (nodes node).nextSeq + 1 }) query).nextSeq := by
    by_cases same : query = node
    · subst same
      rw [Function.update_self]
      exact Int.le_add_of_nonneg_right (by decide)
    · rw [Function.update_of_ne same]
  constructor
  · intro query
    simp only [Sequencer.Leads, state]
    exact epochs.ownLeader query
  · intro first second
    simp only [Sequencer.Leads, state]
    exact epochs.separate first second
  · intro slot present
    rw [List.mem_append, List.mem_singleton] at present
    rcases present with old | rfl
    · obtain ⟨owner, ownerLeads, sameTerm, below⟩ := epochs.counted slot old
      refine ⟨owner, ?_, ?_, below.trans_le (grown owner)⟩
      · simpa only [Sequencer.Leads, state] using ownerLeads
      · simpa only [state] using sameTerm
    · refine ⟨node, ?_, by rw [state], ?_⟩
      · simpa only [Sequencer.Leads, state] using leads
      · rw [Function.update_self]
        exact Int.lt_succ _
  · intro query
    exact (epochs.counter query).trans (grown query)
  · rw [List.nodup_append]
    refine ⟨epochs.distinct, List.nodup_singleton _, ?_⟩
    intro slot present last isLast same
    rw [same, List.mem_singleton.mp isLast] at present
    obtain ⟨owner, ownerLeads, sameTerm, below⟩ := epochs.counted _ present
    rw [epochs.separate owner node ownerLeads leads sameTerm] at below
    exact absurd below (lt_irrefl _)

/-- A call with an unclaimed mint keeps the epochs separate. -/
theorem Epochs.step {w : Nat} {cluster : Cluster N} {call : Call N}
    (epochs : Epochs cluster.nodes cluster.committed) (own : call.IsOwnOp)
    (unclaimed : cluster.MintsUnclaimed call) :
    Epochs (cluster.step w call).nodes (cluster.step w call).committed := by
  cases call with
  | commitAssignment reach term seq => exact own.elim
  | commitOp node reach lease candidate op now =>
      obtain rfl : candidate = node := own
      obtain ⟨room, fresh⟩ := unclaimed
      simp only [Cluster.step]
      cases proposed : (cluster.nodes candidate).propose (slice cluster.acceptors reach)
          lease candidate now with
      | none =>
          rw [commitOp_of_conflict proposed]
          simpa using epochs
      | some leading =>
          have ready : Epochs (Function.update cluster.nodes candidate leading)
                cluster.committed ∧ leading.state.leader = some candidate ∧
                leading.nextSeq < i64Max := by
            obtain ⟨free, ⟨holds, rfl⟩ | ⟨resting, rfl⟩⟩ := Sequencer.propose_cases proposed
            · exact ⟨by simpa using epochs, holds, room⟩
            · exact ⟨epochs.mint candidate _ resting (fresh free resting), rfl, by
                change (0 : Int) < i64Max
                decide⟩
          obtain ⟨led, leader, space⟩ := ready
          obtain ⟨_, _, ⟨node, result⟩ | ⟨node, result⟩⟩ := commitOp_of_propose proposed op w
          · rw [node, result]
            simpa using led
          · rw [node, result]
            have committed := led.commit candidate
              (by simp [Sequencer.Leads, leader]) (by simpa using space)
            simpa [CommittedAssignment.slot] using committed

/-- A call that starts an epoch reaches at least `w` acceptors. -/
def Cluster.MintsAtQuorum (w : Nat) (cluster : Cluster N) : Call N → Prop
  | .commitAssignment _ _ _ => True
  | .commitOp node reach lease candidate _ now =>
      (cluster.nodes node).nextSeq < i64Max ∧
        (Lease.blocks lease candidate now = none →
          (cluster.nodes node).state.leader ≠ some candidate →
            w ≤ reach.card ∧ (cluster.nodes node).state.term < i64Max ∧
              ∀ index ∈ reach, (cluster.acceptors index).maxTermSeen < i64Max)

instance (w : Nat) (cluster : Cluster N) : DecidablePred (cluster.MintsAtQuorum w)
  | .commitAssignment _ _ _ => .isTrue trivial
  | .commitOp _ _ _ _ _ _ => inferInstanceAs (Decidable (_ ∧ _))

/-- Every leading node holds a term that a quorum has seen. -/
structure Elected (w : Nat) (cluster : Cluster N) : Prop where
  seen : ∀ node, (cluster.nodes node).Leads →
    Quorum w fun index => (cluster.nodes node).state.term ≤ (cluster.acceptors index).maxTermSeen
  nonneg : ∀ node, 0 ≤ (cluster.nodes node).state.term

/-- The minted term lies above the own term and above every reached acceptor. -/
theorem mintedTerm_above (cluster : Cluster N) (reach : Finset (Fin N)) (state : SequencerState)
    (nonneg : 0 ≤ state.term) (room : state.term < i64Max)
    (below : ∀ index ∈ reach, (cluster.acceptors index).maxTermSeen < i64Max) :
    state.term < mintedTerm (slice cluster.acceptors reach) state ∧
      ∀ index ∈ reach, (cluster.acceptors index).maxTermSeen <
        mintedTerm (slice cluster.acceptors reach) state := by
  let terms := (slice cluster.acceptors reach).map AcceptorState.maxTermSeen
  have bounded : ∀ index ∈ reach, (cluster.acceptors index).maxTermSeen ≤ terms.max?.getD 0 := by
    intro index reached
    have present : (cluster.acceptors index).maxTermSeen ∈ terms :=
      List.mem_map_of_mem (List.mem_map_of_mem ((mem_members reach index).mpr reached))
    cases top : terms.max? with
    | none => rw [List.max?_eq_none_iff.mp top] at present; exact absurd present List.not_mem_nil
    | some highest => exact (List.max?_eq_some_iff.mp top).2 _ present
  have capped : terms.max?.getD 0 < i64Max := by
    cases top : terms.max? with
    | none => change (0 : Int) < i64Max; decide
    | some highest =>
        obtain ⟨acceptor, member, rfl⟩ := List.mem_map.mp (List.max?_eq_some_iff.mp top).1
        obtain ⟨index, reached, rfl⟩ := List.mem_map.mp member
        exact below index ((mem_members reach index).mp reached)
  have minted : mintedTerm (slice cluster.acceptors reach) state =
      max (terms.max?.getD 0) state.term + 1 :=
    wrappingAdd_inside (max (terms.max?.getD 0) state.term) 1 (by omega) (by omega)
  rw [minted]
  constructor
  · omega
  · intro index reached
    have := bounded index reached
    omega

/-- A term minted at a quorum is new to every leading node. -/
theorem Elected.unclaimed {w : Nat} (majority : N < 2 * w) {cluster : Cluster N}
    (elected : Elected w cluster) {call : Call N} (quorate : cluster.MintsAtQuorum w call) :
    cluster.MintsUnclaimed call := by
  cases call with
  | commitAssignment reach term seq => trivial
  | commitOp node reach lease candidate op now =>
      refine ⟨quorate.1, ?_⟩
      intro free resting other _ leads same
      obtain ⟨enough, room, below⟩ := quorate.2 free resting
      have reached : Quorum w fun index => index ∈ reach := by
        simpa [Quorum] using enough
      obtain ⟨index, held, inside⟩ :=
        (elected.seen other leads).overlap (by simpa using majority) reached
      have above := (mintedTerm_above cluster reach _ (elected.nonneg node) room below).2
        index inside
      omega

theorem Elected.start (w : Nat) : Elected w (Cluster.start N) where
  seen _ leads := absurd rfl leads
  nonneg _ := le_refl _

/-- Minting at a quorum keeps every leading term backed by a quorum. -/
theorem Elected.step {w : Nat} {cluster : Cluster N} (elected : Elected w cluster)
    {call : Call N} (quorate : cluster.MintsAtQuorum w call) :
    Elected w (cluster.step w call) := by
  have grown (index : Fin N) : (cluster.acceptors index).maxTermSeen ≤
      ((cluster.step w call).acceptors index).maxTermSeen :=
    Cluster.maxTermSeen_le_run w cluster [call] index
  have kept : ∀ node, (cluster.nodes node).Leads → Quorum w fun index =>
      (cluster.nodes node).state.term ≤ ((cluster.step w call).acceptors index).maxTermSeen :=
    fun node leads => (elected.seen node leads).mono fun index held => held.trans (grown index)
  cases call with
  | commitAssignment reach term seq => exact ⟨kept, elected.nonneg⟩
  | commitOp node reach lease candidate op now =>
      cases proposed : (cluster.nodes node).propose (slice cluster.acceptors reach)
          lease candidate now with
      | none =>
          have nodes : (cluster.step w (.commitOp node reach lease candidate op now)).nodes =
              cluster.nodes := by
            simp [Cluster.step, commitOp_of_conflict proposed]
          exact ⟨by rw [nodes]; exact kept, by rw [nodes]; exact elected.nonneg⟩
      | some leading =>
          have raised (index : Fin N) (reached : index ∈ reach) : leading.state.term ≤
              ((cluster.step w (.commitOp node reach lease candidate op now)).acceptors
                index).maxTermSeen := by
            have refines := congrArg (fun log => FencedLog.seen log index)
              (Cluster.step_refines w cluster (.commitOp node reach lease candidate op now))
            simp only [Cluster.offer, proposed, Option.map_some] at refines
            exact (FencedLog.term_le_step_seen w cluster.fencedLog
              ⟨reach, leading.state.term, leading.nextSeq⟩ index reached).trans_eq refines.symm
          have state (query : String) :
              ((cluster.step w (.commitOp node reach lease candidate op now)).nodes query).state =
                if query = node then leading.state else (cluster.nodes query).state := by
            obtain ⟨_, _, ⟨changed, _⟩ | ⟨changed, _⟩⟩ := commitOp_of_propose proposed op w <;>
              by_cases same : query = node <;> simp [Cluster.step, changed, same]
          have leader : leading.state.leader ≠ none → 0 ≤ leading.state.term ∧ Quorum w
              fun index => leading.state.term ≤ ((cluster.step w
                (.commitOp node reach lease candidate op now)).acceptors index).maxTermSeen := by
            intro leads
            obtain ⟨free, ⟨_, rfl⟩ | ⟨resting, rfl⟩⟩ := Sequencer.propose_cases proposed
            · exact ⟨elected.nonneg node, kept node leads⟩
            · obtain ⟨enough, room, below⟩ := quorate.2 free resting
              have above := (mintedTerm_above cluster reach _ (elected.nonneg node) room below).1
              have low := elected.nonneg node
              have reached : Quorum w fun index => index ∈ reach := by
                simpa [Quorum] using enough
              exact ⟨by change 0 ≤ mintedTerm _ _; omega, reached.mono raised⟩
          have leads : leading.state.leader ≠ none := by
            obtain ⟨_, ⟨held, rfl⟩ | ⟨_, rfl⟩⟩ := Sequencer.propose_cases proposed <;> simp_all
          constructor
          · intro query queryLeads
            rw [state]
            rw [Sequencer.Leads, state] at queryLeads
            by_cases same : query = node
            · simpa only [if_pos same] using (leader leads).2
            · simp only [if_neg same] at queryLeads ⊢
              exact kept query queryLeads
          · intro query
            rw [state]
            by_cases same : query = node
            · simpa only [if_pos same] using (leader leads).1
            · simpa only [if_neg same] using elected.nonneg query

/-- A run that mints only at quorums never mints a claimed term. -/
theorem Cluster.mintsUnclaimed_of_quorum {w : Nat} (majority : N < 2 * w)
    (calls : List (Call N))
    (quorate : EveryStep (Cluster.step w) (Cluster.MintsAtQuorum w) (Cluster.start N) calls) :
    EveryStep (Cluster.step w) Cluster.MintsUnclaimed (Cluster.start N) calls :=
  (quorate.and_invariant (fun _ _ allowed elected => elected.step allowed)
    (Elected.start w)).mono fun _ _ held => held.2.unclaimed majority held.1

/-- No slot is committed twice when every minted term is unclaimed. -/
theorem Cluster.committed_nodup (w : Nat) (calls : List (Call N))
    (own : ∀ call ∈ calls, call.IsOwnOp)
    (unclaimed : EveryStep (Cluster.step w) Cluster.MintsUnclaimed (Cluster.start N) calls) :
    ((Cluster.start N).run w calls).committed.Nodup := by
  have preserved : ∀ (cluster : Cluster N) (call : Call N),
      cluster.MintsUnclaimed call ∧ call.IsOwnOp → Epochs cluster.nodes cluster.committed →
        Epochs (cluster.step w call).nodes (cluster.step w call).committed :=
    fun _ _ allowed epochs => epochs.step allowed.2 allowed.1
  have epochs := @run_invariant _ _ _ _ (fun cluster : Cluster N =>
    Epochs cluster.nodes cluster.committed) preserved _ _ (unclaimed.and_forall own) Epochs.start
  exact epochs.distinct

/-- Three rounds of two nodes at full quorums. -/
def handover : List (Call 3) :=
  [.commitOp "A" {0, 1, 2} none "A" "op1" 100,
    .commitOp "B" {1, 2} (some ⟨"lease", "A", 0, 200, 0⟩) "B" "op2" 250,
    .commitOp "A" {0, 1} (some ⟨"lease", "A", 0, 200, 0⟩) "A" "op3" 150]

theorem handover_slots_nodup : ((Cluster.start 3).run 2 handover).committed.Nodup :=
  Cluster.committed_nodup 2 handover (by decide)
    (Cluster.mintsUnclaimed_of_quorum (by decide) handover (by decide))

/-- Two nodes mint term one against disjoint subsets, and both commit its first slot. -/
def splitElection : List (Call 3) :=
  [.commitOp "A" {0} none "A" "op1" 100,
    .commitOp "B" {1, 2} none "B" "op2" 100,
    .commitOp "A" {0, 1} none "A" "op3" 100]

theorem splitElection_repeats_slot :
    3 < 2 * 2 ∧ (∀ call ∈ splitElection, call.IsOwnOp) ∧
      ((Cluster.start 3).run 2 splitElection).committed = [(1, 0), (1, 0)] ∧
      ¬ ((Cluster.start 3).run 2 splitElection).committed.Nodup := by
  have slots : ((Cluster.start 3).run 2 splitElection).committed = [(1, 0), (1, 0)] := by
    decide
  exact ⟨by decide, by decide, slots, by rw [slots]; decide⟩

end AiMemory.Consensus
