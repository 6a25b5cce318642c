import Mathlib.Data.Finset.Card
import Mathlib.Data.Fintype.Card
import Mathlib.Data.List.Nodup

/-
This file states the overlap of two quorums of one finite membership, and counts quorums without a membership.
-/

namespace AiMemory.Library

variable {Member : Type*} [Fintype Member]

/-- At least `w` members have the property. -/
def Quorum (w : Nat) (property : Member → Prop) [DecidablePred property] : Prop :=
  w ≤ (Finset.univ.filter property).card

/-- A quorum of a stronger property is one of a weaker property. -/
theorem Quorum.mono {w : Nat} {strong weak : Member → Prop} [DecidablePred strong]
    [DecidablePred weak] (weaker : ∀ member, strong member → weak member)
    (quorum : Quorum w strong) : Quorum w weak :=
  quorum.trans (Finset.card_le_card (Finset.monotone_filter_right _ fun _ _ => weaker _))

/-- Two majorities share a member. -/
theorem Quorum.overlap {w : Nat} (majority : Fintype.card Member < 2 * w)
    {first second : Member → Prop} [DecidablePred first] [DecidablePred second]
    (firstQuorum : Quorum w first) (secondQuorum : Quorum w second) :
    ∃ member, first member ∧ second member := by
  classical
  have crowded : (Finset.univ : Finset Member).card <
      (Finset.univ.filter first).card + (Finset.univ.filter second).card := by
    unfold Quorum at firstQuorum secondQuorum
    rw [Finset.card_univ]
    omega
  obtain ⟨member, shared⟩ := Finset.inter_nonempty_of_card_lt_card_add_card
    (Finset.filter_subset _ _) (Finset.filter_subset _ _) crowded
  simp only [Finset.mem_inter, Finset.mem_filter, Finset.mem_univ, true_and] at shared
  exact ⟨member, shared⟩

section Unbounded

variable {Voter : Type*} {w : Nat} {strong weak : Voter → Prop}

/-- At least `w` distinct voters have the property. -/
def DistinctQuorum (w : Nat) (property : Voter → Prop) : Prop :=
  ∃ voters : List Voter, voters.Nodup ∧ w ≤ voters.length ∧ ∀ voter ∈ voters, property voter

/-- A quorum of voters is one for every weaker property. -/
theorem DistinctQuorum.mono (weaker : ∀ voter, strong voter → weak voter) (quorum : DistinctQuorum w strong) :
    DistinctQuorum w weak := by
  obtain ⟨voters, distinct, enough, holds⟩ := quorum
  exact ⟨voters, distinct, enough, fun voter present => weaker voter (holds voter present)⟩

/-- A quorum is no larger than a list that holds all who have the property. -/
theorem DistinctQuorum.le_length {property : Voter → Prop} (quorum : DistinctQuorum w property)
    {all : List Voter} (listed : ∀ voter, property voter → voter ∈ all) : w ≤ all.length := by
  obtain ⟨voters, distinct, enough, holds⟩ := quorum
  have within : voters ⊆ all := fun voter present => listed voter (holds voter present)
  exact enough.trans (List.subperm_of_subset distinct within).length_le

end Unbounded
end AiMemory.Library
