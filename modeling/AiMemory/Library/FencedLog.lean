import AiMemory.Library.Run
import AiMemory.Library.Quorum
import Mathlib.Order.Lattice
import Mathlib.Data.Finset.Basic
import Mathlib.Order.MinMax

/-
This file gives the abstract log whose entries pass a fence of per-member term registers.
-/

namespace AiMemory.Library

/-- Each member remembers the highest term that it has accepted. -/
structure FencedLog (Member Term Payload : Type*) where
  seen : Member → Term
  entries : List (Term × Payload)

/-- A round offers one entry to the members that it reaches. -/
structure Round (Member Term Payload : Type*) where
  reach : Finset Member
  term : Term
  payload : Payload

namespace FencedLog
variable {Member Term Payload : Type*} [Fintype Member] [DecidableEq Member] [LinearOrder Term]

/-- A member acknowledges a term that is not below its register. -/
def Acknowledges (log : FencedLog Member Term Payload) (round : Round Member Term Payload)
    (member : Member) : Prop := member ∈ round.reach ∧ log.seen member ≤ round.term

instance (log : FencedLog Member Term Payload) (round : Round Member Term Payload) :
    DecidablePred (log.Acknowledges round) := fun _ => inferInstanceAs (Decidable (_ ∧ _))

def Accepts (w : Nat) (log : FencedLog Member Term Payload)
    (round : Round Member Term Payload) : Prop := Quorum w (log.Acknowledges round)

instance (w : Nat) (log : FencedLog Member Term Payload) (round : Round Member Term Payload) :
    Decidable (log.Accepts w round) := inferInstanceAs (Decidable (_ ≤ _))

/-- A round without a proposal changes nothing. -/
def step (w : Nat) (log : FencedLog Member Term Payload) :
    Option (Round Member Term Payload) → FencedLog Member Term Payload
  | none => log
  | some round => {
      seen := fun member =>
        if member ∈ round.reach then max (log.seen member) round.term else log.seen member
      entries :=
        if log.Accepts w round then log.entries ++ [(round.term, round.payload)]
        else log.entries }

/-- No round lowers a register. -/
theorem seen_le_step (w : Nat) (log : FencedLog Member Term Payload)
    (offer : Option (Round Member Term Payload)) (member : Member) :
    log.seen member ≤ (log.step w offer).seen member := by
  cases offer with
  | none => exact le_refl _
  | some round =>
      simp only [step]
      split
      · exact le_max_left _ _
      · exact le_refl _

/-- Every register of an acknowledging member reaches the offered term. -/
theorem term_le_step_seen (w : Nat) (log : FencedLog Member Term Payload)
    (round : Round Member Term Payload) (member : Member) (reached : member ∈ round.reach) :
    round.term ≤ (log.step w (some round)).seen member := by
  simp only [step, if_pos reached]
  exact le_max_right _ _

/-- A quorum of registers has passed every entry, and the terms of the entries do not fall. -/
structure Fenced (w : Nat) (log : FencedLog Member Term Payload) : Prop where
  backed : ∀ entry ∈ log.entries, Quorum w fun member => entry.1 ≤ log.seen member
  ordered : log.entries.Pairwise fun earlier later => earlier.1 ≤ later.1

/-- An accepted round is not older than any entry of the log. -/
theorem entry_le_accepted {w : Nat} (majority : Fintype.card Member < 2 * w)
    {log : FencedLog Member Term Payload} (fenced : log.Fenced w)
    {round : Round Member Term Payload} (accepted : log.Accepts w round)
    (entry : Term × Payload) (present : entry ∈ log.entries) : entry.1 ≤ round.term := by
  obtain ⟨member, passed, acknowledged⟩ :=
    (fenced.backed entry present).overlap majority accepted
  exact passed.trans acknowledged.2

/-- Each round keeps the log fenced. -/
theorem Fenced.step {w : Nat} (majority : Fintype.card Member < 2 * w)
    {log : FencedLog Member Term Payload} (fenced : log.Fenced w)
    (offer : Option (Round Member Term Payload)) : (log.step w offer).Fenced w := by
  cases offer with
  | none => exact fenced
  | some round =>
      have kept : ∀ entry ∈ log.entries,
          Quorum w fun member => entry.1 ≤ (log.step w (some round)).seen member :=
        fun entry present => (fenced.backed entry present).mono fun member passed =>
          passed.trans (seen_le_step w log (some round) member)
      by_cases accepted : log.Accepts w round
      · have entries : (log.step w (some round)).entries =
            log.entries ++ [(round.term, round.payload)] := if_pos accepted
        constructor
        · intro entry present
          rw [entries, List.mem_append, List.mem_singleton] at present
          rcases present with old | rfl
          · exact kept entry old
          · exact accepted.mono fun member acknowledged =>
              term_le_step_seen w log round member acknowledged.1
        · rw [entries, List.pairwise_append]
          refine ⟨fenced.ordered, List.pairwise_singleton _ _, ?_⟩
          intro entry present last isLast
          rw [List.mem_singleton.mp isLast]
          exact entry_le_accepted majority fenced accepted entry present
      · have entries : (log.step w (some round)).entries = log.entries := if_neg accepted
        exact ⟨fun entry present => kept entry (entries ▸ present), entries ▸ fenced.ordered⟩

omit [DecidableEq Member] in
/-- An empty log is fenced whatever its registers hold. -/
theorem Fenced.empty (w : Nat) (seen : Member → Term) :
    (⟨seen, []⟩ : FencedLog Member Term Payload).Fenced w :=
  ⟨fun _ present => absurd present List.not_mem_nil, List.Pairwise.nil⟩

end FencedLog
end AiMemory.Library
