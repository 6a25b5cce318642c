import AiMemory.Crdt.Memory
import Mathlib.Order.Basic
import Mathlib.Order.Lattice

/-
This file embeds the trust tiers of the lineage graph and their order.
-/

namespace AiMemory.Consolidation
open AiMemory.Crdt

inductive TrustTier where
  | unattested | claimed | attested
  deriving DecidableEq, Repr

namespace TrustTier

def rank : TrustTier → Nat
  | unattested => 0
  | claimed => 1
  | attested => 2

theorem rank_injective : Function.Injective rank := by
  intro first second same
  cases first <;> cases second <;> first | rfl | cases same

/-- The order of the declaration is the order of trust. -/
instance : LinearOrder TrustTier := LinearOrder.lift' rank rank_injective

def asStr : TrustTier → String
  | unattested => "unattested"
  | claimed => AttestLevel.claimed.asStr
  | attested => AttestLevel.agentAttested.asStr

/-- Every other text is the floor. -/
def fromAttestLevel : Option String → TrustTier
  | some text =>
      if text = AttestLevel.agentAttested.asStr ∨ text = "peer_attested" then attested
      else if text = AttestLevel.claimed.asStr then claimed
      else unattested
  | none => unattested

def fromTierStr : Option String → TrustTier
  | some text =>
      if text = attested.asStr then attested
      else if text = claimed.asStr then claimed
      else unattested
  | none => unattested

/-- The level of the row itself is bounded by the tier that an earlier derivation left in it. -/
def ofMetadata (metadata : Json) : TrustTier :=
  let own := fromAttestLevel ((metadata.get "attest_level").bind Json.asStr)
  match (metadata.get "propagated_trust").bind Json.asStr with
  | some propagated => min own (fromTierStr (some propagated))
  | none => own

/-- No tier is above the attested one, so an empty list bounds nothing. -/
def minOver (tiers : List TrustTier) : TrustTier := tiers.foldr min attested

theorem fromTierStr_asStr (tier : TrustTier) : fromTierStr (some tier.asStr) = tier := by
  cases tier <;> decide

theorem minOver_le {tiers : List TrustTier} {tier : TrustTier} (listed : tier ∈ tiers) : minOver tiers ≤ tier := by
  induction tiers with
  | nil => cases listed
  | cons first rest ih =>
      rcases List.mem_cons.mp listed with rfl | later
      · exact min_le_left _ _
      · exact (min_le_right _ _).trans (ih later)

/-- A stamped row is no more trusted than its stamp. -/
theorem ofMetadata_le_stamp {metadata : Json} {tier : TrustTier}
    (stamped : metadata.get "propagated_trust" = some (.string tier.asStr)) : ofMetadata metadata ≤ tier := by
  have read : (metadata.get "propagated_trust").bind Json.asStr = some tier.asStr := by rw [stamped]; rfl
  rw [ofMetadata, read]
  exact (min_le_right _ _).trans_eq (fromTierStr_asStr tier)

end TrustTier
end AiMemory.Consolidation
