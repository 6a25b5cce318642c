import AiMemory.Attestation.Write
import AiMemory.Crdt.Inbound
import AiMemory.Federation.PeerAttestation
import AiMemory.Library.Run

/-
This file embeds what the receiver makes of the author and of the level of an inbound row.
-/

namespace AiMemory.Federation
open AiMemory.Attestation AiMemory.Crdt AiMemory.Library AiMemory.Lineage AiMemory.Machine

def metadataStr (row : Memory) (key : String) : Option String := (row.metadata.get key).bind Json.asStr

/-- The receiver supplies its allowlist, its bound keys and its switches. -/
structure ReceivePolicy where
  config : PeerAttestationConfig
  agentPubkey : String → Option String
  requireWriteSig : Bool
  quarantineUnattributed : Bool
  effectiveMaxReflectionDepth : String → Nat

/-- A reflection carries the peer that first delivered it; a value that is no object gives way to one. -/
def stampReflectionOrigin (row : Memory) (senderAgentId : String) (localCap : Nat) : Memory :=
  if row.reflectionDepth ≤ 0 then row
  else
    let metadata := if row.metadata.isObject then row.metadata else Json.empty
    let stamp := ((Json.empty.insert "peer_origin" (.string senderAgentId)).insert "original_depth"
      (.number (.posInt row.reflectionDepth.toNat))).insert "local_depth_at_arrival"
        (.number (.posInt localCap))
    { row with metadata :=
        if (metadata.get "reflection_origin").isSome then metadata
        else metadata.insert "reflection_origin" stamp }

section Attribution

variable (senderAgentId : String) (config : PeerAttestationConfig) (peerId : Option String)

/-- Without an allowlist every relayed claim is taken on faith. -/
def relayAuthorized (claimed : String) : Bool :=
  if config.hasAllowlist then config.authorizes peerId claimed else true

/-- A row that claims an author beyond the allowlist of its peer goes to the sender as a bare claim. -/
def resolveInboundAttribution (row : Memory) : Memory × String :=
  match metadataStr row "agent_id" with
  | none => (row, senderAgentId)
  | some claimed =>
      if claimed = senderAgentId ∨ relayAuthorized config peerId claimed = true then (row, claimed)
      else
        let reattributed := (row.metadata.insert "agent_id" (.string senderAgentId)).insert "attest_level"
          (.string AttestLevel.claimed.asStr)
        ({ row with metadata := reattributed }, senderAgentId)

end Attribution

section Level

variable (env : Lineage.Environment)

/-- A text that is no base64 counts as no signature. -/
def presentedSignature (row : Memory) : Option Bytes :=
  (metadataStr row "write_signature").bind fun text => env.standardDecode (trim text)

/-- A row that was given to the sender keeps its bare claim; any other row gets the level that its signature
earns. -/
def applyInboundWriteAttestation (row : Memory) (attributeAgent senderAgentId : String)
    (originalClaim boundPubkeyB64 : Option String) (requireWriteSig : Bool) : Except AttestError Memory :=
  if originalClaim.any fun claim => claim ≠ attributeAgent then .ok row
  else
    stampAttestation env row attributeAgent boundPubkeyB64 (presentedSignature env row)
      (requireWriteSig && attributeAgent ≠ senderAgentId)

def rowIsAgentAttested (row : Memory) : Bool :=
  metadataStr row "attest_level" = some AttestLevel.agentAttested.asStr

def maybeQuarantineUnattributed (row : Memory) (quarantineEnabled : Bool) : Memory :=
  if quarantineEnabled ∧ rowIsAgentAttested row = false then { row with lifecycleState := .quarantined } else row

/-- The row that an iteration of the receive loop charges and merges, with the agent that it charges. -/
def receiveRow (policy : ReceivePolicy) (peerId : Option String) (senderAgentId : String) (row : Memory) :
    Except AttestError (Memory × String) :=
  let stamped := stampReflectionOrigin row senderAgentId (policy.effectiveMaxReflectionDepth row.namespace)
  let (attributed, attributeAgent) := resolveInboundAttribution senderAgentId policy.config peerId stamped
  (applyInboundWriteAttestation env attributed attributeAgent senderAgentId (metadataStr stamped "agent_id")
    (policy.agentPubkey attributeAgent) policy.requireWriteSig).map fun attested =>
      (maybeQuarantineUnattributed attested policy.quarantineUnattributed, attributeAgent)

end Level

section Received

variable {env : Lineage.Environment} {policy : ReceivePolicy} {peerId : Option String}
  {senderAgentId agent : String} {inbound received : Memory}

/-- The origin stamp changes nothing but the metadata. -/
theorem stampReflectionOrigin_body (row : Memory) (localCap : Nat) :
    ∃ metadata, stampReflectionOrigin row senderAgentId localCap = { row with metadata := metadata } := by
  unfold stampReflectionOrigin
  split
  · exact ⟨row.metadata, rfl⟩
  · exact ⟨_, rfl⟩

/-- An attested row carries the level that its signature earned or the bare claim of its attribution. -/
theorem attributedRow_ok {row attributed attested : Memory} {boundPubkeyB64 : Option String} {require : Bool}
    (resolved : resolveInboundAttribution senderAgentId policy.config peerId row = (attributed, agent))
    (applied : applyInboundWriteAttestation env attributed agent senderAgentId (metadataStr row "agent_id")
      boundPubkeyB64 require = .ok attested) :
    ∃ (metadata : Json) (level : AttestLevel),
      attested = { row with metadata := metadata.insert "attest_level" (.string level.asStr) } := by
  have stamps (same : row = attributed) (own : (metadataStr row "agent_id").any (fun claim => claim ≠ agent) = false) :
      ∃ (metadata : Json) (level : AttestLevel),
        attested = { row with metadata := metadata.insert "attest_level" (.string level.asStr) } := by
    rw [applyInboundWriteAttestation, own, if_neg Bool.false_ne_true, stampAttestation, map_eq_ok] at applied
    obtain ⟨level, _, stamped⟩ := applied
    exact ⟨attributed.metadata, level, same ▸ stamped.symm⟩
  unfold resolveInboundAttribution at resolved
  split at resolved
  · rename_i unclaimed
    obtain ⟨same, rfl⟩ := Prod.mk.inj resolved
    exact stamps same (by rw [unclaimed]; rfl)
  · rename_i claimed claims
    split_ifs at resolved with honored
    · obtain ⟨same, rfl⟩ := Prod.mk.inj resolved
      exact stamps same (by rw [claims]; simp)
    · -- The sender takes the row, so the claim of the row differs from the charged agent.
      obtain ⟨same, rfl⟩ := Prod.mk.inj resolved
      have foreign : claimed ≠ senderAgentId := fun own => honored (.inl own)
      rw [applyInboundWriteAttestation, claims, if_pos (by simpa using foreign)] at applied
      exact ⟨_, .claimed, by rw [← Except.ok.inj applied, ← same]⟩

/-- A received row keeps its body, and its level is the one that the receiver stamped. -/
theorem receiveRow_ok (accepted : receiveRow env policy peerId senderAgentId inbound = .ok (received, agent)) :
    ∃ (metadata : Json) (level : AttestLevel) (lifecycleState : LifecycleState),
      received = { inbound with
        metadata := metadata.insert "attest_level" (.string level.asStr), lifecycleState := lifecycleState } := by
  obtain ⟨before, stamped⟩ := @stampReflectionOrigin_body senderAgentId inbound
    (policy.effectiveMaxReflectionDepth inbound.namespace)
  unfold receiveRow at accepted
  rw [stamped] at accepted
  obtain ⟨attested, applied, same⟩ := map_eq_ok.mp accepted
  obtain ⟨rfl, rfl⟩ := Prod.mk.inj same
  obtain ⟨metadata, level, rfl⟩ := attributedRow_ok rfl applied
  unfold maybeQuarantineUnattributed
  split_ifs
  · exact ⟨metadata, level, .quarantined, rfl⟩
  · exact ⟨metadata, level, inbound.lifecycleState, rfl⟩

end Received

end AiMemory.Federation
