import AiMemory.Lineage.Verify
import AiMemory.Machine.Strings

/-
This file embeds the allowlist that binds a peer to its authors and its namespaces.
-/

namespace AiMemory.Federation
open AiMemory.Lineage AiMemory.Machine

structure PeerScope where
  allowedSenderAgentIds : List String
  allowedNamespaces : List String

/-- The operator gives each enrolled peer one scope. -/
structure PeerAttestationConfig where
  peers : List (String × PeerScope)

namespace PeerAttestationConfig

def scopeFor (config : PeerAttestationConfig) (peerId : String) : Option PeerScope :=
  config.peers.lookup peerId

def hasAllowlist (config : PeerAttestationConfig) : Bool := !config.peers.isEmpty

/-- The operator authorized the peer to author as the agent. -/
def authorizes (config : PeerAttestationConfig) (peerId : Option String) (agentId : String) : Bool :=
  (peerId.bind config.scopeFor).any fun scope => agentId ∈ scope.allowedSenderAgentIds

end PeerAttestationConfig

inductive PeerAttestError where
  | headerMissing
  | mismatch (claimed peerHeader : String)
  deriving DecidableEq

/-- A header of blanks counts as absent. -/
def nonBlank (header : Option String) : Option String :=
  (header.map trim).filter fun text => !text.isEmpty

/-- The claimed sender is the peer itself or one of the authors of its scope. -/
def attestSender (peerHeader bodySender : Option String) (config : PeerAttestationConfig) :
    Except PeerAttestError Unit :=
  match nonBlank peerHeader with
  | none => .error .headerMissing
  | some peer =>
      match nonBlank bodySender with
      | none => .ok ()
      | some claimed =>
          if claimed = peer then .ok ()
          else if config.authorizes (some peer) claimed then .ok ()
          else .error (.mismatch claimed peer)

def oneSegment (text : String) : Bool := '/' ∉ text.toList

/-- A star stands for one segment, and a double star for any suffix. -/
def globMatch (pattern target : String) : Bool :=
  if pattern = "**" then true
  else if pattern = "*" then oneSegment target
  else
    match stripSuffix "/**" pattern with
    | some scope => target == scope || (stripPrefix (scope ++ "/") target).isSome
    | none =>
        match stripSuffix "/*" pattern with
        | some scope => (stripPrefix (scope ++ "/") target).any oneSegment
        | none =>
            match stripPrefix "*/" pattern with
            | some ending => (stripSuffix ("/" ++ ending) target).any oneSegment
            | none => pattern == target

/-- The bypass widens only the peers without a scope. -/
def namespaceAllowed (peerHeader : Option String) («namespace» : String) (config : PeerAttestationConfig)
    (syncTrustPeerBypass : Bool) : Bool :=
  match (nonBlank peerHeader).bind config.scopeFor with
  | none => syncTrustPeerBypass
  | some scope => scope.allowedNamespaces.any fun pattern => globMatch pattern «namespace»

end AiMemory.Federation
