import AiMemory.Federation.Credential
import AiMemory.Library.PathScope
import AiMemory.Machine.Strings

/-
This file embeds the certificate chains and proves when they confine delegation.
-/

namespace AiMemory.Federation
open AiMemory.Library AiMemory.Lineage AiMemory.Machine

inductive ChainError where
  | emptyChain
  | chainTooDeep (depth max : Nat)
  | nameMismatch
  | domainMismatch
  | link (failure : CredentialError)
  | delegationOutOfNamespace (subject delegatedNamespace : String)
  deriving DecidableEq

section Namespaces

def caMarkerSuffix : String := "/ca"

def delegatedNamespaceOf (parentSubject : String) : String :=
  (stripSuffix caMarkerSuffix parentSubject).getD parentSubject

/-- The prefix ends in a slash, so that a sibling whose name is longer is not below the namespace. -/
def subjectInDelegatedNamespace (subjectAgentId caNamespace : String) : Bool :=
  Within '/' caNamespace.toList subjectAgentId.toList

/-- The inner name is a marker below a namespace that is the inner name itself or ends where the marker
starts. -/
def slipsOut (outerSubject innerSubject : String) : Bool :=
  (stripSuffix caMarkerSuffix innerSubject).any fun rest =>
    delegatedNamespaceOf outerSubject = innerSubject ∨ delegatedNamespaceOf outerSubject = rest ++ "/"

/-- A name that does not slip out delegates nothing beyond the namespace that it lies in. -/
theorem delegated_narrows {outerSubject innerSubject subject : String}
    (inner : subjectInDelegatedNamespace innerSubject (delegatedNamespaceOf outerSubject) = true)
    (below : subjectInDelegatedNamespace subject (delegatedNamespaceOf innerSubject) = true)
    (stays : slipsOut outerSubject innerSubject = false) :
    subjectInDelegatedNamespace subject (delegatedNamespaceOf outerSubject) = true := by
  have within : Within '/' (delegatedNamespaceOf outerSubject).toList innerSubject.toList :=
    of_decide_eq_true inner
  have reaches : Within '/' (delegatedNamespaceOf innerSubject).toList subject.toList :=
    of_decide_eq_true below
  refine decide_eq_true (Within.trans ?_ reaches)
  cases marked : stripSuffix caMarkerSuffix innerSubject with
  | none => simpa [delegatedNamespaceOf, marked] using within
  | some rest =>
      have whole : innerSubject = rest ++ caMarkerSuffix := stripSuffix_eq_some.mp marked
      have letters : innerSubject.toList = rest.toList ++ '/' :: ['c', 'a'] := by
        rw [whole, String.toList_append]
        rfl
      simp only [slipsOut, marked, Option.any_some, decide_eq_false_iff_not, not_or] at stays
      rw [show delegatedNamespaceOf innerSubject = rest by simp [delegatedNamespaceOf, marked]]
      rw [letters] at within
      refine within.of_marked (by decide) ?_ ?_
      · intro same
        exact stays.1 (String.ext_iff.mpr (same.trans letters.symm))
      · intro same
        refine stays.2 (String.ext_iff.mpr (same.trans ?_))
        rw [String.toList_append]
        rfl

end Namespaces

variable {env : Environment}

structure CertChain (env : Environment) where
  intermediates : List (SignedCredential env)
  leaf : SignedCredential env

namespace CertChain

def depth (chain : CertChain env) : Nat := chain.intermediates.length + 1

def certificates (chain : CertChain env) : List (SignedCredential env) := chain.intermediates ++ [chain.leaf]

def liftLink {Value : Type} : Except CredentialError Value → Except ChainError Value
  | .ok value => .ok value
  | .error failure => .error (.link failure)

def verifyLink (child : SignedCredential env) (parent : FederationCredential) (nowUnix : Int) :
    Except ChainError Unit :=
  if child.credential.issuerId ≠ parent.subjectAgentId then .error .nameMismatch
  else if child.credential.trustDomain ≠ parent.trustDomain then .error .domainMismatch
  else do
    let parentKey ← liftLink (parent.subjectVerifyingKey env)
    liftLink (child.verifyAgainst parentKey nowUnix)
    if subjectInDelegatedNamespace child.credential.subjectAgentId
        (delegatedNamespaceOf parent.subjectAgentId) then .ok ()
    else
      .error (.delegationOutOfNamespace child.credential.subjectAgentId
        (delegatedNamespaceOf parent.subjectAgentId))

/-- Every certificate becomes the parent of the next one. -/
def verifyLinks (nowUnix : Int) (parent : FederationCredential) :
    List (SignedCredential env) → Except ChainError Unit
  | [] => .ok ()
  | cert :: rest => do
      verifyLink cert parent nowUnix
      verifyLinks nowUnix cert.credential rest

def verify (chain : CertChain env) (bundle : TrustBundle) (nowUnix : Int) (maxDepth : Nat) :
    Except ChainError FederationCredential :=
  if chain.depth > maxDepth then .error (.chainTooDeep chain.depth maxDepth)
  else
    match chain.intermediates with
    | [] => liftLink (bundle.verify chain.leaf nowUnix)
    | anchor :: rest => do
        let parent ← liftLink (bundle.verify anchor nowUnix)
        verifyLinks nowUnix parent (rest ++ [chain.leaf])
        return chain.leaf.credential

end CertChain
end AiMemory.Federation
