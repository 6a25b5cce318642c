import AiMemory.Federation.CertChain
import AiMemory.Lineage.WitnessBinding

/-
This file proves when a certificate chain confines delegation.
-/

namespace AiMemory.Federation
open AiMemory.Library AiMemory.Lineage AiMemory.Machine

variable {env : Environment}

/-- The key of the parent signs the child. -/
def Signs (parent child : SignedCredential env) : Prop :=
  ∃ key, env.verifyingKeyFromBytes parent.credential.subjectPubkey = some key ∧ child.SignedBy key

/-- What one link of an accepted chain has passed. -/
structure Endorses (nowUnix : Int) (parent child : SignedCredential env) : Prop where
  domain : child.credential.trustDomain = parent.credential.trustDomain
  signs : Signs parent child
  window : child.InWindow nowUnix
  delegated : subjectInDelegatedNamespace child.credential.subjectAgentId
    (delegatedNamespaceOf parent.credential.subjectAgentId) = true

section Links

variable {nowUnix : Int}

theorem liftLink_ok {Value : Type} {result : Except CredentialError Value} {value : Value} :
    CertChain.liftLink result = .ok value ↔ result = .ok value := by
  cases result with
  | error failure => exact iff_of_false nofun nofun
  | ok held =>
      exact ⟨fun same => congrArg _ (Except.ok.inj same), fun same => congrArg _ (Except.ok.inj same)⟩

/-- A link that verifies endorses its child. -/
theorem verifyLink_ok {parent child : SignedCredential env}
    (accepted : CertChain.verifyLink child parent.credential nowUnix = .ok ()) :
    Endorses nowUnix parent child := by
  unfold CertChain.verifyLink at accepted
  split at accepted
  · cases accepted
  split at accepted
  · cases accepted
  rename_i domain
  obtain ⟨key, decoded, accepted⟩ := bind_eq_ok.mp accepted
  obtain ⟨_, verified, accepted⟩ := bind_eq_ok.mp accepted
  obtain ⟨signature, window⟩ := SignedCredential.verifyAgainst_ok (liftLink_ok.mp verified)
  split at accepted
  · rename_i delegated
    have holder := elim_error_eq_ok.mp (liftLink_ok.mp decoded)
    exact ⟨not_not.mp domain, ⟨key, holder, signature⟩, window, delegated⟩
  · cases accepted

/-- A chain that verifies endorses link by link. -/
theorem verifyLinks_ok {parent : SignedCredential env} {certs : List (SignedCredential env)}
    (accepted : CertChain.verifyLinks nowUnix parent.credential certs = .ok ()) :
    (parent :: certs).IsChain (Endorses nowUnix) := by
  induction certs generalizing parent with
  | nil => exact List.isChain_singleton parent
  | cons cert rest ih =>
      obtain ⟨_, link, accepted⟩ := bind_eq_ok.mp accepted
      exact List.isChain_cons_cons.mpr ⟨verifyLink_ok link, ih accepted⟩

end Links

/-- The first certificate is signed by an issuer of the bundle. -/
def Anchored (bundle : TrustBundle) (first : SignedCredential env) : Prop :=
  ∃ issuerKey, bundle.issuers.lookup first.credential.issuerId = some issuerKey ∧ first.SignedBy issuerKey

/-- An accepted chain starts at the bundle, and each certificate endorses the next one. -/
theorem verify_ok {chain : CertChain env} {bundle : TrustBundle} {nowUnix : Int} {maxDepth : Nat}
    {credential : FederationCredential} (accepted : chain.verify bundle nowUnix maxDepth = .ok credential) :
    chain.depth ≤ maxDepth ∧ ∃ first rest, chain.certificates = first :: rest ∧ Anchored bundle first ∧
      first.InWindow nowUnix ∧ (first :: rest).IsChain (Endorses nowUnix) := by
  unfold CertChain.verify at accepted
  split at accepted
  · cases accepted
  rename_i shallow
  refine ⟨not_lt.mp shallow, ?_⟩
  unfold CertChain.certificates
  cases held : chain.intermediates with
  | nil =>
      rw [held] at accepted
      obtain ⟨_, anchored, window⟩ := TrustBundle.verify_ok (liftLink_ok.mp accepted)
      exact ⟨chain.leaf, [], rfl, anchored, window, List.isChain_singleton _⟩
  | cons anchor rest =>
      simp only [held] at accepted
      obtain ⟨parent, trusted, accepted⟩ := bind_eq_ok.mp accepted
      obtain ⟨_, links, _⟩ := bind_eq_ok.mp accepted
      obtain ⟨rfl, anchored, window⟩ := TrustBundle.verify_ok (liftLink_ok.mp trusted)
      exact ⟨anchor, rest ++ [chain.leaf], rfl, anchored, window, verifyLinks_ok links⟩

/-- The chain is anchored, linked by its keys, current and shallow, and the leaf lies in the namespace of
every intermediate. -/
structure Confines (chain : CertChain env) (bundle : TrustBundle) (nowUnix : Int) (maxDepth : Nat) :
    Prop where
  anchored : ∃ first ∈ chain.certificates.head?, Anchored bundle first
  windows : ∀ cert ∈ chain.certificates, cert.InWindow nowUnix
  signed : chain.certificates.IsChain Signs
  domains : ∀ first ∈ chain.certificates, ∀ second ∈ chain.certificates,
    first.credential.trustDomain = second.credential.trustDomain
  shallow : chain.depth ≤ maxDepth
  confined : ∀ intermediate ∈ chain.intermediates,
    subjectInDelegatedNamespace chain.leaf.credential.subjectAgentId
      (delegatedNamespaceOf intermediate.credential.subjectAgentId) = true

/-- Where the next intermediate slips out of a namespace, the leaf has not followed it. -/
def KeepsAtSlips (chain : CertChain env) : Prop :=
  ∀ link ∈ chain.intermediates.zip chain.intermediates.tail,
    slipsOut link.1.credential.subjectAgentId link.2.credential.subjectAgentId = true →
      subjectInDelegatedNamespace chain.leaf.credential.subjectAgentId
        (delegatedNamespaceOf link.1.credential.subjectAgentId) = true

instance (chain : CertChain env) : Decidable (KeepsAtSlips chain) :=
  inferInstanceAs (Decidable (∀ link ∈ _, _))

section Confinement

variable {nowUnix : Int} {leaf : SignedCredential env} {intermediates : List (SignedCredential env)}

/-- The leaf goes up the chain, one namespace at a time. -/
theorem confined_of_keeps (linked : (intermediates ++ [leaf]).IsChain (Endorses nowUnix))
    (keeps : KeepsAtSlips ⟨intermediates, leaf⟩) {intermediate : SignedCredential env}
    (held : intermediate ∈ intermediates) :
    subjectInDelegatedNamespace leaf.credential.subjectAgentId
      (delegatedNamespaceOf intermediate.credential.subjectAgentId) = true := by
  induction intermediates generalizing intermediate with
  | nil => exact absurd held List.not_mem_nil
  | cons outer rest ih =>
      cases rest with
      | nil =>
          obtain rfl := List.mem_singleton.mp held
          exact (List.isChain_pair.mp linked).delegated
      | cons inner rest =>
          obtain ⟨link, later⟩ := List.isChain_cons_cons.mp linked
          have below : ∀ cert ∈ inner :: rest,
              subjectInDelegatedNamespace leaf.credential.subjectAgentId
                (delegatedNamespaceOf cert.credential.subjectAgentId) = true :=
            fun _ => ih later fun pair member => keeps pair (List.mem_cons_of_mem _ member)
          rcases List.mem_cons.mp held with rfl | deeper
          · by_cases slips : slipsOut intermediate.credential.subjectAgentId
                inner.credential.subjectAgentId = true
            · exact keeps (intermediate, inner) List.mem_cons_self slips
            · exact delegated_narrows link.delegated (below inner List.mem_cons_self) (by simpa using slips)
          · exact below intermediate deeper

/-- The domains of a linked chain are those of its first credential. -/
theorem domains_of_linked {first : SignedCredential env} {rest : List (SignedCredential env)}
    (linked : (first :: rest).IsChain (Endorses nowUnix)) {cert : SignedCredential env}
    (held : cert ∈ first :: rest) : cert.credential.trustDomain = first.credential.trustDomain := by
  induction rest generalizing first with
  | nil => rw [List.mem_singleton.mp held]
  | cons next rest ih =>
      obtain ⟨link, later⟩ := List.isChain_cons_cons.mp linked
      rcases List.mem_cons.mp held with rfl | deeper
      · rfl
      · exact (ih later deeper).trans link.domain

/-- Every credential of a linked chain is in its window. -/
theorem windows_of_linked {first : SignedCredential env} {rest : List (SignedCredential env)}
    (current : first.InWindow nowUnix) (linked : (first :: rest).IsChain (Endorses nowUnix))
    {cert : SignedCredential env} (held : cert ∈ first :: rest) : cert.InWindow nowUnix := by
  induction rest generalizing first with
  | nil => exact List.mem_singleton.mp held ▸ current
  | cons next rest ih =>
      obtain ⟨link, later⟩ := List.isChain_cons_cons.mp linked
      rcases List.mem_cons.mp held with rfl | deeper
      · exact current
      · exact ih link.window later deeper

end Confinement

/-- An accepted chain confines delegation exactly when its leaf stays inside at every slip. -/
theorem verify_confines_iff (chain : CertChain env) (bundle : TrustBundle) (nowUnix : Int) (maxDepth : Nat)
    (credential : FederationCredential) (accepted : chain.verify bundle nowUnix maxDepth = .ok credential) :
    Confines chain bundle nowUnix maxDepth ↔ KeepsAtSlips chain := by
  obtain ⟨shallow, first, rest, certificates, anchored, current, linked⟩ := verify_ok accepted
  constructor
  · intro confines link member _
    exact confines.confined link.1 (List.of_mem_zip member).1
  · intro keeps
    have whole : (chain.intermediates ++ [chain.leaf]).IsChain (Endorses nowUnix) := by
      rw [show chain.intermediates ++ [chain.leaf] = first :: rest from certificates]
      exact linked
    exact {
      anchored := ⟨first, by rw [certificates]; exact rfl, anchored⟩
      windows := fun cert held => windows_of_linked current linked (certificates ▸ held)
      signed := certificates ▸ linked.imp fun _ _ link => link.signs
      domains := fun cert held other otherHeld =>
        (domains_of_linked linked (certificates ▸ held)).trans
          (domains_of_linked linked (certificates ▸ otherHeld)).symm
      shallow := shallow
      confined := fun _ held => confined_of_keeps whole keeps held }

section Samples

def rootKey : Digest := digestOf 0x79b5562e8fe654f94078b112e8a98ba7901f853ae695bed7e0e3910bad049664

def outerKey : Digest := digestOf 0xe7f162a10bec559afea195e4dce84b69568d5d2cb0963eb446c0685e2b17f2f0

def innerKey : Digest := digestOf 0xadc14011f82d1c56d956aa4f9d73d8858361a606048525e0d08c638dc75dd8c7

def nodeKey : Digest := digestOf 0x882d0ea3b2864e7a587f3e698cea4459998312e655e05fa5e8b5119d8baac8cd

def sampleClaims (subject : String) (key : Digest) (issuer : String) : FederationCredential where
  subjectAgentId := subject
  subjectPubkey := key
  issuerId := issuer
  trustDomain := "prod"
  notBefore := 0
  notAfter := 200
  credVersion := 1

def bareOuter : FederationCredential := sampleClaims "region/nyc/ca/ca" outerKey "root"

def bareInner : FederationCredential := sampleClaims "region/nyc/ca" innerKey "region/nyc/ca/ca"

def escapedLeaf : FederationCredential := sampleClaims "region/nyc/node-1" nodeKey "region/nyc/ca"

def regionCa : FederationCredential := sampleClaims "region/nyc/ca" outerKey "root"

def siteCa : FederationCredential := sampleClaims "region/nyc/east/ca" innerKey "region/nyc/ca"

def siteLeaf : FederationCredential := sampleClaims "region/nyc/east/node-1" nodeKey "region/nyc/east/ca"

def signatureOf (first second : Nat) : SignatureBytes :=
  ⟨beBytes 32 first ++ beBytes 32 second, by simp⟩

def sampleSignature (credential : FederationCredential) : SignatureBytes :=
  if credential = bareOuter then
    signatureOf 0xe7a76637b5b215cf237878420d8afae5e6c821ee0d7289ac6cde620e4efe29b5
      0x9c6dded953dc773bcc5fe8072216c77f675e1076fbec2cc12bbf71ec865b1e0c
  else if credential = bareInner then
    signatureOf 0xa96a735b0dcb52056a74b7efd00e1e24ebf08c3402e48d467f757269159da099
      0x54888976d06d1a5baecaf9aa6f1e8eff2833b49c4c8bba6fca290d77493f630f
  else if credential = escapedLeaf then
    signatureOf 0xee3779e28ba93fa833969e22fc10bb8004a3426800dfdeb0c9c73901da075cad
      0xe4ad1f20cb26129c88af9007012d07fc557fd62872fc83dd4d3131daa4fcca05
  else if credential = regionCa then
    signatureOf 0x2e74e8c74e97b56c19e1a86202033a84525488eb324c0a1a064ec8e7874a9586
      0x88ba5c7e9190feba7fc8add5d10ec9a3830c9327a55f7e8d98462bd25728de02
  else if credential = siteCa then
    signatureOf 0x3ebea772862a9da79bcee8893d963e80e7ed8405ab867bc29c5c7c7176ce24b2
      0x1941d06ced41a16f87ecef07f385e16b1dda5b67811cecba08d23cff52f7e00e
  else
    signatureOf 0xc38b9220a3cdc266da0e2b09ced01eb2f17fd1980056b86596b3c125bdbdd234
      0xab8d5ecefee3f466e9ef329936c09172d0b1be6172135487942fdf06f04ea904

def claimsOf (credential : FederationCredential) : Bytes :=
  (credential.canonicalClaimsBytes writerOnly).toOption.getD []

/-- A key accepts the signatures that its holder made. -/
def issuerKeyOf (key : Digest) : VerifyingKey where
  toBytes := key
  verifyStrict message signature :=
    ([(rootKey, bareOuter), (outerKey, bareInner), (innerKey, escapedLeaf), (rootKey, regionCa),
      (outerKey, siteCa), (innerKey, siteLeaf)] : List (Digest × FederationCredential)).any fun issued =>
        issued.1 = key ∧ claimsOf issued.2 = message ∧ sampleSignature issued.2 = signature

def chainEnvironment : Environment :=
  { writerOnly with verifyingKeyFromBytes := fun key => some (issuerKeyOf key) }

def mint (credential : FederationCredential) : SignedCredential chainEnvironment where
  credential := credential
  claimsBytes := claimsOf credential
  signature := sampleSignature credential
  carried := .inr rfl

def sampleBundle : TrustBundle := ⟨SortedMap.empty.insert "root" (issuerKeyOf rootKey), some "prod"⟩

def escapedChain : CertChain chainEnvironment := ⟨[mint bareOuter, mint bareInner], mint escapedLeaf⟩

def siteChain : CertChain chainEnvironment := ⟨[mint regionCa, mint siteCa], mint siteLeaf⟩

/-- An intermediate that bears the name of its namespace delegates the namespace above it. -/
theorem escapedChain_escapes :
    escapedChain.verify sampleBundle 100 3 = .ok escapedLeaf ∧
      ¬ Confines escapedChain sampleBundle 100 3 := by
  have accepted : escapedChain.verify sampleBundle 100 3 = .ok escapedLeaf := by decide +kernel
  refine ⟨accepted, fun confines => ?_⟩
  have inside := confines.confined (mint bareOuter) List.mem_cons_self
  have outside : subjectInDelegatedNamespace escapedLeaf.subjectAgentId
      (delegatedNamespaceOf bareOuter.subjectAgentId) = false := by decide +kernel
  exact absurd inside (ne_true_of_eq_false outside)

/-- A chain of regional authorities confines its leaf. -/
theorem siteChain_confines : Confines siteChain sampleBundle 100 3 :=
  (verify_confines_iff siteChain sampleBundle 100 3 siteLeaf (by decide +kernel)).mpr (by decide +kernel)

end Samples
end AiMemory.Federation
