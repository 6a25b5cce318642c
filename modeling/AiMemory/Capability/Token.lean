import AiMemory.Library.Run
import AiMemory.Lineage.Record

/-
This file embeds the capability tokens with their minting, attenuation and verification.
-/

namespace AiMemory.Capability
open AiMemory.Machine
open AiMemory.Lineage (CborValue)

def capabilityVersion : UInt16 := 1

inductive OpLevel where
  | none
  | read
  | write
  | admin
  deriving DecidableEq

namespace OpLevel

/-- The integer of the wire form follows the order of the levels. -/
def wireOrd : OpLevel → Int
  | none => 0
  | read => 1
  | write => 2
  | admin => 3

instance : LE OpLevel := ⟨fun left right => left.wireOrd ≤ right.wireOrd⟩

instance (left right : OpLevel) : Decidable (left ≤ right) :=
  inferInstanceAs (Decidable (left.wireOrd ≤ right.wireOrd))

def min (left right : OpLevel) : OpLevel := if left ≤ right then left else right

end OpLevel

/-- An unknown action needs the highest level. -/
def opLevelOf (action : String) : OpLevel :=
  if action = "Store" ∨ action = "Promote" ∨ action = "Delete" then .write
  else if action = "Reflect" then .read
  else .admin

inductive Caveat where
  | namespacePrefix (namespaces : String)
  | opCeiling (level : OpLevel)
  | action (name : String)
  | agent (id : String)
  | expiresAt (instant : Int)
  | notBefore (instant : Int)
  deriving DecidableEq

/-- A caveat is written as its tag and its payload. -/
def Caveat.toValue : Caveat → CborValue
  | .namespacePrefix namespaces => .array [.integer 0, .text namespaces]
  | .opCeiling level => .array [.integer 1, .integer level.wireOrd]
  | .action name => .array [.integer 2, .text name]
  | .agent id => .array [.integer 3, .text id]
  | .expiresAt instant => .array [.integer 4, .integer instant]
  | .notBefore instant => .array [.integer 5, .integer instant]

structure RootBlock where
  v : UInt16
  issuer : String
  rootId : String
  rootCaveats : List Caveat
  deriving DecidableEq

def domainRoot : String := "ai-memory/capability-root/v1"

/-- The keys of the block stand in their lexicographic order. -/
def RootBlock.toValue (root : RootBlock) : CborValue :=
  .map [(.text "cap_dom", .text domainRoot), (.text "cap_issuer", .text root.issuer),
    (.text "cap_root_caveats", .array (root.rootCaveats.map Caveat.toValue)),
    (.text "cap_root_id", .text root.rootId), (.text "cap_v", .integer root.v.toNat)]

/-- The process supplies its message authentication and its codec. -/
structure Environment where
  hmacSha256 : Bytes → Bytes → Bytes
  intoWriter : CborValue → Option Bytes
  fromReader : Bytes → Option CborValue

section Encoding

variable (env : Environment)

def Caveat.canonicalCbor (caveat : Caveat) : Except String Bytes :=
  (env.intoWriter caveat.toValue).elim (.error "capability: encode caveat") .ok

def RootBlock.canonicalCbor (root : RootBlock) : Except String Bytes :=
  (env.intoWriter root.toValue).elim (.error "capability: encode root block") .ok

end Encoding

structure CapabilityToken where
  v : UInt16
  issuer : String
  rootId : String
  rootCaveats : List Caveat
  rootSig : Bytes
  extCaveats : List Caveat
  tag : Bytes
  deriving DecidableEq

def CapabilityToken.rootBlock (token : CapabilityToken) : RootBlock :=
  ⟨token.v, token.issuer, token.rootId, token.rootCaveats⟩

inductive CapReject where
  | unsupportedVersion
  | unknownIssuer
  | badRootSig
  | badChain
  | expired
  | notYetValid
  | caveat (reason : String)
  | malformed
  deriving DecidableEq

structure IssuerConfig where
  pubkey : VerifyingKey
  rootSecret : Bytes
  maxOp : OpLevel
  namespacePrefix : Option String

/-- The allowlist is only read by issuer. -/
structure CapabilityConfig where
  enabled : Bool
  issuers : String → Option IssuerConfig

def resolveCapabilityIssuerPubkey (cfg : CapabilityConfig) (issuer : String) : Option VerifyingKey :=
  (cfg.issuers issuer).map IssuerConfig.pubkey

structure CapRequest where
  action : String
  «namespace» : String
  agentId : String
  now : Int

structure VerifiedGrant where
  rootId : String
  issuer : String
  opLevel : OpLevel
  namespacePrefix : String
  deriving DecidableEq

/-- A signing key makes signatures that its own verifying key accepts. -/
structure SigningKey where
  verifyingKey : VerifyingKey
  sign : Bytes → SignatureBytes
  verifies : ∀ message, verifyingKey.verifyStrict message (sign message) = true

section Construction

variable (env : Environment)

def mintWithSecret (issuerKey : SigningKey) (rootSecret : Bytes) (issuer rootId : String)
    (rootCaveats : List Caveat) : Except String CapabilityToken :=
  (RootBlock.canonicalCbor env ⟨capabilityVersion, issuer, rootId, rootCaveats⟩).map fun rootBytes => {
    v := capabilityVersion
    issuer := issuer
    rootId := rootId
    rootCaveats := rootCaveats
    rootSig := (issuerKey.sign rootBytes).1
    extCaveats := []
    tag := env.hmacSha256 rootSecret rootBytes }

/-- The new tag needs the old one and no secret. -/
def attenuate (token : CapabilityToken) (caveat : Caveat) : Except String CapabilityToken :=
  (caveat.canonicalCbor env).map fun cavBytes =>
    { token with
      extCaveats := token.extCaveats ++ [caveat]
      tag := env.hmacSha256 token.tag cavBytes }

end Construction

section Verification

/-- The namespace is the ancestor or lies under it. -/
def namespaceUnder («namespace» ancestor : String) : Bool :=
  «namespace» = ancestor ∨ (ancestor ++ "/").toList <+: «namespace».toList

/-- The caveats seen so far leave a ceiling and the longest of their namespaces. -/
structure Ceilings where
  opCeiling : OpLevel
  nsPrefix : Option String
  deriving DecidableEq

/-- Only a longer text replaces the current one. -/
def deepen (current : Option String) (namespaces : String) : Option String :=
  if current.all fun held => namespaces.utf8ByteSize > held.utf8ByteSize then some namespaces else current

def enforceCaveat (req : CapRequest) (held : Ceilings) : Caveat → Except CapReject Ceilings
  | .namespacePrefix namespaces =>
      if namespaceUnder req.namespace namespaces then
        .ok { held with nsPrefix := deepen held.nsPrefix namespaces }
      else .error (.caveat "namespace_prefix")
  | .opCeiling level =>
      if opLevelOf req.action ≤ level then .ok { held with opCeiling := held.opCeiling.min level }
      else .error (.caveat "op_ceiling")
  | .action name => if req.action = name then .ok held else .error (.caveat "action")
  | .agent id => if req.agentId = id then .ok held else .error (.caveat "agent")
  | .expiresAt instant => if req.now ≤ instant then .ok held else .error .expired
  | .notBefore instant => if instant ≤ req.now then .ok held else .error .notYetValid

/-- The issuer namespace narrows the grant like a last caveat. -/
def clampNamespace (issuerCfg : IssuerConfig) (req : CapRequest) (held : Ceilings) :
    Except CapReject Ceilings :=
  match issuerCfg.namespacePrefix with
  | none => .ok held
  | some issuerNs =>
      if namespaceUnder req.namespace issuerNs then
        .ok { held with nsPrefix := deepen held.nsPrefix issuerNs }
      else .error (.caveat "issuer_namespace")

def clampToIssuer (token : CapabilityToken) (issuerCfg : IssuerConfig) (req : CapRequest)
    (held : Ceilings) : Except CapReject VerifiedGrant :=
  if opLevelOf req.action ≤ issuerCfg.maxOp then
    clampNamespace issuerCfg req held >>= fun clamped =>
      if opLevelOf req.action ≤ clamped.opCeiling.min issuerCfg.maxOp then
        .ok {
          rootId := token.rootId
          issuer := token.issuer
          opLevel := clamped.opCeiling.min issuerCfg.maxOp
          namespacePrefix := clamped.nsPrefix.getD "" }
      else .error (.caveat "op_ceiling")
  else .error (.caveat "issuer_ceiling")

/-- The caveats of the root come first. -/
def enforce (token : CapabilityToken) (issuerCfg : IssuerConfig) (req : CapRequest) :
    Except CapReject VerifiedGrant :=
  (token.rootCaveats ++ token.extCaveats).foldlM (enforceCaveat req) ⟨.admin, none⟩ >>=
    clampToIssuer token issuerCfg req

variable (env : Environment)

def foldCaveat (tag : Bytes) (caveat : Caveat) : Except CapReject Bytes :=
  match caveat.canonicalCbor env with
  | .ok cav => .ok (env.hmacSha256 tag cav)
  | .error _ => .error .malformed

/-- The signature names the issuer and the chain of tags carries the authority. -/
def authenticate (token : CapabilityToken) (issuerCfg : IssuerConfig) (pubkey : VerifyingKey) :
    Except CapReject Unit :=
  match token.rootBlock.canonicalCbor env with
  | .error _ => .error .malformed
  | .ok rootBytes =>
      match tryFromSlice token.rootSig with
      | none => .error .badRootSig
      | some signature =>
          if pubkey.verifyStrict rootBytes signature then
            token.extCaveats.foldlM (foldCaveat env) (env.hmacSha256 issuerCfg.rootSecret rootBytes) >>=
              fun tag => if tag = token.tag then .ok () else .error .badChain
          else .error .badRootSig

def verify (token : CapabilityToken) (cfg : CapabilityConfig) (req : CapRequest) :
    Except CapReject VerifiedGrant :=
  if token.v ≠ capabilityVersion then .error .unsupportedVersion
  else
    match cfg.issuers token.issuer, resolveCapabilityIssuerPubkey cfg token.issuer with
    | some issuerCfg, some pubkey =>
        authenticate env token issuerCfg pubkey >>= fun _ => enforce token issuerCfg req
    | _, _ => .error .unknownIssuer

end Verification
end AiMemory.Capability
