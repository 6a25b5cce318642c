import AiMemory.Capability.Attenuation

/-
This file proves that a minted token permits what its caveats permit after any attenuations.
-/

namespace AiMemory.Capability
open AiMemory.Library AiMemory.Machine

section Construction

/-- A token is minted and then attenuated by its holders. -/
def mintAndAttenuate (env : Environment) (issuerKey : SigningKey) (rootSecret : Bytes)
    (issuer rootId : String) (rootCaveats extCaveats : List Caveat) : Except String CapabilityToken :=
  mintWithSecret env issuerKey rootSecret issuer rootId rootCaveats >>= fun root =>
    extCaveats.foldlM (attenuate env) root

variable {env : Environment} {issuerKey : SigningKey} {rootSecret : Bytes}

/-- A token is minted exactly when its blocks are written, and its tag chains them. -/
theorem mintWithSecret_eq_ok {issuer rootId : String} {rootCaveats : List Caveat} {token : CapabilityToken} :
    mintWithSecret env issuerKey rootSecret issuer rootId rootCaveats = .ok token ↔
      ∃ rootBytes,
        RootBlock.canonicalCbor env ⟨capabilityVersion, issuer, rootId, rootCaveats⟩ = .ok rootBytes ∧
        CapabilityToken.mk capabilityVersion issuer rootId rootCaveats (issuerKey.sign rootBytes).1 []
          (env.hmacSha256 rootSecret rootBytes) = token := map_eq_ok

/-- An attenuation adds its caveat and folds it into the tag. -/
theorem attenuate_eq_ok {token narrower : CapabilityToken} {caveat : Caveat} :
    attenuate env token caveat = .ok narrower ↔
      ∃ cavBytes, caveat.canonicalCbor env = .ok cavBytes ∧
        { token with
          extCaveats := token.extCaveats ++ [caveat]
          tag := env.hmacSha256 token.tag cavBytes } = narrower := map_eq_ok

/-- Attenuations append their caveats and keep the root block. -/
theorem attenuations_caveats {token final : CapabilityToken} {caveats : List Caveat}
    (done : caveats.foldlM (attenuate env) token = .ok final) :
    final.rootBlock = token.rootBlock ∧ final.extCaveats = token.extCaveats ++ caveats := by
  induction caveats generalizing token with
  | nil => simp [← Except.ok.inj done]
  | cons caveat rest ih =>
      obtain ⟨narrower, first, later⟩ := foldlM_cons_eq_ok.mp done
      obtain ⟨_, _, rfl⟩ := attenuate_eq_ok.mp first
      obtain ⟨sameRoot, extended⟩ := ih later
      refine ⟨sameRoot, ?_⟩
      rw [extended, List.append_assoc, List.singleton_append]

/-- The signature and the tag of the token were made by the issuer and by the holders. -/
structure Genuine (env : Environment) (issuerKey : SigningKey) (rootSecret : Bytes) (token : CapabilityToken)
    (rootBytes : Bytes) : Prop where
  version : token.v = capabilityVersion
  encoded : token.rootBlock.canonicalCbor env = .ok rootBytes
  signed : token.rootSig = (issuerKey.sign rootBytes).1
  chained : token.extCaveats.foldlM (foldCaveat env) (env.hmacSha256 rootSecret rootBytes) = .ok token.tag

/-- A minted token is genuine. -/
theorem genuine_of_minted {issuer rootId : String} {rootCaveats : List Caveat} {token : CapabilityToken}
    (minted : mintWithSecret env issuerKey rootSecret issuer rootId rootCaveats = .ok token) :
    ∃ rootBytes, Genuine env issuerKey rootSecret token rootBytes := by
  obtain ⟨rootBytes, encoded, rfl⟩ := mintWithSecret_eq_ok.mp minted
  exact ⟨rootBytes, rfl, encoded, rfl, rfl⟩

/-- The fold of the verifier takes the same step as the attenuation. -/
theorem foldCaveat_of_encoded {caveat : Caveat} {tag cavBytes : Bytes}
    (encoded : caveat.canonicalCbor env = .ok cavBytes) :
    foldCaveat env tag caveat = .ok (env.hmacSha256 tag cavBytes) := by
  unfold foldCaveat
  rw [encoded]

/-- An attenuation keeps a token genuine. -/
theorem Genuine.attenuated {token narrower : CapabilityToken} {caveat : Caveat} {rootBytes : Bytes}
    (genuine : Genuine env issuerKey rootSecret token rootBytes)
    (attenuated : attenuate env token caveat = .ok narrower) :
    Genuine env issuerKey rootSecret narrower rootBytes := by
  obtain ⟨cavBytes, encoded, rfl⟩ := attenuate_eq_ok.mp attenuated
  refine ⟨genuine.version, genuine.encoded, genuine.signed, ?_⟩
  rw [List.foldlM_append, bind_eq_ok]
  exact ⟨token.tag, genuine.chained, foldlM_cons_eq_ok.mpr ⟨_, foldCaveat_of_encoded encoded, rfl⟩⟩

/-- Every token that is obtained by minting and attenuating is genuine. -/
theorem genuine_of_obtained {issuer rootId : String} {rootCaveats extCaveats : List Caveat}
    {token : CapabilityToken}
    (obtained : mintAndAttenuate env issuerKey rootSecret issuer rootId rootCaveats extCaveats = .ok token) :
    ∃ rootBytes, Genuine env issuerKey rootSecret token rootBytes := by
  obtain ⟨root, minted, attenuations⟩ := bind_eq_ok.mp obtained
  obtain ⟨rootBytes, genuine⟩ := genuine_of_minted minted
  have kept : ∀ state label next, Genuine env issuerKey rootSecret state rootBytes →
      attenuate env state label = .ok next → Genuine env issuerKey rootSecret next rootBytes :=
    fun _ _ _ => Genuine.attenuated
  exact ⟨rootBytes, foldlM_invariant kept attenuations genuine⟩

/-- A token that was obtained carries exactly the caveats of its construction. -/
theorem caveats_of_obtained {issuer rootId : String} {rootCaveats extCaveats : List Caveat}
    {token : CapabilityToken}
    (obtained : mintAndAttenuate env issuerKey rootSecret issuer rootId rootCaveats extCaveats = .ok token) :
    token.rootBlock = ⟨capabilityVersion, issuer, rootId, rootCaveats⟩ ∧ token.extCaveats = extCaveats := by
  obtain ⟨root, minted, attenuations⟩ := bind_eq_ok.mp obtained
  obtain ⟨_, _, rfl⟩ := mintWithSecret_eq_ok.mp minted
  exact attenuations_caveats attenuations

end Construction

section Verification

variable {env : Environment} {issuerKey : SigningKey} {rootSecret : Bytes}

/-- The configuration enrols the issuer with the key and the secret of the minting. -/
structure Enrols (cfg : CapabilityConfig) (issuer : String) (issuerCfg : IssuerConfig)
    (issuerKey : SigningKey) (rootSecret : Bytes) : Prop where
  listed : cfg.issuers issuer = some issuerCfg
  pubkey : issuerCfg.pubkey = issuerKey.verifyingKey
  rootSecret : issuerCfg.rootSecret = rootSecret

def Accepts (env : Environment) (token : CapabilityToken) (cfg : CapabilityConfig) (req : CapRequest) :
    Prop :=
  ∃ grant, verify env token cfg req = .ok grant

theorem tryFromSlice_val (signature : SignatureBytes) : tryFromSlice signature.1 = some signature :=
  dif_pos signature.2

/-- The tag of a genuine token authenticates under its own secret. -/
theorem Genuine.authenticate_eq_ok {token : CapabilityToken} {rootBytes : Bytes} {issuerCfg : IssuerConfig}
    (genuine : Genuine env issuerKey rootSecret token rootBytes)
    (sameSecret : issuerCfg.rootSecret = rootSecret) :
    authenticate env token issuerCfg issuerKey.verifyingKey = .ok () := by
  simp only [authenticate, genuine.encoded, genuine.signed, tryFromSlice_val, issuerKey.verifies, if_true]
  rw [sameSecret, bind_eq_ok]
  exact ⟨token.tag, genuine.chained, if_pos rfl⟩

/-- Only the caveats are left to decide on a genuine token. -/
theorem Genuine.verify_eq {token : CapabilityToken} {rootBytes : Bytes} {cfg : CapabilityConfig}
    {issuerCfg : IssuerConfig} {req : CapRequest} (genuine : Genuine env issuerKey rootSecret token rootBytes)
    (enrols : Enrols cfg token.issuer issuerCfg issuerKey rootSecret) :
    verify env token cfg req = enforce token issuerCfg req := by
  have resolved : resolveCapabilityIssuerPubkey cfg token.issuer = some issuerKey.verifyingKey := by
    rw [resolveCapabilityIssuerPubkey, enrols.listed, Option.map_some, enrols.pubkey]
  have authentic := genuine.authenticate_eq_ok enrols.rootSecret
  simp only [verify, genuine.version, enrols.listed, resolved, authentic]
  rfl

/-- A genuine token is accepted exactly when its caveats and its issuer permit the request. -/
theorem Genuine.accepts_iff {token : CapabilityToken} {rootBytes : Bytes} {cfg : CapabilityConfig}
    {issuerCfg : IssuerConfig} {req : CapRequest} (genuine : Genuine env issuerKey rootSecret token rootBytes)
    (enrols : Enrols cfg token.issuer issuerCfg issuerKey rootSecret) :
    Accepts env token cfg req ↔ Permits (token.rootCaveats ++ token.extCaveats) issuerCfg req := by
  unfold Accepts
  simp only [genuine.verify_eq enrols, enforce_eq_ok]
  exact ⟨fun ⟨_, permits, _⟩ => permits, fun permits => ⟨_, permits, rfl⟩⟩

end Verification

section Narrowing

variable {issuerCfg : IssuerConfig} {req : CapRequest}

/-- One more caveat permits what was permitted and what it allows. -/
theorem permits_append {caveats : List Caveat} {caveat : Caveat} :
    Permits (caveats ++ [caveat]) issuerCfg req ↔ Permits caveats issuerCfg req ∧ caveat.Holds req := by
  constructor
  · intro permits
    obtain ⟨each, op, under⟩ := permits
    exact ⟨⟨fun earlier present => each earlier (List.mem_append_left _ present), op, under⟩,
      each caveat List.mem_append_cons_self⟩
  · intro permits
    obtain ⟨⟨each, op, under⟩, holds⟩ := permits
    refine ⟨fun present member => ?_, op, under⟩
    rcases List.mem_append.mp member with earlier | last
    · exact each present earlier
    · rw [List.mem_singleton.mp last]
      exact holds

/-- The ceilings that hold a permitted request are ancestors of its namespace. -/
theorem Permits.namespace_under {caveats : List Caveat} (permits : Permits caveats issuerCfg req) :
    ∀ namespaces ∈ ((caveats.foldl Ceilings.narrow ⟨.admin, none⟩).clamp issuerCfg).nsPrefix,
      namespaceUnder req.namespace namespaces :=
  clamp_under (narrow_under (fun _ absent => nomatch absent) permits.caveats) permits.namespaceCeiling

/-- One more caveat lowers the level of the grant and lengthens its namespace. -/
theorem grant_narrows {token narrower : CapabilityToken} {caveat : Caveat} {grant narrowed : VerifiedGrant}
    (granted : enforce token issuerCfg req = .ok grant)
    (grantedNarrower : enforce narrower issuerCfg req = .ok narrowed)
    (sameRoot : narrower.rootCaveats = token.rootCaveats)
    (extended : narrower.extCaveats = token.extCaveats ++ [caveat]) :
    narrowed.opLevel ≤ grant.opLevel ∧ Descends narrowed.namespacePrefix grant.namespacePrefix := by
  obtain ⟨permits, rfl⟩ := enforce_eq_ok.mp granted
  obtain ⟨permitsMore, rfl⟩ := enforce_eq_ok.mp grantedNarrower
  rw [sameRoot, extended, ← List.append_assoc] at permitsMore ⊢
  have underMore := permitsMore.namespace_under
  rw [List.foldl_append, List.foldl_cons, List.foldl_nil] at underMore ⊢
  constructor
  · exact OpLevel.min_mono (narrow_opCeiling_le _ caveat) _
  · exact descends_of_deeper (clamp_deeper (narrow_deeper _ caveat) issuerCfg)
      permits.namespace_under underMore

end Narrowing

section Contract

/-- A token permits what its caveats and its issuer permit, and each attenuation narrows it by one caveat. -/
theorem verify_narrows (env : Environment) (issuerKey : SigningKey) {rootSecret : Bytes}
    {issuer rootId : String} {rootCaveats extCaveats : List Caveat} {token : CapabilityToken}
    {cfg : CapabilityConfig}
    {issuerCfg : IssuerConfig} (req : CapRequest)
    (obtained : mintAndAttenuate env issuerKey rootSecret issuer rootId rootCaveats extCaveats = .ok token)
    (enrols : Enrols cfg issuer issuerCfg issuerKey rootSecret) :
    (Accepts env token cfg req ↔ Permits (rootCaveats ++ extCaveats) issuerCfg req) ∧
      ∀ caveat narrower, attenuate env token caveat = .ok narrower →
        (Accepts env narrower cfg req ↔ Accepts env token cfg req ∧ caveat.Holds req) ∧
          ∀ grant narrowed, verify env token cfg req = .ok grant →
            verify env narrower cfg req = .ok narrowed →
              narrowed.opLevel ≤ grant.opLevel ∧ Descends narrowed.namespacePrefix grant.namespacePrefix := by
  obtain ⟨rootBytes, genuine⟩ := genuine_of_obtained obtained
  obtain ⟨sameBlock, sameExt⟩ := caveats_of_obtained obtained
  have sameIssuer : token.issuer = issuer := congrArg RootBlock.issuer sameBlock
  have sameRoot : token.rootCaveats = rootCaveats := congrArg RootBlock.rootCaveats sameBlock
  subst sameIssuer sameRoot sameExt
  refine ⟨genuine.accepts_iff enrols, fun caveat narrower attenuated => ?_⟩
  have genuineNarrower := genuine.attenuated attenuated
  obtain ⟨_, _, rfl⟩ := attenuate_eq_ok.mp attenuated
  constructor
  · rw [genuine.accepts_iff enrols, genuineNarrower.accepts_iff enrols, ← List.append_assoc]
    exact permits_append
  · intro grant narrowed granted grantedNarrower
    rw [genuine.verify_eq enrols] at granted
    rw [genuineNarrower.verify_eq enrols] at grantedNarrower
    exact grant_narrows granted grantedNarrower rfl rfl

def sampleSecret : Bytes := "root-secret-xyz".toUTF8.data.toList

def sampleRootBytes : Bytes :=
  beBytes 32 0xa5676361705f646f6d781c61692d6d656d6f72792f6361706162696c6974792d ++
    beBytes 32 0x726f6f742f76316a6361705f6973737565726961693a69737375657270636170 ++
    beBytes 32 0x5f726f6f745f63617665617473828200647465616d82041b00000002540be3ff ++
    beBytes 26 0x6b6361705f726f6f745f696466726f6f742d31656361705f7601

def sampleTag : Bytes :=
  beBytes 32 0xd4d781db05de6ff01b38a3e1ce93148c8363e9745623ffbe11a2734b65fbcf99

def ceilingBytes : Bytes := [0x82, 1, 2]

def ceilingTag : Bytes :=
  beBytes 32 0x1de28f931ec1a524083286f1884f7fead341ae2a5bb2a3fe6c5fa2a4ee21a533

def storeBytes : Bytes := [0x82, 2, 0x65, 0x53, 0x74, 0x6F, 0x72, 0x65]

def storeTag : Bytes :=
  beBytes 32 0xbfc7904cbb765913dace4d9f679720c74895d7925e4adc6491a19104ea65f67a

/-- The key and the data can be read back from their joined text. -/
def joined : Bytes → Bytes → Bytes
  | [], data => 0 :: data
  | byte :: key, data => 1 :: byte :: joined key data

/-- The environment covers the blocks of one token. -/
def sampleEnvironment : Environment where
  hmacSha256 key data :=
    if key = sampleSecret ∧ data = sampleRootBytes then sampleTag
    else if key = sampleTag ∧ data = ceilingBytes then ceilingTag
    else if key = ceilingTag ∧ data = storeBytes then storeTag
    else joined key data
  intoWriter
    | .map [(.text _, .text _), (.text _, .text issuer),
        (.text _, .array [.array [.integer 0, .text namespaces], .array [.integer 4, .integer instant]]),
        (.text _, .text rootId), (.text _, .integer v)] =>
        if issuer = "ai:issuer" ∧ namespaces = "team" ∧ instant = 9999999999 ∧ rootId = "root-1" ∧ v = 1
        then some sampleRootBytes else none
    | .array [.integer 1, .integer level] => if level = 2 then some ceilingBytes else none
    | .array [.integer 2, .text name] => if name = "Store" then some storeBytes else none
    | _ => none
  fromReader bytes :=
    if bytes = sampleRootBytes then
      some (RootBlock.toValue
        ⟨capabilityVersion, "ai:issuer", "root-1", [.namespacePrefix "team", .expiresAt 9999999999]⟩)
    else if bytes = ceilingBytes then some (Caveat.toValue (.opCeiling .write))
    else if bytes = storeBytes then some (Caveat.toValue (.action "Store"))
    else none

def sampleSignature : SignatureBytes :=
  ⟨beBytes 32 0xe92ac5482d46e51d5936dd033f19b3b59daa910fac4720cc2523893934718402 ++
    beBytes 32 0x52535882d261c3b7f18c0876f0c064218663715ba43f22c4ac971d54b0ea970a, by decide⟩

def sampleSign (message : Bytes) : SignatureBytes :=
  if message = sampleRootBytes then sampleSignature else ⟨beBytes 64 0, by decide⟩

def sampleKey : SigningKey where
  verifyingKey := {
    toBytes := digestOf 0xea4a6c63e29c520abef5507b132ec5f9954776aebebe7b92421eea691446d22c
    verifyStrict message signature := signature = sampleSign message }
  sign := sampleSign
  verifies message := decide_eq_true (Eq.refl (sampleSign message))

def sampleIssuer : IssuerConfig where
  pubkey := sampleKey.verifyingKey
  rootSecret := sampleSecret
  maxOp := .admin
  namespacePrefix := none

def sampleConfig : CapabilityConfig where
  enabled := true
  issuers issuer := if issuer = "ai:issuer" then some sampleIssuer else none

theorem sampleConfig_enrols : Enrols sampleConfig "ai:issuer" sampleIssuer sampleKey sampleSecret :=
  ⟨rfl, rfl, rfl⟩

def storeRequest : CapRequest := ⟨"Store", "team/proj", "ai:a", 100⟩

def deleteRequest : CapRequest := { storeRequest with action := "Delete" }

/-- The token carries an operation ceiling beyond the caveats of its root. -/
def ceilingToken : CapabilityToken where
  v := capabilityVersion
  issuer := "ai:issuer"
  rootId := "root-1"
  rootCaveats := [.namespacePrefix "team", .expiresAt 9999999999]
  rootSig := sampleSignature.1
  extCaveats := [.opCeiling .write]
  tag := ceilingTag

theorem ceilingToken_obtained :
    mintAndAttenuate sampleEnvironment sampleKey sampleSecret "ai:issuer" "root-1"
      [.namespacePrefix "team", .expiresAt 9999999999] [.opCeiling .write] = .ok ceilingToken := by
  decide +kernel

/-- One more attenuation leaves only the store action. -/
def storeToken : CapabilityToken :=
  { ceilingToken with
    extCaveats := [.opCeiling .write, .action "Store"]
    tag := storeTag }

theorem storeToken_attenuated :
    attenuate sampleEnvironment ceilingToken (.action "Store") = .ok storeToken := by
  decide +kernel

/-- The attenuation takes the deletion away and keeps the store. -/
theorem storeToken_narrows :
    (Accepts sampleEnvironment ceilingToken sampleConfig storeRequest ∧
        Accepts sampleEnvironment ceilingToken sampleConfig deleteRequest) ∧
      Accepts sampleEnvironment storeToken sampleConfig storeRequest ∧
        ¬ Accepts sampleEnvironment storeToken sampleConfig deleteRequest := by
  obtain ⟨storePermits, storeNarrows⟩ := verify_narrows sampleEnvironment sampleKey storeRequest
    ceilingToken_obtained sampleConfig_enrols
  obtain ⟨deletePermits, deleteNarrows⟩ := verify_narrows sampleEnvironment sampleKey deleteRequest
    ceilingToken_obtained sampleConfig_enrols
  have stores := storePermits.mpr ⟨by decide, by decide, fun _ absent => nomatch absent⟩
  have deletes := deletePermits.mpr ⟨by decide, by decide, fun _ absent => nomatch absent⟩
  refine ⟨⟨stores, deletes⟩, ?_, fun accepted => ?_⟩
  · exact (storeNarrows (.action "Store") storeToken storeToken_attenuated).1.mpr ⟨stores, rfl⟩
  · have holds := ((deleteNarrows (.action "Store") storeToken storeToken_attenuated).1.mp accepted).2
    exact absurd holds (by decide)

end Contract
end AiMemory.Capability
