import AiMemory.Capability.Narrowing
import AiMemory.Library.MacChain

/-
This file proves that a holder of tokens can only append caveats to them.
-/

namespace AiMemory.Capability
open AiMemory.Library AiMemory.Machine
open AiMemory.Lineage (CborValue)

section Encoding

def Caveat.Writes (env : Environment) (caveat : Caveat) (bytes : Bytes) : Prop :=
  caveat.canonicalCbor env = .ok bytes

/-- The codec reads root blocks and caveats back as it wrote them. -/
structure ReadsBack (env : Environment) : Prop where
  root : ∀ (root : RootBlock) (bytes : Bytes), env.intoWriter root.toValue = some bytes →
    env.fromReader bytes = some root.toValue
  caveat : ∀ (caveat : Caveat) (bytes : Bytes), env.intoWriter caveat.toValue = some bytes →
    env.fromReader bytes = some caveat.toValue

theorem OpLevel.wireOrd_injective : Function.Injective OpLevel.wireOrd := by
  intro first second same
  cases first <;> cases second <;> first | rfl | exact absurd same (by decide)

/-- Different caveats are written as different values. -/
theorem Caveat.toValue_injective : Function.Injective Caveat.toValue := by
  intro first second same
  cases first <;> cases second <;> simp [Caveat.toValue, OpLevel.wireOrd_injective.eq_iff] at same ⊢ <;>
    exact same

/-- Different root blocks are written as different values. -/
theorem RootBlock.toValue_injective : Function.Injective RootBlock.toValue := by
  intro first second same
  cases first
  cases second
  simp only [RootBlock.toValue, CborValue.map.injEq, CborValue.array.injEq, CborValue.text.injEq,
    CborValue.integer.injEq, List.cons.injEq, Prod.mk.injEq, true_and, and_true, Int.natCast_inj,
    UInt16.toNat_inj] at same
  obtain ⟨rfl, sameCaveats, rfl, rfl⟩ := same
  rw [List.map_injective_iff.mpr Caveat.toValue_injective sameCaveats]

/-- A caveat is an array and a root block is a map. -/
theorem Caveat.toValue_ne_root (caveat : Caveat) (root : RootBlock) : caveat.toValue ≠ root.toValue := by
  cases caveat <;> exact fun same => nomatch same

variable {env : Environment}

theorem Caveat.canonicalCbor_eq_ok {caveat : Caveat} {bytes : Bytes} :
    caveat.canonicalCbor env = .ok bytes ↔ env.intoWriter caveat.toValue = some bytes := elim_error_eq_ok

theorem RootBlock.canonicalCbor_eq_ok {root : RootBlock} {bytes : Bytes} :
    root.canonicalCbor env = .ok bytes ↔ env.intoWriter root.toValue = some bytes := elim_error_eq_ok

/-- Values that are read back from the same bytes are equal. -/
theorem value_unique {first second : CborValue} {bytes : Bytes}
    (readFirst : env.fromReader bytes = some first) (readSecond : env.fromReader bytes = some second) :
    first = second :=
  Option.some.inj (readFirst.symm.trans readSecond)

namespace ReadsBack

theorem of_caveat (codec : ReadsBack env) {caveat : Caveat} {bytes : Bytes}
    (wrote : caveat.canonicalCbor env = .ok bytes) : env.fromReader bytes = some caveat.toValue :=
  codec.caveat caveat bytes (Caveat.canonicalCbor_eq_ok.mp wrote)

theorem of_root (codec : ReadsBack env) {root : RootBlock} {bytes : Bytes}
    (wrote : root.canonicalCbor env = .ok bytes) : env.fromReader bytes = some root.toValue :=
  codec.root root bytes (RootBlock.canonicalCbor_eq_ok.mp wrote)

/-- The bytes of a caveat name the caveat. -/
theorem caveat_unique (codec : ReadsBack env) :
    Relator.LeftUnique (Caveat.Writes env) := by
  intro first second bytes wroteFirst wroteSecond
  have sameValue := value_unique (codec.of_caveat wroteFirst) (codec.of_caveat wroteSecond)
  exact Caveat.toValue_injective sameValue

/-- The bytes of a root block determine it. -/
theorem root_unique (codec : ReadsBack env) {first second : RootBlock} {bytes : Bytes}
    (wroteFirst : first.canonicalCbor env = .ok bytes) (wroteSecond : second.canonicalCbor env = .ok bytes) :
    first = second := by
  have sameValue := value_unique (codec.of_root wroteFirst) (codec.of_root wroteSecond)
  exact RootBlock.toValue_injective sameValue

/-- No bytes stand for both a caveat and a root block. -/
theorem caveat_ne_root (codec : ReadsBack env) {caveat : Caveat} {root : RootBlock} {bytes : Bytes}
    (wroteCaveat : caveat.canonicalCbor env = .ok bytes) : root.canonicalCbor env ≠ .ok bytes := by
  intro wroteRoot
  have sameValue := value_unique (codec.of_caveat wroteCaveat) (codec.of_root wroteRoot)
  exact caveat.toValue_ne_root root sameValue

end ReadsBack

end Encoding

section Chains

variable {env : Environment}

/-- The tag of the token is the chain over the bytes of its root block and its caveats. -/
structure Chained (env : Environment) (secret : Bytes) (token : CapabilityToken) (rootBytes : Bytes)
    (blocks : List Bytes) : Prop where
  root : token.rootBlock.canonicalCbor env = .ok rootBytes
  caveats : List.Forall₂ (Caveat.Writes env) token.extCaveats blocks
  tag : chain env.hmacSha256 secret (rootBytes :: blocks) = token.tag

theorem foldCaveat_eq_ok {tag next : Bytes} {caveat : Caveat} :
    foldCaveat env tag caveat = .ok next ↔
      ∃ block, caveat.canonicalCbor env = .ok block ∧ env.hmacSha256 tag block = next := by
  unfold foldCaveat
  cases caveat.canonicalCbor env with
  | error message => exact iff_of_false (fun same => nomatch same) fun ⟨_, same, _⟩ => nomatch same
  | ok block =>
      exact ⟨fun same => ⟨block, rfl, Except.ok.inj same⟩,
        fun ⟨_, same, keyed⟩ => congrArg Except.ok (Except.ok.inj same ▸ keyed)⟩

/-- The loop over the caveats computes the chain over their bytes. -/
theorem foldCaveats_eq_ok {caveats : List Caveat} {tag final : Bytes} :
    caveats.foldlM (foldCaveat env) tag = .ok final ↔
      ∃ blocks, List.Forall₂ (Caveat.Writes env) caveats blocks ∧
        chain env.hmacSha256 tag blocks = final := by
  induction caveats generalizing tag with
  | nil =>
      constructor
      · intro same
        exact ⟨[], .nil, Except.ok.inj same⟩
      · intro encoded
        obtain ⟨_, each, chained⟩ := encoded
        cases each
        exact congrArg Except.ok chained
  | cons caveat rest ih =>
      rw [foldlM_cons_eq_ok]
      constructor
      · intro folded
        obtain ⟨middle, first, later⟩ := folded
        obtain ⟨block, wrote, rfl⟩ := foldCaveat_eq_ok.mp first
        obtain ⟨blocks, each, chained⟩ := ih.mp later
        exact ⟨block :: blocks, .cons wrote each, chained⟩
      · intro encoded
        obtain ⟨_, each, chained⟩ := encoded
        obtain ⟨block, blocks, wrote, later, rfl⟩ := List.forall₂_cons_left_iff.mp each
        exact ⟨_, foldCaveat_eq_ok.mpr ⟨block, wrote, rfl⟩, ih.mpr ⟨blocks, later, chained⟩⟩

/-- A genuine token is chained over the written blocks of its caveats. -/
theorem Genuine.chained_blocks {issuerKey : SigningKey} {rootSecret rootBytes : Bytes}
    {token : CapabilityToken} (genuine : Genuine env issuerKey rootSecret token rootBytes) :
    ∃ blocks, Chained env rootSecret token rootBytes blocks := by
  obtain ⟨blocks, each, tag⟩ := foldCaveats_eq_ok.mp genuine.chained
  exact ⟨blocks, genuine.encoded, each, tag⟩

theorem ReadsBack.root_not_mem (codec : ReadsBack env) {root : RootBlock} {rootBytes : Bytes}
    (wrote : root.canonicalCbor env = .ok rootBytes) {caveats : List Caveat} {blocks : List Bytes}
    (each : List.Forall₂ (Caveat.Writes env) caveats blocks) :
    rootBytes ∉ blocks := by
  induction each with
  | nil => exact List.not_mem_nil
  | cons wroteCaveat _ ih =>
      intro present
      rcases List.mem_cons.mp present with rfl | later
      · exact codec.caveat_ne_root wroteCaveat wrote
      · exact ih later

/-- Whatever its signature, an authentic token carries the chain of its blocks under the enrolled secret. -/
theorem chained_of_authentic {token : CapabilityToken} {issuerCfg : IssuerConfig} {pubkey : VerifyingKey}
    (authentic : authenticate env token issuerCfg pubkey = .ok ()) :
    ∃ rootBytes blocks, Chained env issuerCfg.rootSecret token rootBytes blocks := by
  unfold authenticate at authentic
  split at authentic
  · nomatch authentic
  · next rootBytes wrote =>
      split at authentic
      · nomatch authentic
      · split_ifs at authentic
        obtain ⟨tag, folded, compared⟩ := bind_eq_ok.mp authentic
        split_ifs at compared with same
        obtain ⟨blocks, each, chained⟩ := foldCaveats_eq_ok.mp folded
        exact ⟨rootBytes, blocks, wrote, each, chained.trans same⟩

/-- An accepted token carries a tag that is chained from the secret of its issuer. -/
theorem chained_of_accepted {token : CapabilityToken} {cfg : CapabilityConfig} {req : CapRequest}
    {grant : VerifiedGrant} (accepted : verify env token cfg req = .ok grant) :
    ∃ issuerCfg, cfg.issuers token.issuer = some issuerCfg ∧
      ∃ rootBytes blocks, Chained env issuerCfg.rootSecret token rootBytes blocks := by
  unfold verify at accepted
  split_ifs at accepted
  split at accepted
  · next issuerCfg pubkey listed _ =>
      obtain ⟨_, authentic, _⟩ := bind_eq_ok.mp accepted
      exact ⟨issuerCfg, listed, chained_of_authentic authentic⟩
  · nomatch accepted

end Chains

section Holders

/-- The token came from a minting and its attenuations. -/
def Obtained (env : Environment) (token : CapabilityToken) : Prop :=
  ∃ issuerKey rootSecret issuer rootId rootCaveats extCaveats,
    mintAndAttenuate env issuerKey rootSecret issuer rootId rootCaveats extCaveats = .ok token

def Enrolled (cfg : CapabilityConfig) (secret : Bytes) : Prop :=
  ∃ issuer issuerCfg, cfg.issuers issuer = some issuerCfg ∧ issuerCfg.rootSecret = secret

/-- Holders see the tags of their tokens, choose other bytes, and authenticate under the keys they know. -/
def HolderKnows (env : Environment) (cfg : CapabilityConfig) (obtained : Set CapabilityToken) :
    Bytes → Prop :=
  Knows env.hmacSha256 (Enrolled cfg) fun bytes => ∃ token ∈ obtained, token.tag = bytes

variable {env : Environment} {cfg : CapabilityConfig} {obtained : Set CapabilityToken}
  {forged : CapabilityToken}

/-- A known tag under a secret that stays unknown extends the tag of an obtained token. -/
theorem exists_obtained_of_chained (injective : KeyedInjective env.hmacSha256) (codec : ReadsBack env)
    (minted : ∀ token ∈ obtained, Obtained env token) {secret rootBytes : Bytes} {blocks : List Bytes}
    (unknown : ¬ HolderKnows env cfg obtained secret) (known : HolderKnows env cfg obtained forged.tag)
    (chained : Chained env secret forged rootBytes blocks) :
    ∃ token ∈ obtained, token.rootBlock = forged.rootBlock ∧ token.extCaveats <+: forged.extCaveats := by
  rw [← chained.tag] at known
  obtain ⟨earlier, start, token, held, sameTag⟩ := exists_given_of_knows_chain injective unknown known
  obtain ⟨_, _, _, _, _, _, constructed⟩ := minted token held
  obtain ⟨tokenRoot, genuine⟩ := genuine_of_obtained constructed
  obtain ⟨tokenBlocks, tokenChained⟩ := genuine.chained_blocks
  cases earlier with
  | nil => exact absurd (.given ⟨token, held, sameTag⟩) unknown
  | cons first rest =>
      obtain ⟨rfl, within⟩ := List.cons_prefix_cons.mp start
      -- A root block is never written like a caveat, so the two chains start together.
      have apart := codec.root_not_mem chained.root tokenChained.caveats
      have apart' : tokenRoot ∉ rest := fun present =>
        codec.root_not_mem tokenChained.root chained.caveats (within.mem present)
      obtain ⟨rfl, rfl⟩ := chain_inj injective apart' apart (tokenChained.tag.trans sameTag)
      exact ⟨token, held, codec.root_unique tokenChained.root chained.root,
        isPrefix_of_forall₂ codec.caveat_unique chained.caveats tokenChained.caveats within⟩

/-- An accepted token of a holder that knows no enrolled secret appends caveats to one that it obtained. -/
theorem forged_appends (injective : KeyedInjective env.hmacSha256) (codec : ReadsBack env)
    (minted : ∀ token ∈ obtained, Obtained env token)
    (hidden : ∀ secret, Enrolled cfg secret → ¬ HolderKnows env cfg obtained secret)
    (constructed : HolderKnows env cfg obtained forged.tag) {req : CapRequest} {grant : VerifiedGrant}
    (accepted : verify env forged cfg req = .ok grant) :
    ∃ token ∈ obtained, token.rootBlock = forged.rootBlock ∧ token.extCaveats <+: forged.extCaveats := by
  obtain ⟨issuerCfg, listed, rootBytes, blocks, chained⟩ := chained_of_accepted accepted
  have unknown := hidden issuerCfg.rootSecret ⟨forged.issuer, issuerCfg, listed, rfl⟩
  exact exists_obtained_of_chained injective codec minted unknown constructed chained

theorem joined_injective : KeyedInjective joined := by
  intro key data key' data' same
  induction key generalizing key' with
  | nil =>
      cases key' with
      | nil => exact ⟨rfl, (List.cons.inj same).2⟩
      | cons _ _ => exact absurd (List.cons.inj same).1 (by decide)
  | cons byte key ih =>
      cases key' with
      | nil => exact absurd (List.cons.inj same).1 (by decide)
      | cons byte' key' =>
          obtain ⟨sameByte, sameRest⟩ := List.cons.inj (List.cons.inj same).2
          obtain ⟨sameKey, sameData⟩ := ih sameRest
          exact ⟨congrArg₂ List.cons sameByte sameKey, sameData⟩

/-- The first byte tells a joined text from the sample bytes. -/
theorem joined_ne {bytes : Bytes} (start : bytes.head? ≠ some 0 ∧ bytes.head? ≠ some 1) (key data : Bytes) :
    joined key data ≠ bytes := by
  rintro rfl
  cases key with
  | nil => exact start.1 rfl
  | cons _ _ => exact start.2 rfl

theorem sampleEnvironment_injective : KeyedInjective sampleEnvironment.hmacSha256 := by
  intro key data key' data' same
  simp only [sampleEnvironment] at same
  split_ifs at same
  all_goals first
    | exact joined_injective same
    | exact absurd same (by decide)
    | exact absurd same (joined_ne (by decide) _ _)
    | exact absurd same.symm (joined_ne (by decide) _ _)
    | simp_all only [and_self]

/-- What the sample writer writes is read back. -/
theorem sampleEnvironment_readsBack : ReadsBack sampleEnvironment := by
  constructor
  · intro root bytes wrote
    obtain ⟨v, issuer, rootId, rootCaveats⟩ := root
    rcases rootCaveats with _ | ⟨first, _ | ⟨second, _ | ⟨third, rest⟩⟩⟩
    · nomatch wrote
    · cases first <;> nomatch wrote
    · cases first with
      | namespacePrefix namespaces =>
          cases second with
          | expiresAt instant =>
              simp only [sampleEnvironment, RootBlock.toValue, Caveat.toValue, List.map_cons,
                List.map_nil] at wrote
              split_ifs at wrote with same
              obtain ⟨rfl, rfl, rfl, rfl, same⟩ := same
              cases Option.some.inj wrote
              have version : v = capabilityVersion := UInt16.toNat_inj.mp (Int.natCast_inj.mp same)
              rw [version]
              rfl
          | _ => nomatch wrote
      | _ => cases second <;> nomatch wrote
    · cases first <;> cases second <;> nomatch wrote
  · intro caveat bytes wrote
    cases caveat with
    | opCeiling level =>
        cases level with
        | write =>
            cases Option.some.inj wrote
            rfl
        | _ => nomatch wrote
    | action name =>
        simp only [sampleEnvironment, Caveat.toValue] at wrote
        split_ifs at wrote with same
        cases Option.some.inj wrote
        rw [same]
        rfl
    | _ => nomatch wrote

theorem sampleSecret_unkeyed (key data : Bytes) : sampleEnvironment.hmacSha256 key data ≠ sampleSecret := by
  intro same
  simp only [sampleEnvironment] at same
  split_ifs at same
  · exact absurd same (by decide)
  · exact absurd same (by decide)
  · exact absurd same (by decide)
  · exact joined_ne (by decide) _ _ same

/-- The sample secret cannot be computed from the tokens of its holder. -/
theorem sampleSecret_hidden {secret : Bytes} (enrolled : Enrolled sampleConfig secret) :
    ¬ HolderKnows sampleEnvironment sampleConfig {ceilingToken} secret := by
  have same : secret = sampleSecret := by
    obtain ⟨issuer, issuerCfg, listed, rfl⟩ := enrolled
    simp only [sampleConfig] at listed
    split_ifs at listed
    rw [← Option.some.inj listed]
    rfl
  apply not_knows_of_hidden enrolled (same ▸ sampleSecret_unkeyed)
  intro received
  obtain ⟨_, rfl, sameTag⟩ := received
  exact absurd (sameTag.trans same) (by decide)

/-- The holder computes the tag of the narrower token from the tag of its own. -/
theorem storeTag_known : HolderKnows sampleEnvironment sampleConfig {ceilingToken} storeTag := by
  have keyed : sampleEnvironment.hmacSha256 ceilingTag storeBytes = storeTag := by decide
  exact keyed ▸ Knows.mac (.given ⟨ceilingToken, rfl, rfl⟩) storeBytes

theorem storeToken_appends :
    ∃ token ∈ ({ceilingToken} : Set CapabilityToken),
      token.rootBlock = storeToken.rootBlock ∧ token.extCaveats <+: storeToken.extCaveats := by
  have accepted : verify sampleEnvironment storeToken sampleConfig storeRequest =
      .ok ⟨"root-1", "ai:issuer", .write, "team"⟩ := by decide +kernel
  exact forged_appends sampleEnvironment_injective sampleEnvironment_readsBack
    (fun _ held => held ▸ ⟨_, _, _, _, _, _, ceilingToken_obtained⟩) (fun _ => sampleSecret_hidden)
    storeTag_known accepted

end Holders
end AiMemory.Capability
