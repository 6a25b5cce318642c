import AiMemory.Capability.Token

/-
This file proves that attenuation narrows what a capability token permits.
-/

namespace AiMemory.Capability
open AiMemory.Library AiMemory.Machine

section Namespaces

/-- The empty text is the root above all namespaces. -/
def Descends (namespaces ancestor : String) : Prop := namespaceUnder namespaces ancestor ∨ ancestor = ""

theorem namespaceUnder_self (namespaces : String) : namespaceUnder namespaces namespaces :=
  decide_eq_true (.inl rfl)

/-- A namespace starts with each of its ancestors. -/
theorem starts_of_namespaceUnder {«namespace» ancestor : String}
    (under : namespaceUnder «namespace» ancestor) :
    ancestor.toList <+: «namespace».toList := by
  rcases of_decide_eq_true under with rfl | start
  · exact List.prefix_rfl
  · rw [String.toList_append] at start
    exact (List.prefix_append _ _).trans start

/-- Of two ancestors of a namespace the longer one lies under the shorter one. -/
theorem namespaceUnder_of_size_le {«namespace» short long : String}
    (underShort : namespaceUnder «namespace» short) (underLong : namespaceUnder «namespace» long)
    (size : short.utf8ByteSize ≤ long.utf8ByteSize) :
    namespaceUnder long short := by
  rcases List.prefix_or_prefix_of_prefix (starts_of_namespaceUnder underShort)
    (starts_of_namespaceUnder underLong) with ⟨rest, split⟩ | ⟨rest, split⟩
  · cases rest with
    | nil =>
        rw [List.append_nil] at split
        rw [String.toList_inj.mp split]
        exact namespaceUnder_self long
    | cons letter rest =>
        have lengths := congrArg List.length split
        rw [List.length_append, List.length_cons] at lengths
        have whole := (starts_of_namespaceUnder underLong).length_le
        rcases of_decide_eq_true underShort with rfl | start
        · omega
        · refine decide_eq_true (.inr (List.prefix_of_prefix_length_le start
            (starts_of_namespaceUnder underLong) ?_))
          rw [String.toList_append, List.length_append]
          exact Nat.le_trans (Nat.add_le_add_left (Nat.succ_le_succ rest.length.zero_le) _)
            (Nat.le_of_eq lengths)
  · have whole : long ++ String.ofList rest = short := by
      rw [← String.toList_inj, String.toList_append, String.toList_ofList, split]
    have sizes := congrArg String.utf8ByteSize whole
    rw [String.utf8ByteSize_append] at sizes
    have nothing : String.ofList rest = "" := String.utf8ByteSize_eq_zero_iff.mp (by omega)
    rw [nothing, String.append_empty] at whole
    rw [whole]
    exact namespaceUnder_self short

end Namespaces
section Predicates

/-- The caveat is true of the request. -/
def Caveat.Holds (req : CapRequest) : Caveat → Prop
  | .namespacePrefix namespaces => namespaceUnder req.namespace namespaces
  | .opCeiling level => opLevelOf req.action ≤ level
  | .action name => req.action = name
  | .agent id => req.agentId = id
  | .expiresAt instant => req.now ≤ instant
  | .notBefore instant => instant ≤ req.now

instance (req : CapRequest) : (caveat : Caveat) → Decidable (caveat.Holds req)
  | .namespacePrefix _ => inferInstanceAs (Decidable (_ = true))
  | .opCeiling level => inferInstanceAs (Decidable (opLevelOf req.action ≤ level))
  | .action name => inferInstanceAs (Decidable (req.action = name))
  | .agent id => inferInstanceAs (Decidable (req.agentId = id))
  | .expiresAt instant => inferInstanceAs (Decidable (req.now ≤ instant))
  | .notBefore instant => inferInstanceAs (Decidable (instant ≤ req.now))

/-- The caveats and the ceilings of the issuer are true of the request. -/
structure Permits (caveats : List Caveat) (issuerCfg : IssuerConfig) (req : CapRequest) : Prop where
  caveats : ∀ caveat ∈ caveats, caveat.Holds req
  opCeiling : opLevelOf req.action ≤ issuerCfg.maxOp
  namespaceCeiling : ∀ namespaces ∈ issuerCfg.namespacePrefix, namespaceUnder req.namespace namespaces

end Predicates

namespace OpLevel

theorem le_admin (level : OpLevel) : level ≤ admin := by cases level <;> decide

theorem min_le_left (left right : OpLevel) : left.min right ≤ left := by
  cases left <;> cases right <;> decide

theorem le_min {low left right : OpLevel} (first : low ≤ left) (second : low ≤ right) :
    low ≤ left.min right := by
  rw [min]
  split_ifs
  · exact first
  · exact second

theorem min_mono {low high : OpLevel} (below : low ≤ high) (level : OpLevel) :
    low.min level ≤ high.min level := by
  cases low <;> cases high <;> first | exact absurd below (by decide) | (cases level <;> decide)

end OpLevel

section Ceilings

/-- What a caveat that holds leaves of the ceilings. -/
def Ceilings.narrow (held : Ceilings) : Caveat → Ceilings
  | .namespacePrefix namespaces => { held with nsPrefix := deepen held.nsPrefix namespaces }
  | .opCeiling level => { held with opCeiling := held.opCeiling.min level }
  | _ => held

/-- A caveat is enforced exactly when it holds, and then it narrows the ceilings. -/
theorem enforceCaveat_eq_ok {req : CapRequest} {held next : Ceilings} {caveat : Caveat} :
    enforceCaveat req held caveat = .ok next ↔ caveat.Holds req ∧ held.narrow caveat = next := by
  cases caveat <;> simp only [enforceCaveat, Caveat.Holds, Ceilings.narrow] <;> split_ifs <;> simp_all

/-- The loop accepts the caveats that all hold and narrows the ceilings by each. -/
theorem enforceCaveats_eq_ok {req : CapRequest} {caveats : List Caveat} {held final : Ceilings} :
    caveats.foldlM (enforceCaveat req) held = .ok final ↔
      (∀ caveat ∈ caveats, caveat.Holds req) ∧ caveats.foldl Ceilings.narrow held = final := by
  induction caveats generalizing held with
  | nil =>
      simp only [List.foldlM_nil, List.foldl_nil]
      exact ⟨fun same => ⟨by simp, Except.ok.inj same⟩, fun same => congrArg Except.ok same.2⟩
  | cons caveat rest ih =>
      rw [foldlM_cons_eq_ok, List.forall_mem_cons, List.foldl_cons, and_assoc]
      constructor
      · intro looped
        obtain ⟨middle, first, later⟩ := looped
        obtain ⟨holds, rfl⟩ := enforceCaveat_eq_ok.mp first
        exact ⟨holds, ih.mp later⟩
      · intro narrowed
        obtain ⟨holds, later⟩ := narrowed
        exact ⟨_, enforceCaveat_eq_ok.mpr ⟨holds, rfl⟩, ih.mpr later⟩

/-- No caveat raises the ceiling of the operation. -/
theorem narrow_opCeiling_le (held : Ceilings) (caveat : Caveat) :
    (held.narrow caveat).opCeiling ≤ held.opCeiling := by
  cases caveat with
  | opCeiling level => exact OpLevel.min_le_left _ _
  | _ => exact Int.le_refl _

/-- The ceiling covers a request whose caveats all hold. -/
theorem le_narrow_opCeiling {req : CapRequest} {caveats : List Caveat} {held : Ceilings}
    (covers : opLevelOf req.action ≤ held.opCeiling) (each : ∀ caveat ∈ caveats, caveat.Holds req) :
    opLevelOf req.action ≤ (caveats.foldl Ceilings.narrow held).opCeiling := by
  induction caveats generalizing held with
  | nil => exact covers
  | cons caveat rest ih =>
      obtain ⟨holds, later⟩ := List.forall_mem_cons.mp each
      refine ih ?_ later
      cases caveat with
      | opCeiling level => exact OpLevel.le_min covers holds
      | _ => exact covers

/-- The namespace of the issuer narrows the ceilings after all caveats. -/
def Ceilings.clamp (held : Ceilings) (issuerCfg : IssuerConfig) : Ceilings :=
  { held with nsPrefix := issuerCfg.namespacePrefix.elim held.nsPrefix (deepen held.nsPrefix) }

def grantOf (token : CapabilityToken) (issuerCfg : IssuerConfig) (held : Ceilings) : VerifiedGrant where
  rootId := token.rootId
  issuer := token.issuer
  opLevel := held.opCeiling.min issuerCfg.maxOp
  namespacePrefix := (held.clamp issuerCfg).nsPrefix.getD ""

theorem clampNamespace_eq_ok {issuerCfg : IssuerConfig} {req : CapRequest} {held clamped : Ceilings} :
    clampNamespace issuerCfg req held = .ok clamped ↔
      (∀ namespaces ∈ issuerCfg.namespacePrefix, namespaceUnder req.namespace namespaces) ∧
        held.clamp issuerCfg = clamped := by
  unfold clampNamespace Ceilings.clamp
  cases issuerCfg.namespacePrefix with
  | none => simp
  | some issuerNs => by_cases under : namespaceUnder req.namespace issuerNs <;> simp [under]

/-- The last check of the clamp never fails after the caveats held. -/
theorem clampToIssuer_eq_ok {token : CapabilityToken} {issuerCfg : IssuerConfig} {req : CapRequest}
    {held : Ceilings} {grant : VerifiedGrant} (covers : opLevelOf req.action ≤ held.opCeiling) :
    clampToIssuer token issuerCfg req held = .ok grant ↔
      opLevelOf req.action ≤ issuerCfg.maxOp ∧
        (∀ namespaces ∈ issuerCfg.namespacePrefix, namespaceUnder req.namespace namespaces) ∧
          grantOf token issuerCfg held = grant := by
  unfold clampToIssuer
  by_cases fits : opLevelOf req.action ≤ issuerCfg.maxOp
  · have both : opLevelOf req.action ≤ (held.clamp issuerCfg).opCeiling.min issuerCfg.maxOp :=
      OpLevel.le_min covers fits
    rw [if_pos fits, and_iff_right fits, bind_eq_ok]
    constructor
    · intro accepted
      obtain ⟨clamped, inside, granted⟩ := accepted
      obtain ⟨under, rfl⟩ := clampNamespace_eq_ok.mp inside
      rw [if_pos both] at granted
      exact ⟨under, Except.ok.inj granted⟩
    · intro permitted
      obtain ⟨under, rfl⟩ := permitted
      exact ⟨_, clampNamespace_eq_ok.mpr ⟨under, rfl⟩, if_pos both⟩
  · rw [if_neg fits]
    exact iff_of_false (fun same => nomatch same) fun all => fits all.1

/-- Caveats that hold leave a ceiling that still covers the request. -/
theorem le_openCeiling {req : CapRequest} {caveats : List Caveat}
    (each : ∀ caveat ∈ caveats, caveat.Holds req) :
    opLevelOf req.action ≤ (caveats.foldl Ceilings.narrow ⟨.admin, none⟩).opCeiling :=
  le_narrow_opCeiling (OpLevel.le_admin _) each

/-- The enforcement grants exactly what the caveats and the issuer permit. -/
theorem enforce_eq_ok {token : CapabilityToken} {issuerCfg : IssuerConfig} {req : CapRequest}
    {grant : VerifiedGrant} :
    enforce token issuerCfg req = .ok grant ↔
      Permits (token.rootCaveats ++ token.extCaveats) issuerCfg req ∧
        grantOf token issuerCfg
          ((token.rootCaveats ++ token.extCaveats).foldl Ceilings.narrow ⟨.admin, none⟩) = grant := by
  unfold enforce
  rw [bind_eq_ok]
  constructor
  · intro accepted
    obtain ⟨held, looped, clamped⟩ := accepted
    obtain ⟨each, rfl⟩ := enforceCaveats_eq_ok.mp looped
    obtain ⟨op, under, same⟩ := (clampToIssuer_eq_ok (le_openCeiling each)).mp clamped
    exact ⟨⟨each, op, under⟩, same⟩
  · intro permitted
    obtain ⟨⟨each, op, under⟩, same⟩ := permitted
    exact ⟨_, enforceCaveats_eq_ok.mpr ⟨each, rfl⟩,
      (clampToIssuer_eq_ok (le_openCeiling each)).mpr ⟨op, under, same⟩⟩

end Ceilings

section Depth

/-- Whatever the first ceiling holds the second one holds at the same length or longer. -/
def Deeper (first second : Option String) : Prop :=
  ∀ short ∈ first, ∃ long ∈ second, short.utf8ByteSize ≤ long.utf8ByteSize

/-- The deepened prefix is one of the two prefixes. -/
theorem mem_deepen {current : Option String} {namespaces held : String}
    (present : held ∈ deepen current namespaces) : held = namespaces ∨ held ∈ current := by
  unfold deepen at present
  split_ifs at present
  · exact .inl (Option.some.inj present).symm
  · exact .inr present

theorem deepen_deeper (current : Option String) (namespaces : String) :
    Deeper current (deepen current namespaces) := by
  intro short present
  cases Option.mem_def.mp present
  by_cases longer : namespaces.utf8ByteSize > short.utf8ByteSize
  · exact ⟨namespaces, by simp [deepen, longer], Nat.le_of_lt longer⟩
  · exact ⟨short, by simp [deepen, longer], Nat.le_refl _⟩

/-- The deepened prefix is no shorter than the new one. -/
theorem le_deepen (current : Option String) (namespaces : String) :
    ∃ long ∈ deepen current namespaces, namespaces.utf8ByteSize ≤ long.utf8ByteSize := by
  cases current with
  | none => exact ⟨namespaces, rfl, Nat.le_refl _⟩
  | some held =>
      by_cases longer : namespaces.utf8ByteSize > held.utf8ByteSize
      · exact ⟨namespaces, by simp [deepen, longer], Nat.le_refl _⟩
      · exact ⟨held, by simp [deepen, longer], Nat.le_of_not_lt longer⟩

/-- Deepening keeps the order of two prefixes. -/
theorem Deeper.deepen {first second : Option String} (deeper : Deeper first second) (namespaces : String) :
    Deeper (deepen first namespaces) (deepen second namespaces) := by
  intro short present
  rcases mem_deepen present with rfl | held
  · exact le_deepen second short
  · obtain ⟨long, found, size⟩ := deeper short held
    obtain ⟨longest, kept, larger⟩ := deepen_deeper second namespaces long found
    exact ⟨longest, kept, Nat.le_trans size larger⟩

theorem narrow_deeper (held : Ceilings) (caveat : Caveat) :
    Deeper held.nsPrefix (held.narrow caveat).nsPrefix := by
  cases caveat with
  | namespacePrefix namespaces => exact deepen_deeper _ _
  | _ => exact fun short present => ⟨short, present, Nat.le_refl _⟩

/-- The clamp of the issuer keeps the order of two ceilings. -/
theorem clamp_deeper {held next : Ceilings} (deeper : Deeper held.nsPrefix next.nsPrefix)
    (issuerCfg : IssuerConfig) : Deeper (held.clamp issuerCfg).nsPrefix (next.clamp issuerCfg).nsPrefix := by
  unfold Ceilings.clamp
  cases issuerCfg.namespacePrefix with
  | none => exact deeper
  | some issuerNs => exact deeper.deepen issuerNs

/-- The ceilings only hold ancestors of the namespace of the request. -/
theorem narrow_under {req : CapRequest} {caveats : List Caveat} {held : Ceilings}
    (under : ∀ namespaces ∈ held.nsPrefix, namespaceUnder req.namespace namespaces)
    (each : ∀ caveat ∈ caveats, caveat.Holds req) :
    ∀ namespaces ∈ (caveats.foldl Ceilings.narrow held).nsPrefix,
      namespaceUnder req.namespace namespaces := by
  induction caveats generalizing held with
  | nil => exact under
  | cons caveat rest ih =>
      obtain ⟨holds, later⟩ := List.forall_mem_cons.mp each
      refine ih ?_ later
      cases caveat with
      | namespacePrefix added =>
          intro namespaces present
          rcases mem_deepen present with rfl | kept
          · exact holds
          · exact under namespaces kept
      | _ => exact under

theorem clamp_under {req : CapRequest} {issuerCfg : IssuerConfig} {held : Ceilings}
    (under : ∀ namespaces ∈ held.nsPrefix, namespaceUnder req.namespace namespaces)
    (ceiling : ∀ namespaces ∈ issuerCfg.namespacePrefix, namespaceUnder req.namespace namespaces) :
    ∀ namespaces ∈ (held.clamp issuerCfg).nsPrefix, namespaceUnder req.namespace namespaces := by
  intro namespaces present
  unfold Ceilings.clamp at present
  cases limited : issuerCfg.namespacePrefix with
  | none =>
      rw [limited] at present
      exact under namespaces present
  | some issuerNs =>
      rw [limited] at present
      rcases mem_deepen present with rfl | kept
      · exact ceiling namespaces limited
      · exact under namespaces kept

/-- A longer ceiling of the same request descends from a shorter one. -/
theorem descends_of_deeper {«namespace» : String} {first second : Option String}
    (deeper : Deeper first second)
    (underFirst : ∀ namespaces ∈ first, namespaceUnder «namespace» namespaces)
    (underSecond : ∀ namespaces ∈ second, namespaceUnder «namespace» namespaces) :
    Descends (second.getD "") (first.getD "") := by
  cases first with
  | none => exact .inr rfl
  | some short =>
      obtain ⟨long, found, size⟩ := deeper short rfl
      cases Option.mem_def.mp found
      exact .inl (namespaceUnder_of_size_le (underFirst short rfl) (underSecond long rfl) size)

end Depth
end AiMemory.Capability
