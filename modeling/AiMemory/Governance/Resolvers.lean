import AiMemory.Rules.Engine
import AiMemory.Storage.PendingActions
import Mathlib.Data.List.TakeWhile

/-
This file embeds the walks over the standards of a namespace chain and decides when they obey the same standard.
-/

namespace AiMemory.Governance
open AiMemory.Crdt AiMemory.Library AiMemory.Machine AiMemory.Rules AiMemory.Storage

inductive GovernanceLevel where
  | any | registered | owner | approve
  deriving DecidableEq, Repr

/-- The write level stands beside what the approvals and the reflections read. -/
structure CorePolicy extends GovernancePolicy where
  write : GovernanceLevel
  deriving DecidableEq, Repr

section Chain

variable (db : Database)

def getNamespaceParent («namespace» : String) : Option String :=
  (db.namespaceMeta.find? fun entry => entry.namespace = «namespace»).bind NamespaceMeta.parentNamespace

def maxExplicitDepth : Nat := 8

/-- The walk over the explicit parents stops at the global standard and at a repeated namespace. -/
def explicitAbove (hierarchy : List String) : Nat → String → List String → List String
  | 0, _, above => above
  | rounds + 1, current, above =>
      match getNamespaceParent db current with
      | some parent =>
          if parent ≠ "*" ∧ parent ∉ above ∧ parent ∉ hierarchy then
            explicitAbove hierarchy rounds parent (above ++ [parent])
          else above
      | none => above

/-- The chain runs from the global standard down to the namespace. -/
def buildNamespaceChain («namespace» : String) : List String :=
  if «namespace» = "*" then ["*"]
  else
    let hierarchy := (namespaceAncestors «namespace»).reverse
    let above := match hierarchy.head? with
      | some root => explicitAbove db hierarchy maxExplicitDepth root []
      | none => []
    hierarchy.foldl (fun chain entry => if entry ∈ chain then chain else chain ++ [entry]) ("*" :: above.reverse)

/-- The parents that are named explicitly come without repetition. -/
theorem explicitAbove_nodup {hierarchy : List String} (rounds : Nat) {current : String} {above : List String}
    (distinct : ("*" :: above).Nodup) : ("*" :: explicitAbove db hierarchy rounds current above).Nodup := by
  induction rounds generalizing current above with
  | zero => exact distinct
  | succ rounds ih =>
      unfold explicitAbove
      split
      · rename_i parent _
        split_ifs with new
        · obtain ⟨notGlobal, fresh, _⟩ := new
          refine ih (List.nodup_append.mpr ⟨distinct, List.nodup_singleton _, ?_⟩)
          intro entry present other single same
          rw [List.mem_singleton.mp single] at same
          subst same
          rcases List.mem_cons.mp present with isGlobal | earlier
          · exact notGlobal isGlobal
          · exact fresh earlier
        · exact distinct
      · exact distinct

/-- An entry that is already there is not appended again. -/
theorem nodup_foldl_fresh {entries chain : List String} (distinct : chain.Nodup) :
    (entries.foldl (fun chain entry => if entry ∈ chain then chain else chain ++ [entry]) chain).Nodup := by
  induction entries generalizing chain with
  | nil => exact distinct
  | cons entry entries ih =>
      refine ih ?_
      show (if entry ∈ chain then chain else chain ++ [entry]).Nodup
      split_ifs with known
      · exact distinct
      · refine List.nodup_append.mpr ⟨distinct, List.nodup_singleton _, ?_⟩
        rintro other present _ single rfl
        exact known (List.mem_singleton.mp single ▸ present)

/-- No namespace comes twice in the chain. -/
theorem buildNamespaceChain_nodup («namespace» : String) : (buildNamespaceChain db «namespace»).Nodup := by
  unfold buildNamespaceChain
  split_ifs
  · exact List.nodup_singleton _
  · refine nodup_foldl_fresh ?_
    have above (root : String) (hierarchy : List String) :
        ("*" :: (explicitAbove db hierarchy maxExplicitDepth root []).reverse).Nodup := by
      have distinct := @explicitAbove_nodup db hierarchy maxExplicitDepth root [] (List.nodup_singleton "*")
      rw [List.nodup_cons, List.mem_reverse, List.nodup_reverse]
      exact List.nodup_cons.mp distinct
    split
    · exact above _ _
    · exact List.nodup_singleton _

/-- What stands before the last mark is shorter than the text. -/
theorem length_beforeLast {mark : Char} {text front : String} (found : beforeLast mark text = some front) :
    front.length < text.length := by
  unfold beforeLast at found
  split at found
  · contradiction
  · rename_i char chars rest
    obtain rfl := Option.some.inj found
    have shorter : (text.toList.reverse.dropWhile fun char => char ≠ mark).length ≤ text.toList.reverse.length :=
      (List.dropWhile_suffix _).sublist.length_le
    rw [rest, List.length_cons, List.length_reverse, String.length_toList] at shorter
    rw [String.length_ofList, List.length_reverse]
    exact shorter

/-- Enough rounds reach the root, and more rounds change nothing. -/
theorem namespaceAncestorsLoop_stable (rounds more : Nat) {current : String} (named : current.isEmpty = false)
    (enough : current.length ≤ rounds) :
    namespaceAncestorsLoop (rounds + more) current = namespaceAncestorsLoop rounds current := by
  induction rounds generalizing current with
  | zero =>
      have empty : current = "" := by simpa using enough
      rw [empty] at named
      exact absurd named (by decide)
  | succ rounds ih =>
      rw [Nat.add_right_comm, namespaceAncestorsLoop.eq_2, namespaceAncestorsLoop.eq_2]
      cases found : namespaceParent current with
      | none => rfl
      | some parent =>
          dsimp only
          split_ifs with root
          · rfl
          · have shorter : parent.length < current.length := length_beforeLast found
            rw [ih (Bool.eq_false_of_not_eq_true root) (by omega)]

end Chain

section Resolvers

variable (policyFromValue : Json → Option CorePolicy) (db : Database)

/-- A null entry counts as absent, and an entry that does not parse is an error. -/
def fromMetadata (metadata : Json) : Option (Option CorePolicy) :=
  match metadata.get "governance" with
  | none => none
  | some governance => if isNull governance then none else some (policyFromValue governance)

def standardMemory (level : String) : Option Memory := (getNamespaceStandard db level).bind db.memories.find

/-- A malformed policy is passed over like an absent one. -/
def readNamespacePolicy (level : String) : Option CorePolicy :=
  match standardMemory db level with
  | none => none
  | some standard =>
      match fromMetadata policyFromValue standard.metadata with
      | some (some policy) => some policy
      | some none => none
      | none => none

def levelsOf («namespace» : String) : List String := (buildNamespaceChain db «namespace»).reverse

/-- The most specific policy wins. -/
def resolveGovernancePolicy («namespace» : String) : Option CorePolicy :=
  (levelsOf db «namespace»).findSome? (readNamespacePolicy policyFromValue db)

/-- The first standard that names an agent gives the owner. -/
def namespaceOwnerLoop : List String → Option String
  | [] => none
  | level :: levels =>
      match standardMemory db level with
      | none => namespaceOwnerLoop levels
      | some standard =>
          match (standard.metadata.get "agent_id").bind Json.asStr with
          | some owner => some owner
          | none => namespaceOwnerLoop levels

def namespaceOwner («namespace» : String) : Option String := namespaceOwnerLoop db (levelsOf db «namespace»)

/-- A threshold that does not fit is the strictest one. -/
def toThreshold (value : Nat) : Nat := if value < 2 ^ 32 then value else 0

/-- The walk stops at the first policy that is there, even where it does not parse. -/
def approvalDepthLoop : List String → Option Nat
  | [] => none
  | level :: levels =>
      match standardMemory db level with
      | none => approvalDepthLoop levels
      | some standard =>
          match standard.metadata.get "governance" with
          | none => approvalDepthLoop levels
          | some governance =>
              if isNull governance then approvalDepthLoop levels
              else
                match (governance.get "require_approval_above_depth").bind asU64 with
                | some value => some (toThreshold value)
                | none =>
                    if (fromMetadata policyFromValue standard.metadata).isSome then none
                    else approvalDepthLoop levels

def resolveRequireApprovalAboveDepth («namespace» : String) : Option Nat :=
  approvalDepthLoop policyFromValue db (levelsOf db «namespace»)

inductive GovernanceDecision where
  | allow
  | deny (reason : String)
  | pending
  deriving DecidableEq, Repr

def evaluateLevel (level : GovernanceLevel) (agentId : String) (memoryOwner owner : Option String) :
    GovernanceDecision :=
  match level with
  | .any => .allow
  | .registered =>
      if isRegisteredAgent db.toStore agentId then .allow
      else .deny ("caller '" ++ agentId ++ "' is not a registered agent")
  | .owner =>
      match memoryOwner.or owner with
      | some owner =>
          if owner = agentId then .allow
          else .deny ("caller '" ++ agentId ++ "' is not the owner ('" ++ owner ++ "')")
      | none => .deny "owner-level action has no resolvable owner"
  | .approve => .pending

/-- The decision over a store before its scope and its capability are asked. -/
def enforceStore («namespace» agentId : String) : GovernanceDecision :=
  match resolveGovernancePolicy policyFromValue db «namespace» with
  | none => .allow
  | some policy => evaluateLevel db policy.write agentId none (namespaceOwner db «namespace»)

end Resolvers

section Standards

variable (policyFromValue : Json → Option CorePolicy) (db : Database)

def ownerOf (standard : Memory) : Option String := (standard.metadata.get "agent_id").bind Json.asStr

def policyOf (standard : Memory) : Option CorePolicy := (fromMetadata policyFromValue standard.metadata).join

/-- The standard has an entry for its governance, well formed or not. -/
def hasGovernance (standard : Memory) : Bool := (fromMetadata policyFromValue standard.metadata).isSome

def thresholdOf (standard : Memory) : Option Nat :=
  (((standard.metadata.get "governance").bind fun governance =>
    governance.get "require_approval_above_depth").bind asU64).map toThreshold

/-- The standards of the levels, the most specific one first. -/
def standardsOf («namespace» : String) : List Memory := (levelsOf db «namespace»).filterMap (standardMemory db)

/-- The standard whose policy governs. -/
def governingStandard («namespace» : String) : Option Memory :=
  (standardsOf db «namespace»).find? fun standard => (policyOf policyFromValue standard).isSome

/-- The policy of a level is read from its standard. -/
theorem readNamespacePolicy_eq (level : String) :
    readNamespacePolicy policyFromValue db level = (standardMemory db level).bind (policyOf policyFromValue) := by
  unfold readNamespacePolicy policyOf
  cases standardMemory db level with
  | none => rfl
  | some standard =>
      dsimp only [Option.bind_some]
      rcases fromMetadata policyFromValue standard.metadata with _ | _ | policy <;> rfl

/-- The policy of a namespace is read from the first standard that governs it. -/
theorem resolveGovernancePolicy_eq («namespace» : String) :
    resolveGovernancePolicy policyFromValue db «namespace» =
      (governingStandard policyFromValue db «namespace»).bind (policyOf policyFromValue) := by
  unfold resolveGovernancePolicy governingStandard standardsOf
  induction levelsOf db «namespace» with
  | nil => rfl
  | cons level levels ih =>
      rw [List.findSome?_cons, List.filterMap_cons, readNamespacePolicy_eq]
      cases standardMemory db level with
      | none => exact ih
      | some standard =>
          dsimp only [Option.bind_some]
          cases found : policyOf policyFromValue standard with
          | none =>
              rw [List.find?_cons_of_neg (by simp [found])]
              exact ih
          | some policy => rw [List.find?_cons_of_pos (by simp [found]), Option.bind_some, found]

/-- The owner is the first one that a standard of the chain names. -/
theorem namespaceOwner_eq («namespace» : String) :
    namespaceOwner db «namespace» = (standardsOf db «namespace»).findSome? ownerOf := by
  unfold namespaceOwner standardsOf
  induction levelsOf db «namespace» with
  | nil => rfl
  | cons level levels ih =>
      rw [namespaceOwnerLoop, List.filterMap_cons]
      cases standardMemory db level with
      | none => exact ih
      | some standard =>
          dsimp only
          rw [List.findSome?_cons, ← show ownerOf standard =
            (standard.metadata.get "agent_id").bind Json.asStr from rfl]
          cases ownerOf standard with
          | none => exact ih
          | some owner => rfl

theorem resolveRequireApprovalAboveDepth_eq («namespace» : String) :
    resolveRequireApprovalAboveDepth policyFromValue db «namespace» =
      ((standardsOf db «namespace»).find? (hasGovernance policyFromValue)).bind thresholdOf := by
  unfold resolveRequireApprovalAboveDepth standardsOf
  induction levelsOf db «namespace» with
  | nil => rfl
  | cons level levels ih =>
      rw [approvalDepthLoop, List.filterMap_cons]
      cases standardMemory db level with
      | none => exact ih
      | some standard =>
          have skipped (absent : fromMetadata policyFromValue standard.metadata = none) :
              (standard :: levels.filterMap (standardMemory db)).find? (hasGovernance policyFromValue) =
                (levels.filterMap (standardMemory db)).find? (hasGovernance policyFromValue) :=
            List.find?_cons_of_neg (by rw [hasGovernance, absent]; exact Bool.false_ne_true)
          dsimp only
          cases entry : standard.metadata.get "governance" with
          | none =>
              rw [skipped (by rw [fromMetadata, entry])]
              exact ih
          | some governance =>
              dsimp only
              by_cases empty : isNull governance
              · rw [if_pos empty, skipped (by rw [fromMetadata, entry]; exact if_pos empty)]
                exact ih
              · have here : (fromMetadata policyFromValue standard.metadata).isSome = true := by
                  rw [fromMetadata, entry]
                  dsimp only
                  rw [if_neg empty]
                  rfl
                have first : (standard :: levels.filterMap (standardMemory db)).find?
                    (hasGovernance policyFromValue) = some standard := List.find?_cons_of_pos here
                rw [if_neg empty, if_pos here, first, Option.bind_some, thresholdOf, entry, Option.bind_some]
                cases (governance.get "require_approval_above_depth").bind asU64 <;> rfl

end Standards

section Agreement

variable (policyFromValue : Json → Option CorePolicy) (db : Database)

def ungoverned (standard : Memory) : Bool := (policyOf policyFromValue standard).isNone

/-- The owner is the one of the governing standard: a nearer standard names the same one, or none is named nearer
and the governing standard or nobody above names one. -/
def OwnerUndisturbed (below : List Memory) (governing : Memory) (above : List Memory) : Prop :=
  match below.findSome? ownerOf with
  | some owner => ownerOf governing = some owner
  | none => (ownerOf governing).isSome ∨ above.findSome? ownerOf = none

/-- No malformed entry stands below, or it has the same threshold. -/
def ThresholdUndisturbed (below : List Memory) (threshold : Option Nat) : Prop :=
  ∀ malformed ∈ below.find? (hasGovernance policyFromValue), thresholdOf malformed = threshold

/-- The standards below the governing one disturb neither its owner nor its threshold. -/
def LevelsUndisturbed (standards : List Memory) : Prop :=
  let below := standards.takeWhile (ungoverned policyFromValue)
  match standards.dropWhile (ungoverned policyFromValue) with
  | [] => ThresholdUndisturbed policyFromValue below none
  | governing :: above =>
      OwnerUndisturbed below governing above ∧ ThresholdUndisturbed policyFromValue below (thresholdOf governing)

/-- The owner and the threshold are those of the standard that governs; without one no owner is asked for. -/
def ResolversAgree («namespace» : String) : Prop :=
  match governingStandard policyFromValue db «namespace» with
  | some governing => namespaceOwner db «namespace» = ownerOf governing ∧
      resolveRequireApprovalAboveDepth policyFromValue db «namespace» = thresholdOf governing
  | none => resolveRequireApprovalAboveDepth policyFromValue db «namespace» = none

variable {policyFromValue db}

/-- A policy is an entry that parses. -/
theorem hasGovernance_of_policy {standard : Memory} (governs : (policyOf policyFromValue standard).isSome) :
    hasGovernance policyFromValue standard = true := by
  unfold policyOf at governs
  unfold hasGovernance
  cases entry : fromMetadata policyFromValue standard.metadata with
  | none => simp [entry] at governs
  | some parsed => rfl

/-- The governing standard is the first one after the ungoverned ones. -/
theorem governing_eq (standards : List Memory) :
    standards.find? (fun standard => (policyOf policyFromValue standard).isSome) =
      (standards.dropWhile (ungoverned policyFromValue)).head? := by
  rw [← List.find?_not_eq_head?_dropWhile]
  congr 1
  funext standard
  cases found : policyOf policyFromValue standard <;> simp [ungoverned, found]

/-- The owner of the chain is that of the governing standard exactly when nothing below it disturbs it. -/
theorem owner_eq_iff (below : List Memory) (governing : Memory) (above : List Memory) :
    OwnerUndisturbed below governing above ↔
      (below ++ governing :: above).findSome? ownerOf = ownerOf governing := by
  unfold OwnerUndisturbed
  rw [List.findSome?_append, List.findSome?_cons]
  cases below.findSome? ownerOf with
  | some owner => exact eq_comm
  | none =>
      rw [Option.none_or]
      cases ownerOf governing with
      | some owner => exact iff_of_true (.inl rfl) rfl
      | none => simp

/-- The threshold of the chain is the given one exactly when nothing below it disturbs it. -/
theorem threshold_eq_iff (below : List Memory) (threshold : Option Nat) (rest : Option Memory)
    (same : rest.bind thresholdOf = threshold) :
    ThresholdUndisturbed policyFromValue below threshold ↔
      ((below.find? (hasGovernance policyFromValue)).or rest).bind thresholdOf = threshold := by
  unfold ThresholdUndisturbed
  cases below.find? (hasGovernance policyFromValue) with
  | none => simpa using same
  | some malformed => simp

/-- A chain repeats no namespace and is found in as many rounds as a name is long; the resolvers obey the governing
standard exactly when the standards below it disturb neither its owner nor its threshold. -/
theorem resolvers_agree_iff (policyFromValue : Json → Option CorePolicy) (db : Database) («namespace» : String) :
    (buildNamespaceChain db «namespace»).Nodup ∧
      («namespace».isEmpty = false → ∀ more, namespaceAncestorsLoop («namespace».length + more) «namespace» =
        namespaceAncestors «namespace») ∧
      resolveGovernancePolicy policyFromValue db «namespace» =
        (governingStandard policyFromValue db «namespace»).bind (policyOf policyFromValue) ∧
      (LevelsUndisturbed policyFromValue (standardsOf db «namespace») ↔
        ResolversAgree policyFromValue db «namespace») := by
  refine ⟨buildNamespaceChain_nodup db «namespace», fun named more => ?_,
    resolveGovernancePolicy_eq policyFromValue db «namespace», ?_⟩
  · rw [namespaceAncestors, named, if_neg Bool.false_ne_true]
    exact namespaceAncestorsLoop_stable _ more named (le_refl _)
  · unfold ResolversAgree LevelsUndisturbed
    rw [governingStandard, governing_eq, resolveRequireApprovalAboveDepth_eq, namespaceOwner_eq]
    generalize standardsOf db «namespace» = standards
    have split : standards = standards.takeWhile (ungoverned policyFromValue) ++
        standards.dropWhile (ungoverned policyFromValue) := List.takeWhile_append_dropWhile.symm
    have governs (governing : Memory) (above : List Memory)
        (rest : standards.dropWhile (ungoverned policyFromValue) = governing :: above) :
        hasGovernance policyFromValue governing = true := by
      have found := @governing_eq policyFromValue standards
      rw [rest, List.head?_cons] at found
      exact hasGovernance_of_policy
        (List.find?_some (p := fun standard => (policyOf policyFromValue standard).isSome) found)
    generalize standards.takeWhile (ungoverned policyFromValue) = below at split ⊢
    cases rest : standards.dropWhile (ungoverned policyFromValue) with
    | nil =>
        rw [rest, List.append_nil] at split
        subst split
        dsimp only [List.head?_nil]
        rw [threshold_eq_iff standards none none rfl, Option.or_none]
    | cons governing above =>
        have here := governs governing above rest
        rw [rest] at split
        subst split
        dsimp only [List.head?_cons]
        rw [owner_eq_iff, threshold_eq_iff below (thresholdOf governing) (some governing) rfl, List.find?_append,
          List.find?_cons_of_pos here]

end Agreement

section Samples

/-- The parser of a policy that has nothing but its write level. -/
def writePolicy (governance : Json) : Option CorePolicy :=
  match (governance.get "write").bind Json.asStr with
  | some "owner" => some { GovernancePolicy.default with write := .owner }
  | some "any" => some { GovernancePolicy.default with write := .any }
  | _ => none

def standardRow (id agentId : String) (governance : Option Json) : Memory :=
  let named := Json.empty.insert "agent_id" (.string agentId)
  { Memory.base id "2026-06-16T10:00:00+00:00" with
    title := id
    metadata := (governance.map (named.insert "governance")).getD named }

/-- Writers of the team are its owner, and reflections above depth one wait for an approval. -/
def ownerPolicy : Json :=
  (Json.empty.insert "write" (.string "owner")).insert "require_approval_above_depth" (.number (.posInt 1))

/-- The level of the policy was overwritten by a number. -/
def corruptPolicy : Json := Json.empty.insert "write" (.number (.posInt 42))

/-- The team is governed, and the namespace below it has a standard of another agent. -/
def teamDatabase (below : Option Json) : Database where
  memories := ⟨[standardRow "s1" "alice" (some ownerPolicy), standardRow "s2" "bob" below],
    by simp [standardRow, Memory.base],
    by simp [standardRow, slotOf]⟩
  archivedMemories := []
  forgetTombstones := []
  recordStop := none
  memoryLinks := []
  archivedMemoryLinks := []
  namespaceMeta := [⟨"team", some "s1", none, ""⟩, ⟨"team/sub", some "s2", none, ""⟩]
  atomOf _ := none
  archivedAtomOf _ := none

/-- A standard without governance changes who may write, and a corrupted one also turns the depth gate off. -/
theorem standard_below_disturbs :
    ¬ ResolversAgree writePolicy (teamDatabase none) "team/sub" ∧
      ¬ ResolversAgree writePolicy (teamDatabase (some corruptPolicy)) "team/sub" ∧
      enforceStore writePolicy (teamDatabase none) "team" "alice" = .allow ∧
      enforceStore writePolicy (teamDatabase none) "team/sub" "alice" ≠ .allow ∧
      enforceStore writePolicy (teamDatabase none) "team/sub" "bob" = .allow ∧
      resolveRequireApprovalAboveDepth writePolicy (teamDatabase none) "team/sub" = some 1 ∧
      resolveRequireApprovalAboveDepth writePolicy (teamDatabase (some corruptPolicy)) "team/sub" = none := by
  have values : enforceStore writePolicy (teamDatabase none) "team" "alice" = .allow ∧
      enforceStore writePolicy (teamDatabase none) "team/sub" "alice" ≠ .allow ∧
      enforceStore writePolicy (teamDatabase none) "team/sub" "bob" = .allow ∧
      resolveRequireApprovalAboveDepth writePolicy (teamDatabase none) "team/sub" = some 1 ∧
      resolveRequireApprovalAboveDepth writePolicy (teamDatabase (some corruptPolicy)) "team/sub" = none := by
    decide +kernel
  have owners (below : Option Json) (other : namespaceOwner (teamDatabase below) "team/sub" = some "bob" ∧
      (governingStandard writePolicy (teamDatabase below) "team/sub").map ownerOf = some (some "alice")) :
      ¬ ResolversAgree writePolicy (teamDatabase below) "team/sub" := by
    obtain ⟨owner, governs⟩ := other
    obtain ⟨governing, found, isOwner⟩ := Option.map_eq_some_iff.mp governs
    unfold ResolversAgree
    rw [found]
    rintro ⟨same, _⟩
    rw [owner, isOwner] at same
    exact absurd same (by decide)
  exact ⟨owners none (by decide +kernel), owners (some corruptPolicy) (by decide +kernel), values⟩

end Samples
end AiMemory.Governance
