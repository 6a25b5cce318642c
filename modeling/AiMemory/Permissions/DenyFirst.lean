import AiMemory.Permissions.Evaluate

/-
This file proves which sources decide the outcome of the permission pipeline.
-/

namespace AiMemory.Permissions
open AiMemory.Crdt AiMemory.Hooks

section Overlay

/-- The deltas of the hooks that modify, in chain order. -/
def deltasOf (hookDecisions : List HookDecision) : List MemoryDelta := hookDecisions.filterMap hookDelta

def lastNamed {Value : Type} (deltas : List MemoryDelta) (field : MemoryDelta → Option Value) :
    Option Value :=
  (deltas.filterMap field).getLast?

/-- Each field of the overlay is that of the last delta that names it. -/
def overlay (deltas : List MemoryDelta) : MemoryDelta where
  tier := lastNamed deltas MemoryDelta.tier
  «namespace» := lastNamed deltas MemoryDelta.namespace
  title := lastNamed deltas MemoryDelta.title
  content := lastNamed deltas MemoryDelta.content
  tags := lastNamed deltas MemoryDelta.tags
  priority := lastNamed deltas MemoryDelta.priority
  confidence := lastNamed deltas MemoryDelta.confidence
  source := lastNamed deltas MemoryDelta.source
  expiresAt := lastNamed deltas MemoryDelta.expiresAt
  metadata := lastNamed deltas MemoryDelta.metadata

/-- The value that is named last is that of the last delta, if it names one. -/
theorem lastNamed_concat {Value : Type} (deltas : List MemoryDelta) (next : MemoryDelta)
    (field : MemoryDelta → Option Value) :
    lastNamed (deltas ++ [next]) field = (field next <|> lastNamed deltas field) := by
  unfold lastNamed
  rw [List.filterMap_append]
  cases named : field next with
  | none => simp [named]
  | some value => simp [named]

/-- The last delta is merged into the overlay of the earlier ones. -/
theorem overlay_concat (deltas : List MemoryDelta) (next : MemoryDelta) :
    overlay (deltas ++ [next]) = MemoryDelta.mergeDeltaInto (overlay deltas) next := by
  simp only [overlay, MemoryDelta.mergeDeltaInto, lastNamed_concat]

/-- The pipeline composes the overlay of the deltas, if there is one. -/
theorem composeDeltas_eq (hookDecisions : List HookDecision) :
    composeDeltas hookDecisions =
      if deltasOf hookDecisions = [] then none else some (overlay (deltasOf hookDecisions)) := by
  induction hookDecisions using List.reverseRecOn with
  | nil => rfl
  | append_singleton earlier hook ih =>
      have step : composeDeltas (earlier ++ [hook]) = (hookDelta hook).elim (composeDeltas earlier)
          fun next => some (mergeDelta (composeDeltas earlier) next) := by
        unfold composeDeltas
        rw [List.foldl_concat]
        cases hookDelta hook <;> rfl
      have deltas : deltasOf (earlier ++ [hook]) = deltasOf earlier ++ (hookDelta hook).toList := by
        unfold deltasOf
        rw [List.filterMap_append]
        cases named : hookDelta hook <;> simp [named]
      rw [step, deltas, ih]
      cases hookDelta hook with
      | none => simp
      | some next =>
          have merged : mergeDelta (if deltasOf earlier = [] then none else some (overlay (deltasOf earlier)))
              next = overlay (deltasOf earlier ++ [next]) := by
            rw [overlay_concat]
            split
            · rename_i empty
              rw [empty]
              rfl
            · rfl
          simp [merged]

end Overlay

inductive Kind where
  | allow | deny | modify | ask
  deriving DecidableEq

def Decision.kind : Decision → Kind
  | allow => .allow
  | deny _ => .deny
  | modify _ => .modify
  | ask _ => .ask

section Passes

variable (ctx : PermissionContext) (rules : List PermissionRule) (hookDecisions : List HookDecision)
  (mode : PermissionsMode)

/-- Some rule that covers the context decides so. -/
def spoken (decision : RuleDecision) : Bool :=
  rules.any fun rule => rule.covers ctx && decide (rule.decision = decision)

/-- The rules that match are those that cover the context. -/
theorem mem_matchedRules {ctx : PermissionContext} {rules : List PermissionRule} {rule : PermissionRule} :
    rule ∈ matchedRules ctx rules ↔ rule ∈ rules ∧ rule.covers ctx := by
  unfold matchedRules
  rw [List.mem_insertionSort, List.mem_filter]

theorem any_matchedRules (decision : RuleDecision) :
    ((matchedRules ctx rules).any fun rule => rule.decision = decision) = spoken ctx rules decision := by
  unfold spoken
  apply Bool.eq_iff_iff.mpr
  simp only [List.any_eq_true, mem_matchedRules, Bool.and_eq_true, and_assoc]

/-- The deny pass answers exactly when a rule or a hook denies. -/
theorem denyPass_isSome :
    (denyPass (matchedRules ctx rules) hookDecisions).isSome =
      (spoken ctx rules .deny || hookDecisions.any HookDecision.isDeny) := by
  have hooks : (hookDecisions.findSome? hookDenial).isSome = hookDecisions.any HookDecision.isDeny := by
    rw [List.isSome_findSome?]
    congr 1
    funext hook
    cases hook <;> rfl
  rw [← any_matchedRules, ← List.isSome_find?, ← hooks, denyPass]
  cases (matchedRules ctx rules).find? fun rule => rule.decision = .deny <;> rfl

/-- The ask pass answers exactly when a rule or a hook asks. -/
theorem askPass_isSome :
    (askPass (matchedRules ctx rules) hookDecisions).isSome =
      (spoken ctx rules .ask || hookDecisions.any fun hook => (hookPrompt hook).isSome) := by
  rw [← any_matchedRules, ← List.isSome_find?, ← List.isSome_findSome?, askPass]
  cases (matchedRules ctx rules).find? fun rule => rule.decision = .ask <;> rfl

/-- The allow pass answers exactly when a rule or a hook allows. -/
theorem allowPass_eq :
    allowPass (matchedRules ctx rules) hookDecisions =
      (spoken ctx rules .allow || hookDecisions.any hookAllows) := by
  rw [allowPass, any_matchedRules]

/-- The last passes over what the sources say. -/
def resolve (allows asks : Bool) : Kind :=
  if allows then .allow
  else if asks then (if mode = .enforce then .deny else .ask)
  else .allow

/-- An outcome of the ask pass is resolved by the mode. -/
theorem kind_askOutcome (prompt : Option String) :
    (askOutcome ctx mode prompt).kind = resolve mode false prompt.isSome := by
  cases prompt with
  | none => rfl
  | some prompt => cases mode <;> rfl

end Passes

section Outcome

variable (plain : Char → Bool) (rebound : PermissionContext → Decision) (ctx : PermissionContext)
  (hookDecisions : List HookDecision) (rules : List PermissionRule) (mode : PermissionsMode)

/-- Some source denies the pinned namespace. -/
def denies : Bool := spoken ctx rules .deny || hookDecisions.any HookDecision.isDeny

/-- The kind of the outcome when no hook modifies. -/
def plainKind : Kind :=
  if denies ctx hookDecisions rules then .deny
  else
    resolve mode (spoken ctx rules .allow || hookDecisions.any hookAllows)
      (spoken ctx rules .ask || hookDecisions.any fun hook => (hookPrompt hook).isSome)

/-- A delta passes unless its namespace is denied or prompts. -/
def modifiedKind (delta : MemoryDelta) (reboundKind : String → Kind) : Kind :=
  match delta.namespace with
  | none => .modify
  | some newNs =>
      if newNs = ctx.namespace then .modify
      else if reboundKind newNs = .deny then .deny
      else if reboundKind newNs = .ask then .ask
      else .modify

/-- An escalated modification has the kind of its rebound evaluation. -/
theorem kind_escalation (delta : MemoryDelta) :
    ((escalation plain rebound ctx delta).getD (.modify delta)).kind =
      modifiedKind ctx delta fun newNs => (rebound { ctx with «namespace» := newNs }).kind := by
  unfold escalation modifiedKind
  cases delta.namespace with
  | none => rfl
  | some newNs =>
      by_cases pinned : newNs = ctx.namespace
      · simp [pinned, Decision.kind]
      · simp only [pinned, if_false]
        split <;> simp_all [Decision.kind]

/-- The kind of an evaluation is decided by the passes in their order. -/
theorem kind_evaluateOver (active : mode ≠ .off) :
    (evaluateOver plain rebound ctx hookDecisions rules mode).kind =
      if denies ctx hookDecisions rules then .deny
      else if deltasOf hookDecisions = [] then plainKind ctx hookDecisions rules mode
      else modifiedKind ctx (overlay (deltasOf hookDecisions))
        fun newNs => (rebound { ctx with «namespace» := newNs }).kind := by
  have denied := denyPass_isSome ctx rules hookDecisions
  rw [← denies] at denied
  simp only [evaluateOver, active, if_false]
  cases found : denyPass (matchedRules ctx rules) hookDecisions with
  | some reason =>
      rw [found] at denied
      rw [← denied]
      rfl
  | none =>
      rw [found, Option.isSome_none] at denied
      simp only [← denied, composeDeltas_eq, plainKind, Bool.false_eq_true, if_false]
      by_cases silent : deltasOf hookDecisions = []
      · simp only [silent, if_true, allowPass_eq]
        cases spoken ctx rules .allow || hookDecisions.any hookAllows with
        | true => rfl
        | false =>
            simp only [Bool.false_eq_true, if_false, kind_askOutcome, askPass_isSome]
      · simp only [silent, if_false, kind_escalation]

/-- Without hooks the kind is decided by the rules alone. -/
theorem kind_evaluateRules (active : mode ≠ .off) :
    (evaluateRules plain rules mode ctx).kind = plainKind ctx [] rules mode := by
  rw [evaluateRules, kind_evaluateOver plain _ ctx [] rules mode active, plainKind]
  split <;> rfl

/-- The kind of the outcome depends on what the sources say and on the rebound namespace. -/
theorem kind_evaluateWith (active : mode ≠ .off) :
    (evaluateWith plain ctx hookDecisions rules mode).kind =
      if denies ctx hookDecisions rules then .deny
      else if deltasOf hookDecisions = [] then plainKind ctx hookDecisions rules mode
      else modifiedKind ctx (overlay (deltasOf hookDecisions))
        fun newNs => plainKind { ctx with «namespace» := newNs } [] rules mode := by
  rw [evaluateWith, kind_evaluateOver plain _ ctx hookDecisions rules mode active]
  simp only [kind_evaluateRules plain _ rules mode active]

/-- The pipeline modifies by the overlay of all deltas. -/
theorem evaluateWith_modify {delta : MemoryDelta}
    (modifies : evaluateWith plain ctx hookDecisions rules mode = .modify delta) :
    deltasOf hookDecisions ≠ [] ∧ delta = overlay (deltasOf hookDecisions) := by
  unfold evaluateWith evaluateOver at modifies
  simp only [composeDeltas_eq] at modifies
  by_cases off : mode = .off
  · simp [off] at modifies
  · simp only [off, if_false] at modifies
    cases found : denyPass (matchedRules ctx rules) hookDecisions with
    | some reason => simp [found] at modifies
    | none =>
        by_cases silent : deltasOf hookDecisions = []
        · simp only [found, silent, if_true] at modifies
          split at modifies
          · cases modifies
          · unfold askOutcome modeDefaultFor at modifies
            split at modifies <;> cases mode <;> cases modifies
        · simp only [found, silent, if_false] at modifies
          refine ⟨silent, ?_⟩
          unfold escalation at modifies
          split at modifies
          · exact (Decision.modify.inj modifies).symm
          · split at modifies
            · exact (Decision.modify.inj modifies).symm
            · split at modifies <;> cases modifies <;> rfl

/-- The enforcing mode never asks. -/
theorem plainKind_enforce : plainKind ctx hookDecisions rules .enforce ≠ .ask := by
  unfold plainKind resolve
  simp only [if_true]
  split_ifs <;> decide

end Outcome

section Laws

variable (plain : Char → Bool) (ctx : PermissionContext) (hookDecisions : List HookDecision)
  (rules : List PermissionRule) (mode : PermissionsMode)

/-- A rule denies the op and the agent in the pinned namespace or in that of the composed delta, or a
hook denies. -/
def Denied : Prop :=
  (∃ rule ∈ rules, rule.decision = .deny ∧ rule.op = ctx.op.asStr ∧
    globMatches rule.agentPattern ctx.agentId ∧
    ∃ target, (target = ctx.namespace ∨ (overlay (deltasOf hookDecisions)).namespace = some target) ∧
      globMatches rule.namespacePattern target) ∨
    ∃ hook ∈ hookDecisions, hook.isDeny

/-- Every rule that covers the context and every hook asks, and one of them does. -/
def RestsOnAsk : Prop :=
  (∀ rule ∈ rules, rule.covers ctx → rule.decision = .ask) ∧
    (∀ hook ∈ hookDecisions, (hookPrompt hook).isSome) ∧
    ((∃ rule ∈ rules, rule.covers ctx) ∨ hookDecisions ≠ [])

/-- The second list has the hooks of the first one and further allows. -/
inductive InsertsAllows : List HookDecision → List HookDecision → Prop
  | nil : InsertsAllows [] []
  | keep (hook : HookDecision) {before after : List HookDecision} (rest : InsertsAllows before after) :
      InsertsAllows (hook :: before) (hook :: after)
  | insert {before after : List HookDecision} (rest : InsertsAllows before after) :
      InsertsAllows before (.allow :: after)

variable {ctx hookDecisions rules mode}

theorem spoken_iff {decision : RuleDecision} :
    spoken ctx rules decision = true ↔ ∃ rule ∈ rules, rule.covers ctx ∧ rule.decision = decision := by
  simp [spoken]

/-- A denied context is denied in every active mode. -/
theorem kind_of_denied (active : mode ≠ .off) (denied : Denied ctx hookDecisions rules) :
    (evaluateWith plain ctx hookDecisions rules mode).kind = .deny := by
  rw [kind_evaluateWith plain ctx hookDecisions rules mode active]
  by_cases pinnedDenied : denies ctx hookDecisions rules
  · rw [if_pos pinnedDenied]
  · rw [if_neg pinnedDenied]
    unfold denies at pinnedDenied
    rw [Bool.or_eq_true, not_or] at pinnedDenied
    rcases denied with ⟨rule, present, forbids, sameOp, sameAgent, target, aimed, matched⟩ |
      ⟨hook, present, forbids⟩
    · rcases aimed with rfl | rewritten
      · have covers : rule.covers ctx := by simp [PermissionRule.covers, sameOp, matched, sameAgent]
        exact absurd (spoken_iff.mpr ⟨rule, present, covers, forbids⟩) pinnedDenied.1
      · have modified : deltasOf hookDecisions ≠ [] := by
          intro silent
          rw [silent] at rewritten
          cases rewritten
        have covers : rule.covers { ctx with «namespace» := target } := by
          simp [PermissionRule.covers, sameOp, matched, sameAgent]
        have elsewhere : target ≠ ctx.namespace := by
          intro pinned
          rw [pinned] at covers
          exact pinnedDenied.1 (spoken_iff.mpr ⟨rule, present, covers, forbids⟩)
        have deniedThere := spoken_iff.mpr ⟨rule, present, covers, forbids⟩
        rw [if_neg modified, modifiedKind]
        simp [rewritten, elsewhere, plainKind, denies, deniedThere]
    · exact absurd (List.any_eq_true.mpr ⟨hook, present, forbids⟩) pinnedDenied.2

/-- No evaluation in the enforcing mode asks. -/
theorem kind_enforce : (evaluateWith plain ctx hookDecisions rules .enforce).kind ≠ .ask := by
  rw [kind_evaluateWith plain ctx hookDecisions rules .enforce (by decide)]
  split_ifs
  · decide
  · exact plainKind_enforce ctx hookDecisions rules
  · unfold modifiedKind
    split
    · decide
    · split_ifs with _ _ asks
      · decide
      · decide
      · exact absurd asks (plainKind_enforce _ [] rules)
      · decide

/-- The order of the rules does not change the kind. -/
theorem kind_perm (active : mode ≠ .off) {reordered : List PermissionRule} (same : reordered.Perm rules) :
    (evaluateWith plain ctx hookDecisions reordered mode).kind =
      (evaluateWith plain ctx hookDecisions rules mode).kind := by
  have spoken_perm (context : PermissionContext) (decision : RuleDecision) :
      spoken context reordered decision = spoken context rules decision := same.any_eq
  have plainKind_perm (context : PermissionContext) (hooks : List HookDecision) :
      plainKind context hooks reordered mode = plainKind context hooks rules mode := by
    rw [plainKind, plainKind, denies, denies, spoken_perm, spoken_perm, spoken_perm]
  rw [kind_evaluateWith plain _ _ _ mode active, kind_evaluateWith plain _ _ _ mode active, denies, denies,
    spoken_perm, plainKind_perm]
  simp only [plainKind_perm]

namespace InsertsAllows

variable {before after : List HookDecision}

/-- An inserted Allow changes no delta. -/
theorem deltasOf_eq (inserts : InsertsAllows before after) : deltasOf after = deltasOf before := by
  induction inserts with
  | nil => rfl
  | keep hook _ ih =>
      unfold deltasOf at ih ⊢
      rw [List.filterMap_cons, List.filterMap_cons, ih]
  | insert _ ih => exact ih

/-- An allow answers no question about the other kinds of hooks. -/
theorem any_eq (inserts : InsertsAllows before after) {question : HookDecision → Bool}
    (silent : question .allow = false) : after.any question = before.any question := by
  induction inserts with
  | nil => rfl
  | keep hook _ ih => rw [List.any_cons, List.any_cons, ih]
  | insert _ ih => rw [List.any_cons, silent, Bool.false_or, ih]

/-- An inserted Allow takes no Allow away. -/
theorem allows_mono (inserts : InsertsAllows before after) (allowed : before.any hookAllows = true) :
    after.any hookAllows = true := by
  induction inserts with
  | nil => exact allowed
  | keep hook _ ih =>
      rw [List.any_cons, Bool.or_eq_true] at allowed ⊢
      exact allowed.imp_right ih
  | insert _ _ => rfl

/-- A list that differs has an allow. -/
theorem allows_of_ne (inserts : InsertsAllows before after) (different : after ≠ before) :
    after.any hookAllows = true := by
  induction inserts with
  | nil => exact absurd rfl different
  | keep hook _ ih =>
      have rest := ih fun same => different (congrArg (hook :: ·) same)
      rw [List.any_cons, rest, Bool.or_true]
  | insert _ _ => rfl

end InsertsAllows

/-- Where everything that speaks asks, nothing denies or modifies. -/
theorem RestsOnAsk.undenied (asking : RestsOnAsk ctx hookDecisions rules) :
    denies ctx hookDecisions rules = false ∧ deltasOf hookDecisions = [] := by
  obtain ⟨ruled, hooked, _⟩ := asking
  have asks : ∀ hook ∈ hookDecisions, ∃ prompt options default, hook = .askUser prompt options default := by
    intro hook present
    have prompted := hooked hook present
    cases hook with
    | askUser prompt options default => exact ⟨prompt, options, default, rfl⟩
    | allow | deny | modify => cases prompted
  constructor
  · refine Bool.or_eq_false_iff.mpr ⟨Bool.eq_false_iff.mpr fun spoke => ?_, List.any_eq_false.mpr ?_⟩
    · obtain ⟨rule, present, covers, forbids⟩ := spoken_iff.mp spoke
      cases (ruled rule present covers).symm.trans forbids
    · intro hook present
      obtain ⟨prompt, options, default, rfl⟩ := asks hook present
      exact Bool.false_ne_true
  · refine List.filterMap_eq_nil_iff.mpr fun hook present => ?_
    obtain ⟨prompt, options, default, rfl⟩ := asks hook present
    rfl

/-- Without a denial, a delta or an allow, everything that speaks asks. -/
theorem restsOnAsk_of (undenied : denies ctx hookDecisions rules = false)
    (silent : deltasOf hookDecisions = [])
    (unallowed : (spoken ctx rules .allow || hookDecisions.any hookAllows) = false)
    (asked : (spoken ctx rules .ask || hookDecisions.any fun hook => (hookPrompt hook).isSome) = true) :
    RestsOnAsk ctx hookDecisions rules := by
  unfold denies at undenied
  rw [Bool.or_eq_false_iff] at undenied unallowed
  refine ⟨?_, ?_, ?_⟩
  · intro rule present covers
    cases decided : rule.decision with
    | ask => rfl
    | allow => exact absurd (spoken_iff.mpr ⟨rule, present, covers, decided⟩) (by simp [unallowed.1])
    | deny => exact absurd (spoken_iff.mpr ⟨rule, present, covers, decided⟩) (by simp [undenied.1])
  · intro hook present
    cases hook with
    | allow =>
        have allowed : hookDecisions.any hookAllows = true := List.any_eq_true.mpr ⟨_, present, rfl⟩
        exact absurd allowed (by simp [unallowed.2])
    | modify delta =>
        exact absurd (List.filterMap_eq_nil_iff.mp silent _ present) (by simp [hookDelta])
    | deny reason code =>
        have denied : hookDecisions.any HookDecision.isDeny = true :=
          List.any_eq_true.mpr ⟨_, present, rfl⟩
        exact absurd denied (by simp [undenied.2])
    | askUser prompt options default => rfl
  · rw [Bool.or_eq_true, spoken_iff] at asked
    rcases asked with ⟨rule, present, covers, _⟩ | hooks
    · exact .inl ⟨rule, present, covers⟩
    · obtain ⟨hook, present, _⟩ := List.any_eq_true.mp hooks
      exact .inr (List.ne_nil_of_mem present)

/-- An inserted allow changes the kind only where it answers an ask. -/
theorem kind_insertsAllows (active : mode ≠ .off) {more : List HookDecision}
    (inserts : InsertsAllows hookDecisions more) :
    (evaluateWith plain ctx more rules mode).kind = (evaluateWith plain ctx hookDecisions rules mode).kind ∨
      RestsOnAsk ctx hookDecisions rules ∧ (evaluateWith plain ctx more rules mode).kind = .allow := by
  have sameDenies : denies ctx more rules = denies ctx hookDecisions rules := by
    rw [denies, denies, inserts.any_eq rfl]
  have sameAsks : (more.any fun hook => (hookPrompt hook).isSome) =
      hookDecisions.any fun hook => (hookPrompt hook).isSome := inserts.any_eq rfl
  simp only [kind_evaluateWith plain _ _ _ mode active, sameDenies, inserts.deltasOf_eq, plainKind,
    sameAsks]
  cases undenied : denies ctx hookDecisions rules with
  | true => exact .inl rfl
  | false =>
      by_cases silent : deltasOf hookDecisions = []
      · simp only [silent, if_true, Bool.false_eq_true, if_false]
        cases unallowed : spoken ctx rules .allow || hookDecisions.any hookAllows with
        | true =>
            have stillAllowed : (spoken ctx rules .allow || more.any hookAllows) = true := by
              rw [Bool.or_eq_true] at unallowed ⊢
              exact unallowed.imp_right inserts.allows_mono
            rw [stillAllowed]
            exact .inl rfl
        | false =>
            cases asked : spoken ctx rules .ask || hookDecisions.any fun hook => (hookPrompt hook).isSome with
            | true =>
                cases spoken ctx rules .allow || more.any hookAllows with
                | true => exact .inr ⟨restsOnAsk_of undenied silent unallowed asked, rfl⟩
                | false => exact .inl rfl
            | false =>
                cases spoken ctx rules .allow || more.any hookAllows <;> exact .inl rfl
      · simp only [silent, if_false]
        exact .inl trivial

/-- An allow that is inserted where everything that speaks asks answers the ask. -/
theorem kind_of_restsOnAsk (active : mode ≠ .off) {more : List HookDecision}
    (inserts : InsertsAllows hookDecisions more) (asking : RestsOnAsk ctx hookDecisions rules)
    (different : more ≠ hookDecisions) : (evaluateWith plain ctx more rules mode).kind = .allow := by
  obtain ⟨undenied, silent⟩ := asking.undenied
  have sameDenies : denies ctx more rules = false := by
    rw [← undenied, denies, denies, inserts.any_eq rfl]
  rw [kind_evaluateWith plain _ _ _ mode active, sameDenies, inserts.deltasOf_eq, silent, plainKind, sameDenies,
    inserts.allows_of_ne different, Bool.or_true]
  rfl

/-- A denial wins in either namespace, and only an allow that answers an ask changes the kind. -/
theorem evaluateWith_deny_first (plain : Char → Bool) (ctx : PermissionContext)
    (hookDecisions : List HookDecision) (rules : List PermissionRule) (mode : PermissionsMode)
    (active : mode ≠ .off) :
    (Denied ctx hookDecisions rules →
        (evaluateWith plain ctx hookDecisions rules mode).kind = .deny) ∧
      (mode = .enforce → (evaluateWith plain ctx hookDecisions rules mode).kind ≠ .ask) ∧
      (∀ delta, evaluateWith plain ctx hookDecisions rules mode = .modify delta →
        deltasOf hookDecisions ≠ [] ∧ delta = overlay (deltasOf hookDecisions)) ∧
      (∀ reordered : List PermissionRule, reordered.Perm rules →
        (evaluateWith plain ctx hookDecisions reordered mode).kind =
          (evaluateWith plain ctx hookDecisions rules mode).kind) ∧
      (∀ more, InsertsAllows hookDecisions more →
        (evaluateWith plain ctx more rules mode).kind =
            (evaluateWith plain ctx hookDecisions rules mode).kind ∨
          RestsOnAsk ctx hookDecisions rules ∧ (evaluateWith plain ctx more rules mode).kind = .allow) ∧
      ∀ more, InsertsAllows hookDecisions more → RestsOnAsk ctx hookDecisions rules → more ≠ hookDecisions →
        (evaluateWith plain ctx more rules mode).kind = .allow := by
  refine ⟨kind_of_denied plain active, ?_, ?_, ?_, ?_, ?_⟩
  · intro enforced
    rw [enforced]
    exact kind_enforce plain
  · intro delta modifies
    exact evaluateWith_modify plain ctx hookDecisions rules mode modifies
  · intro reordered same
    exact kind_perm plain active same
  · intro more inserts
    exact kind_insertsAllows plain active inserts
  · intro more inserts asking different
    exact kind_of_restsOnAsk plain active inserts asking different

end Laws

section Samples

def storeContext : PermissionContext := ⟨.memoryStore, "notes", "ai:alice", .null⟩

def askRule : PermissionRule := ⟨"**", "memory_store", "*", .ask, none⟩

def secretsRule : PermissionRule := ⟨"secrets/**", "memory_store", "*", .deny, none⟩

def intoSecrets : HookDecision := .modify { MemoryDelta.empty with «namespace» := some "secrets/a" }

/-- A hook that moves the write into a denied namespace is denied. -/
theorem intoSecrets_denied :
    (evaluateWith Char.isAlphanum storeContext [intoSecrets] [secretsRule] .enforce).kind = .deny := by
  apply (evaluateWith_deny_first Char.isAlphanum storeContext [intoSecrets] [secretsRule] .enforce
    (by decide)).1
  refine .inl ⟨secretsRule, List.mem_singleton_self _, rfl, rfl, by decide +kernel, "secrets/a", .inr rfl, ?_⟩
  decide +kernel

/-- Under enforcement an inserted allow turns the denial of an ask into an allow. -/
theorem insertedAllow_changes :
    InsertsAllows [] [.allow] ∧
      (evaluateWith Char.isAlphanum storeContext [] [askRule] .enforce).kind = .deny ∧
      (evaluateWith Char.isAlphanum storeContext [.allow] [askRule] .enforce).kind = .allow :=
  ⟨.insert .nil, by decide +kernel, by decide +kernel⟩

end Samples
end AiMemory.Permissions
