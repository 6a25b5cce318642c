import AiMemory.Hooks.Chain

/-
This file embeds the presence check of required events and proves that none is bypassed.
-/

namespace AiMemory.Hooks
open AiMemory.Crdt AiMemory.Library

inductive HookEnforceMode where
  | off
  | advisory
  | enforce
  deriving DecidableEq

section Enforce

variable (hooks : List HookConfig) (event : HookEvent) (mode : HookEnforceMode) (required : List HookEvent)

def enforceRequiredEventPresence : Option ChainResult :=
  if mode = .off ∨ event ∉ required then none
  else if hooks.any fun hook => hook.event = event ∧ hook.enabled then none
  else
    match mode with
    | .enforce =>
        some (.deny ("hooks.enforce: required event " ++ eventWire event ++
          " has no enabled hook (enforce mode → fail-closed)") 503)
    | .advisory => none
    | .off => none

def effectiveFailMode (cfg : HookConfig) : FailMode :=
  if mode = .enforce ∧ cfg.event ∈ required then .closed else cfg.failMode

def effectiveHooksForEvent : List HookConfig :=
  (hooks.filter fun hook => hook.enabled ∧ hook.event = event).map fun hook =>
    { hook with failMode := effectiveFailMode mode required hook }

def dispatchPreEventEnforced (surroundings : Surroundings) (payload : Json) : ChainResult × ChainState :=
  match enforceRequiredEventPresence hooks event mode required with
  | some deny => (deny, .start payload)
  | none => (HookChain.new (effectiveHooksForEvent hooks event mode required)).fire surroundings event payload

end Enforce

/-- The hook answered the fire with a decision other than a denial. -/
def HookFire.Passed (fire : HookFire) : Prop :=
  ∃ decision, fire.answer = .ok decision ∧ decision.isDeny = false

section Chain

variable {surroundings : Surroundings} {event : HookEvent} {chainDeadline position : Nat}
  {cfg : HookConfig} {state next : ChainState}

theorem decide_fires (decision : HookDecision) : (state.decide cfg decision).1.fires = state.fires := by
  cases decision <;> rfl

/-- A decision stops the chain only with a denial. -/
theorem decide_stops {decision : HookDecision} {result : ChainResult}
    (stops : (state.decide cfg decision).2 = some result) : result.isDeny := by
  cases decision <;> cases stops
  rfl

/-- A chain that goes on was not denied. -/
theorem decide_goes_on {decision : HookDecision} (goesOn : (state.decide cfg decision).2 = none) :
    decision.isDeny = false := by
  cases decision <;> first | rfl | cases goesOn

/-- Only a denial ends the chain before its last hook. -/
theorem visitHook_stops {result : ChainResult}
    (stops : visitHook surroundings event chainDeadline position cfg state = (next, some result)) :
    result.isDeny := by
  unfold visitHook at stops
  split at stops
  · unfold fireHook at stops
    simp only at stops
    split at stops
    · exact decide_stops (congrArg Prod.snd stops)
    · split at stops
      · exact decide_stops (congrArg Prod.snd stops)
      · cases stops
        rfl
  · split at stops <;> cases stops
    rfl

/-- A closed hook that the chain passes was fired and let the operation pass. -/
theorem visitHook_passes (closed : cfg.failMode = .closed)
    (goesOn : visitHook surroundings event chainDeadline position cfg state = (next, none)) :
    ∃ fire : HookFire, fire.hook = cfg ∧ fire.Passed ∧ next.fires = state.fires ++ [fire] := by
  unfold visitHook at goesOn
  split at goesOn
  · unfold fireHook at goesOn
    simp only at goesOn
    split at goesOn
    · rename_i decision answered
      refine ⟨⟨cfg, state.currentPayload, _⟩, rfl, ⟨decision, answered, ?_⟩, ?_⟩
      · rw [← HookDecision.isDeny_degrade decision event]
        exact decide_goes_on (congrArg Prod.snd goesOn)
      · have moved := congrArg (fun step => step.1.fires) goesOn
        exact moved.symm.trans (decide_fires _)
    · rw [closed] at goesOn
      cases goesOn
  · rw [closed] at goesOn
    cases goesOn

/-- A chain of closed hooks that does not deny fired each of them in order. -/
theorem fireFrom_passes {hooks : List HookConfig} (closed : ∀ hook ∈ hooks, hook.failMode = .closed)
    (passes : (fireFrom surroundings event chainDeadline position hooks state).1.isDeny = false) :
    ∃ fires : List HookFire, fires.map HookFire.hook = hooks ∧ (∀ fire ∈ fires, fire.Passed) ∧
      (fireFrom surroundings event chainDeadline position hooks state).2.fires = state.fires ++ fires := by
  induction hooks generalizing position state with
  | nil => exact ⟨[], rfl, by simp, (List.append_nil _).symm⟩
  | cons cfg rest ih =>
      rw [fireFrom] at passes ⊢
      cases visited : visitHook surroundings event chainDeadline position cfg state with
      | mk next stopped =>
          cases stopped with
          | some result =>
              rw [visited] at passes
              exact absurd (visitHook_stops visited) (by simpa using passes)
          | none =>
              rw [visited] at passes
              obtain ⟨fire, here, passed, logged⟩ :=
                visitHook_passes (closed cfg List.mem_cons_self) visited
              obtain ⟨fires, later, allPassed, appended⟩ :=
                ih (fun hook present => closed hook (List.mem_cons_of_mem _ present)) passes
              refine ⟨fire :: fires, by rw [List.map_cons, here, later],
                List.forall_mem_cons.mpr ⟨passed, allPassed⟩, ?_⟩
              exact appended.trans (by rw [logged, List.append_assoc, List.singleton_append])

end Chain

/-- An enabled hook was there and every enabled hook was fired and let the operation pass. -/
structure Enforced (hooks : List HookConfig) (event : HookEvent) (fires : List HookFire) : Prop where
  present : ∃ hook ∈ hooks, hook.enabled ∧ hook.event = event
  fired : (fires.map HookFire.hook).Perm ((hooks.filter fun hook => hook.enabled ∧ hook.event = event).map
    fun hook => { hook with failMode := .closed })
  passed : ∀ fire ∈ fires, fire.Passed

section Presence

variable {hooks : List HookConfig} {event : HookEvent} {required : List HookEvent}

/-- A required event without a hook is denied. -/
theorem presence_denies {mode : HookEnforceMode} {result : ChainResult}
    (checked : enforceRequiredEventPresence hooks event mode required = some result) : result.isDeny := by
  unfold enforceRequiredEventPresence at checked
  split_ifs at checked
  cases mode <;> cases checked
  rfl

/-- A required event that passes the check has an enabled hook. -/
theorem presence_finds (member : event ∈ required)
    (checked : enforceRequiredEventPresence hooks event .enforce required = none) :
    ∃ hook ∈ hooks, hook.enabled ∧ hook.event = event := by
  unfold enforceRequiredEventPresence at checked
  rw [if_neg (by simp [member])] at checked
  split_ifs at checked with found
  obtain ⟨hook, present, matching⟩ := List.any_eq_true.mp found
  exact ⟨hook, present, (of_decide_eq_true matching).symm⟩

/-- The enforcement closes every hook of a required event. -/
theorem effectiveHooks_closed (member : event ∈ required) :
    effectiveHooksForEvent hooks event .enforce required =
      (hooks.filter fun hook => hook.enabled ∧ hook.event = event).map fun hook =>
        { hook with failMode := .closed } := by
  apply List.map_congr_left
  intro hook present
  obtain ⟨_, matching⟩ := List.mem_filter.mp present
  have own : hook.event = event := (of_decide_eq_true matching).2
  rw [effectiveFailMode, if_pos ⟨rfl, own ▸ member⟩]

end Presence

/-- A required event passes only when all its enabled hooks let it pass. -/
theorem requiredEvent_enforced (surroundings : Surroundings) (hooks : List HookConfig) (event : HookEvent)
    (required : List HookEvent) (payload : Json) (member : event ∈ required)
    (passes :
      (dispatchPreEventEnforced hooks event .enforce required surroundings payload).1.isDeny = false) :
    Enforced hooks event
      (dispatchPreEventEnforced hooks event .enforce required surroundings payload).2.fires := by
  unfold dispatchPreEventEnforced at passes ⊢
  cases checked : enforceRequiredEventPresence hooks event .enforce required with
  | some deny =>
      rw [checked] at passes
      exact absurd (presence_denies checked) (by simpa using passes)
  | none =>
      rw [checked] at passes
      have chained : ∀ hook ∈ (HookChain.new (effectiveHooksForEvent hooks event .enforce required)).hooks,
          hook.failMode = .closed := by
        intro hook present
        rw [HookChain.new, mem_sortOn, effectiveHooks_closed member] at present
        obtain ⟨_, _, rfl⟩ := List.mem_map.mp present
        rfl
      obtain ⟨fires, order, passed, logged⟩ := fireFrom_passes chained passes
      have fired : (HookChain.fire _ surroundings event payload).2.fires = fires := logged
      refine ⟨presence_finds member checked, ?_, ?_⟩
      · rw [fired, order, ← effectiveHooks_closed member]
        exact sortOn_perm _ _
      · rw [fired]
        exact passed

section Samples

def gateHook : HookConfig where
  event := .preStore
  command := "/bin/gate"
  priority := 1
  timeoutMs := 1000
  mode := .exec
  enabled := true
  «namespace» := "*"
  failMode := .open

/-- Both sample hooks answer within the deadline. -/
def calmSurroundings : Surroundings where
  entry := 0
  clock := fun position => position
  fire := fun position _ _ _ => some (.ok (if position = 0 then .askUser "store?" ["yes"] none else .allow))

theorem gatedStore_enforced :
    Enforced [gateHook, { gateHook with command := "/bin/audit", priority := 9 }] .preStore
      (dispatchPreEventEnforced [gateHook, { gateHook with command := "/bin/audit", priority := 9 }] .preStore
        .enforce [.preDelete, .preStore] calmSurroundings .null).2.fires :=
  requiredEvent_enforced calmSurroundings _ _ _ _ (by decide) (by decide)

end Samples

end AiMemory.Hooks
