import AiMemory.Hooks.Enforcement

/-
This file proves which modifications of the hooks reach the result of a chain.
-/

namespace AiMemory.Hooks
open AiMemory.Crdt AiMemory.Library

section Overlay

namespace MemoryDelta

/-- The columns of a delta with their values; an absent field writes nothing. -/
def columns (delta : MemoryDelta) : List (String × Option Json) :=
  [("tier", delta.tier.map tierValue), ("namespace", delta.namespace.map .string),
    ("title", delta.title.map .string), ("content", delta.content.map .string),
    ("tags", delta.tags.map stringsValue), ("priority", delta.priority.map intValue),
    ("confidence", delta.confidence.map floatValue), ("source", delta.source.map .string),
    ("expires_at", delta.expiresAt.map .string), ("metadata", delta.metadata)]

/-- What the delta writes under a key. -/
def written (delta : MemoryDelta) (key : String) : Option Json := (delta.columns.lookup key).join

/-- The fields of a delta are its columns that are set. -/
theorem fields_eq (delta : MemoryDelta) :
    delta.fields = delta.columns.filterMap fun field => field.2.map (field.1, ·) := rfl

theorem columns_keys (delta : MemoryDelta) :
    delta.columns.map Prod.fst = ["tier", "namespace", "title", "content", "tags", "priority", "confidence",
      "source", "expires_at", "metadata"] := rfl

end MemoryDelta

/-- An overlay of columns with distinct keys answers a written key with its value. -/
theorem get_foldl_columns {columns : List (String × Option Json)} (distinct : (columns.map Prod.fst).Nodup)
    {json : Json} (object : json.isObject) (query : String) :
    ((columns.filterMap fun field => field.2.map (field.1, ·)).foldl
        (fun object field => object.insert field.1 field.2) json).get query =
      ((columns.lookup query).join).or (json.get query) := by
  induction columns generalizing json with
  | nil => rfl
  | cons column rest ih =>
      obtain ⟨key, value⟩ := column
      obtain ⟨apart, others⟩ := List.nodup_cons.mp distinct
      have alone : rest.lookup key = none := by
        rw [List.lookup_eq_none_iff]
        intro other listed
        rw [bne_iff_ne]
        exact fun equal => apart (List.mem_map.mpr ⟨other, listed, equal.symm⟩)
      cases value with
      | none =>
          have later := ih others object
          by_cases same : query = key
          · subst same
            simp only [List.filterMap_cons, Option.map_none, later, alone, List.lookup_cons, beq_self_eq_true]
            rfl
          · simp only [List.filterMap_cons, Option.map_none, later, List.lookup_cons, beq_false_of_ne same]
      | some value =>
          have override := Json.get_put object key (some value) query
          rw [Json.put] at override
          have later := ih others ((Json.isObject_insert json key value).trans object)
          by_cases same : query = key
          · subst same
            simp only [List.filterMap_cons, Option.map_some, List.foldl_cons, later, alone, override,
              List.lookup_cons, beq_self_eq_true]
            rfl
          · simp only [List.filterMap_cons, Option.map_some, List.foldl_cons, later, override, if_neg same,
              List.lookup_cons, beq_false_of_ne same]

namespace MemoryDelta

variable {payload : Json} {first second : MemoryDelta}

theorem isObject_applyDelta (payload : Json) (delta : MemoryDelta) :
    (applyDeltaToPayload payload delta).isObject = true := by
  have kept (fields : List (String × Json)) (json : Json) (object : json.isObject = true) :
      (fields.foldl (fun object field => object.insert field.1 field.2) json).isObject = true := by
    induction fields generalizing json with
    | nil => exact object
    | cons field rest ih => exact ih _ (by rw [Json.isObject_insert]; exact object)
  refine kept delta.fields _ ?_
  split
  · assumption
  · rfl

/-- A written field replaces the entry of the payload. -/
theorem get_applyDelta (object : payload.isObject = true) (delta : MemoryDelta) (query : String) :
    (applyDeltaToPayload payload delta).get query = (delta.written query).or (payload.get query) := by
  rw [applyDeltaToPayload, if_pos object, fields_eq]
  exact get_foldl_columns (by rw [columns_keys]; decide) object query

/-- The merged delta writes what the later one writes, and under its absent fields what the earlier one writes. -/
theorem written_merge (first second : MemoryDelta) (query : String) :
    (first.mergeDeltaInto second).written query = (second.written query).or (first.written query) := by
  simp only [written, columns, mergeDeltaInto, List.lookup_cons, List.lookup_nil, Option.orElse_eq_orElse,
    Option.orElse_eq_or, Option.map_or]
  repeat' split
  all_goals rfl

/-- Two overlays in a row are the overlay of the merged delta. -/
theorem applyDelta_merge (object : payload.isObject = true) :
    applyDeltaToPayload (applyDeltaToPayload payload first) second =
      applyDeltaToPayload payload (first.mergeDeltaInto second) := by
  have inner := isObject_applyDelta payload first
  apply Json.ext_get (isObject_applyDelta _ _) (isObject_applyDelta _ _)
  intro query
  rw [get_applyDelta inner, get_applyDelta object, get_applyDelta object, written_merge, Option.or_assoc]

/-- An empty delta changes no payload. -/
theorem applyDelta_empty (object : payload.isObject = true) : applyDeltaToPayload payload .empty = payload := by
  rw [applyDeltaToPayload, if_pos object]
  rfl

end MemoryDelta
end Overlay

/-- The chain fires a hook or skips it because the deadline has passed. -/
inductive HookVisit where
  | fired (fire : HookFire)
  | skipped (cfg : HookConfig)

namespace HookVisit

def hook : HookVisit → HookConfig
  | .fired fire => fire.hook
  | .skipped cfg => cfg

def fire? : HookVisit → Option HookFire
  | .fired fire => some fire
  | .skipped _ => none

/-- A denial stops the chain, and so does a failure of a hook that fails closed. -/
def stops : HookVisit → Bool
  | .fired ⟨_, _, .ok decision⟩ => decision.isDeny
  | .fired ⟨cfg, _, .error _⟩ => cfg.failMode = .closed
  | .skipped cfg => cfg.failMode = .closed

def modifies : HookVisit → Bool
  | .fired ⟨_, _, .ok (.modify _)⟩ => true
  | _ => false

def asks : HookVisit → Bool
  | .fired ⟨_, _, .ok (.askUser _ _ _)⟩ => true
  | _ => false

/-- The last hook that was fired asked the user. -/
def asksLast (visits : List HookVisit) : Bool :=
  visits.foldl (fun asking visit => if visit.fire?.isSome then visit.asks else asking) false

/-- What a visit makes of the state before it. -/
def leads (event : HookEvent) (state : ChainState) : HookVisit → ChainState × Option ChainResult
  | .fired fire =>
      let fired := { state with fires := state.fires ++ [fire] }
      match fire.answer with
      | .ok decision => fired.decide fire.hook (decision.degradeModifyForPostEvent event)
      | .error error =>
          let counted := if error.isTimeout then fired.recordTimeoutViolation else fired
          match fire.hook.failMode with
          | .open => counted.decide fire.hook .allow
          | .closed =>
              (counted, some (.deny ("hook " ++ fire.hook.command ++ " errored under fail_mode=closed: " ++
                error.display) 503))
  | .skipped cfg =>
      match cfg.failMode with
      | .open => (state.recordTimeoutViolation, none)
      | .closed =>
          (state.recordTimeoutViolation, some (.deny ("hook " ++ cfg.command ++
            " skipped under fail_mode=closed: chain class deadline exhausted") 504))

end HookVisit

section Visits

variable (surroundings : Surroundings) (event : HookEvent) (chainDeadline : Nat)

def visitOf (position : Nat) (cfg : HookConfig) (state : ChainState) : HookVisit :=
  match perHookBudgetMs chainDeadline (surroundings.clock position) cfg.timeoutMs with
  | some budgetMs =>
      .fired ⟨cfg, state.currentPayload,
        (surroundings.fire position cfg event state.currentPayload).getD (.error (.timeout budgetMs))⟩
  | none => .skipped cfg

/-- The results of the hooks that the chain visits. -/
def visitsFrom : Nat → List HookConfig → ChainState → List HookVisit
  | _, [], _ => []
  | position, cfg :: rest, state =>
      visitOf surroundings event chainDeadline position cfg state ::
        match visitHook surroundings event chainDeadline position cfg state with
        | (_, some _) => []
        | (continued, none) => visitsFrom (position + 1) rest continued

end Visits

/-- The state of a chain after visits that did not stop it. -/
structure Tracks (event : HookEvent) (payload : Json) (visits : List HookVisit) (state : ChainState) : Prop where
  overlay : state.currentPayload = MemoryDelta.applyDeltaToPayload payload state.accumulatedDelta
  modified : state.modified = (isPreEvent event && visits.any HookVisit.modifies)
  queued : decide (state.askuserQueue ≠ []) = HookVisit.asksLast visits
  fires : state.fires = visits.filterMap HookVisit.fire?

section Steps

variable {surroundings : Surroundings} {event : HookEvent} {chainDeadline position : Nat} {payload : Json}
  {cfg : HookConfig} {visits : List HookVisit} {state next : ChainState}

theorem tracks_start (object : payload.isObject = true) : Tracks event payload [] (.start payload) where
  overlay := (MemoryDelta.applyDelta_empty object).symm
  modified := (Bool.and_false _).symm
  queued := rfl
  fires := rfl

@[simp] theorem hook_visitOf : (visitOf surroundings event chainDeadline position cfg state).hook = cfg := by
  unfold visitOf
  split <;> rfl

theorem visitsFrom_singleton : visitsFrom surroundings event chainDeadline position [cfg] state =
    [visitOf surroundings event chainDeadline position cfg state] := by
  rw [visitsFrom]
  split <;> rfl

/-- A visit leads the chain where the hook does. -/
theorem visitHook_eq : visitHook surroundings event chainDeadline position cfg state =
    (visitOf surroundings event chainDeadline position cfg state).leads event state := by
  unfold visitHook visitOf
  cases perHookBudgetMs chainDeadline (surroundings.clock position) cfg.timeoutMs <;> rfl

/-- The counted timeout changes neither the payload nor the queue. -/
theorem tracks_recordTimeoutViolation (tracked : Tracks event payload visits state) :
    Tracks event payload visits state.recordTimeoutViolation :=
  ⟨tracked.overlay, tracked.modified, tracked.queued, tracked.fires⟩

/-- A visit that ends the chain stops it. -/
theorem leads_isSome (visit : HookVisit) : (visit.leads event state).2.isSome = visit.stops := by
  cases visit with
  | skipped cfg => cases failing : cfg.failMode <;> simp [HookVisit.leads, HookVisit.stops, failing]
  | fired fire =>
      obtain ⟨cfg, received, answer⟩ := fire
      cases answer with
      | error error =>
          cases failing : cfg.failMode <;>
            simp [HookVisit.leads, HookVisit.stops, failing, ChainState.decide]
      | ok decision =>
          rw [HookVisit.stops, ← HookDecision.isDeny_degrade decision event]
          simp only [HookVisit.leads]
          cases decision.degradeModifyForPostEvent event <;> rfl

/-- The last visit that fires decides whether the user is asked. -/
theorem asksLast_append (visit : HookVisit) : HookVisit.asksLast (visits ++ [visit]) =
    if visit.fire?.isSome then visit.asks else HookVisit.asksLast visits := by
  rw [HookVisit.asksLast, List.foldl_append]
  rfl

/-- An answer that allows the operation clears the queue. -/
theorem tracks_allow (tracked : Tracks event payload visits state) {fire : HookFire}
    (silent : (isPreEvent event && (HookVisit.fired fire).modifies) = false)
    (mute : (HookVisit.fired fire).asks = false) :
    Tracks event payload (visits ++ [.fired fire])
      { state with fires := state.fires ++ [fire], askuserQueue := [] } where
  overlay := tracked.overlay
  modified := by
    rw [List.any_append, Bool.and_or_distrib_left, List.any_cons, List.any_nil, Bool.or_false, silent,
      Bool.or_false]
    exact tracked.modified
  queued := by
    rw [asksLast_append, mute]
    rfl
  fires := by
    rw [List.filterMap_append, ← tracked.fires]
    rfl

/-- A visit that does not stop the chain keeps its state on track. -/
theorem tracks_leads (object : payload.isObject = true) (tracked : Tracks event payload visits state)
    {visit : HookVisit} (goesOn : visit.leads event state = (next, none)) :
    Tracks event payload (visits ++ [visit]) next := by
  cases visit with
  | skipped cfg =>
      cases failing : cfg.failMode with
      | closed => simp [HookVisit.leads, failing] at goesOn
      | «open» =>
          simp only [HookVisit.leads, failing, Prod.mk.injEq, and_true] at goesOn
          subst goesOn
          apply tracks_recordTimeoutViolation
          constructor
          · exact tracked.overlay
          · simpa [HookVisit.modifies] using tracked.modified
          · simpa [asksLast_append, HookVisit.fire?] using tracked.queued
          · rw [List.filterMap_append, ← tracked.fires]
            exact (List.append_nil _).symm
  | fired fire =>
      obtain ⟨cfg, received, answer⟩ := fire
      cases answer with
      | error error =>
          cases failing : cfg.failMode with
          | closed => simp [HookVisit.leads, failing] at goesOn
          | «open» =>
              have allowed : Tracks event payload (visits ++ [.fired ⟨cfg, received, .error error⟩]) _ :=
                tracks_allow tracked (Bool.and_false _) rfl
              simp only [HookVisit.leads, failing, ChainState.decide, Prod.mk.injEq, and_true] at goesOn
              subst goesOn
              split
              · exact tracks_recordTimeoutViolation allowed
              · exact allowed
      | ok decision =>
          cases decision with
          | allow =>
              cases goesOn
              exact tracks_allow tracked (Bool.and_false _) rfl
          | deny reason code => cases goesOn
          | askUser prompt options default =>
              cases goesOn
              constructor
              · exact tracked.overlay
              · simpa [HookVisit.modifies] using tracked.modified
              · simp [asksLast_append, HookVisit.fire?, HookVisit.asks]
              · simp [HookVisit.fire?, tracked.fires]
          | modify delta =>
              cases early : isPreEvent event with
              | false =>
                  simp only [HookVisit.leads, HookDecision.degradeModifyForPostEvent, early] at goesOn
                  cases goesOn
                  exact tracks_allow tracked (by rw [early, Bool.false_and]) rfl
              | true =>
                  simp only [HookVisit.leads, HookDecision.degradeModifyForPostEvent, early] at goesOn
                  cases goesOn
                  constructor
                  · rw [← MemoryDelta.applyDelta_merge object, ← tracked.overlay]
                  · simp [HookVisit.modifies, early]
                  · simp [asksLast_append, HookVisit.fire?, HookVisit.asks]
                  · simp [HookVisit.fire?, tracked.fires]

/-- A visit adds its own firing. -/
theorem leads_fires (visit : HookVisit) :
    (visit.leads event state).1.fires = state.fires ++ [visit].filterMap HookVisit.fire? := by
  cases visit with
  | skipped cfg =>
      cases failing : cfg.failMode <;>
        simp [HookVisit.leads, HookVisit.fire?, failing, ChainState.recordTimeoutViolation]
  | fired fire =>
      obtain ⟨cfg, received, answer⟩ := fire
      cases answer with
      | error error =>
          cases failing : cfg.failMode <;> cases counted : error.isTimeout <;>
            simp [HookVisit.leads, HookVisit.fire?, failing, counted, ChainState.decide,
              ChainState.recordTimeoutViolation]
      | ok decision => exact decide_fires _

variable (surroundings event chainDeadline position cfg state) in
/-- A visit denies the operation and stops the chain, or hands its state to the next hook. -/
theorem visitHook_cases :
    let visit := visitOf surroundings event chainDeadline position cfg state
    (∃ next result, visitHook surroundings event chainDeadline position cfg state = (next, some result) ∧
      visit.stops = true ∧ result.isDeny = true ∧ next.fires = state.fires ++ [visit].filterMap HookVisit.fire?) ∨
    ∃ next, visitHook surroundings event chainDeadline position cfg state = (next, none) ∧
      visit.stops = false ∧ visit.leads event state = (next, none) ∧
      next.fires = state.fires ++ [visit].filterMap HookVisit.fire? := by
  intro visit
  have logged : (visit.leads event state).1.fires = state.fires ++ [visit].filterMap HookVisit.fire? :=
    leads_fires visit
  have passes : (visit.leads event state).2.isSome = visit.stops := leads_isSome visit
  have same := @visitHook_eq surroundings event chainDeadline position cfg state
  cases visited : visitHook surroundings event chainDeadline position cfg state with
  | mk next stopped =>
      rw [← same, visited] at logged passes
      cases stopped with
      | some result => exact Or.inl ⟨next, result, rfl, passes.symm, visitHook_stops visited, logged⟩
      | none => exact Or.inr ⟨next, rfl, passes.symm, same.symm.trans visited, logged⟩

/-- The chain logs the fires among its visits. -/
theorem fires_run {hooks : List HookConfig} :
    (fireFrom surroundings event chainDeadline position hooks state).2.fires = state.fires ++
      (visitsFrom surroundings event chainDeadline position hooks state).filterMap HookVisit.fire? := by
  induction hooks generalizing position state with
  | nil => exact (List.append_nil _).symm
  | cons cfg rest ih =>
      rw [fireFrom, visitsFrom, ← List.singleton_append, List.filterMap_append, ← List.append_assoc]
      obtain ⟨next, result, visited, -, -, logged⟩ | ⟨next, visited, -, -, logged⟩ :=
        visitHook_cases surroundings event chainDeadline position cfg state
      · simp only [visited, logged, List.filterMap_nil, List.append_nil]
      · simp only [visited, ih, logged]

/-- The chain visits its hooks in order and goes on from a visit that does not stop it. -/
theorem first_run {hooks : List HookConfig} :
    (visitsFrom surroundings event chainDeadline position hooks state).map HookVisit.hook <+: hooks ∧
      (visitsFrom surroundings event chainDeadline position hooks state).Pairwise
        fun earlier _ => earlier.stops = false := by
  induction hooks generalizing position state with
  | nil => exact ⟨List.nil_prefix, List.Pairwise.nil⟩
  | cons cfg rest ih =>
      rw [visitsFrom, List.map_cons, hook_visitOf]
      obtain ⟨next, result, visited, -⟩ | ⟨next, visited, passes, -⟩ :=
        visitHook_cases surroundings event chainDeadline position cfg state
      · rw [visited]
        exact ⟨⟨rest, rfl⟩, List.pairwise_singleton _ _⟩
      · rw [visited]
        obtain ⟨inOrder, later⟩ := @ih (position + 1) next
        exact ⟨List.prefix_cons_inj cfg |>.mpr inOrder, List.pairwise_cons.mpr ⟨fun _ _ => passes, later⟩⟩

theorem finish_isDeny (state : ChainState) : state.finish.isDeny = false := by
  unfold ChainState.finish
  split_ifs <;> rfl

/-- The chain denies exactly when a visit stops it. -/
theorem deny_run {hooks : List HookConfig} :
    (fireFrom surroundings event chainDeadline position hooks state).1.isDeny =
      (visitsFrom surroundings event chainDeadline position hooks state).any HookVisit.stops := by
  induction hooks generalizing position state with
  | nil => exact finish_isDeny state
  | cons cfg rest ih =>
      rw [fireFrom, visitsFrom, List.any_cons]
      obtain ⟨next, result, visited, stopped, denied, -⟩ | ⟨next, visited, passes, -⟩ :=
        visitHook_cases surroundings event chainDeadline position cfg state
      · simp only [visited, denied, stopped, Bool.true_or]
      · simp only [visited, ih, passes, Bool.false_or]

/-- A chain that no visit stops visits every hook and hands on a state on track. -/
theorem tracks_run (object : payload.isObject = true) {hooks : List HookConfig}
    (tracked : Tracks event payload visits state)
    (onward : (visitsFrom surroundings event chainDeadline position hooks state).any HookVisit.stops = false) :
    ∃ last, Tracks event payload
        (visits ++ visitsFrom surroundings event chainDeadline position hooks state) last ∧
      (visitsFrom surroundings event chainDeadline position hooks state).map HookVisit.hook = hooks ∧
      ∀ more, fireFrom surroundings event chainDeadline position (hooks ++ more) state =
        fireFrom surroundings event chainDeadline (position + hooks.length) more last := by
  induction hooks generalizing position state visits with
  | nil => exact ⟨state, by simpa [visitsFrom] using tracked, rfl, fun more => rfl⟩
  | cons cfg rest ih =>
      rw [visitsFrom, List.any_cons, Bool.or_eq_false_iff] at onward
      rw [visitsFrom]
      obtain ⟨next, result, visited, stopped, -⟩ | ⟨next, visited, passes, led, -⟩ :=
        visitHook_cases surroundings event chainDeadline position cfg state
      · rw [stopped] at onward
        cases onward.1
      · rw [visited] at onward ⊢
        obtain ⟨last, kept, whole, joins⟩ := ih (tracks_leads object tracked led) onward.2
        refine ⟨last, ?_, ?_, fun more => ?_⟩
        · rwa [List.append_assoc, List.singleton_append] at kept
        · simp only [List.map_cons, hook_visitOf, whole]
        · rw [List.cons_append, fireFrom, visited, List.length_cons, Nat.add_comm rest.length,
            ← Nat.add_assoc]
          exact joins more

end Steps

/-- The sorted hooks keep the order of the configuration among those of one priority. -/
structure LoadOrdered (configured sorted : List HookConfig) : Prop where
  same : sorted.Perm configured
  descending : sorted.Pairwise fun first second => second.priority ≤ first.priority
  ties : ∀ priority, sorted.filter (fun hook => hook.priority = priority) =
    configured.filter fun hook => hook.priority = priority

namespace HookChain

/-- The hooks of a chain are in load order. -/
theorem new_ordered (hooks : List HookConfig) : LoadOrdered hooks (HookChain.new hooks).hooks where
  same := sortOn_perm _ _
  descending := (HookChain.new hooks).ordered
  ties priority := by
    have stable := sortOn_filter_key (fun hook : HookConfig => -hook.priority) hooks (-priority)
    simp only [Int.neg_inj] at stable
    exact stable

/-- The enabled hooks of an event. -/
def forEvent (allHooks : List HookConfig) (event : HookEvent) : HookChain :=
  .new (allHooks.filter fun hook => hook.enabled ∧ hook.event = event)

theorem forEvent_ordered (allHooks : List HookConfig) (event : HookEvent) :
    LoadOrdered (allHooks.filter fun hook => hook.enabled ∧ hook.event = event) (forEvent allHooks event).hooks :=
  new_ordered _

/-- A hook below all others comes last. -/
def append (chain : HookChain) (extra : HookConfig)
    (last : ∀ hook ∈ chain.hooks, extra.priority ≤ hook.priority) : HookChain where
  hooks := chain.hooks ++ [extra]
  ordered := by
    apply List.pairwise_append.mpr ⟨chain.ordered, List.pairwise_singleton _ _, ?_⟩
    intro hook present other alone
    rw [List.mem_singleton.mp alone]
    exact last hook present

variable (chain : HookChain) (surroundings : Surroundings) (event : HookEvent) (payload : Json)

def visits : List HookVisit :=
  visitsFrom surroundings event (surroundings.entry + classDeadlineForEvent event) 0 chain.hooks (.start payload)

/-- The chain holds the payload at its end and would hand it to one more hook. -/
structure HandsOn (received : Json) : Prop where
  held : (chain.fire surroundings event payload).2.currentPayload = received
  handed : ∀ extra last budgetMs,
    perHookBudgetMs (surroundings.entry + classDeadlineForEvent event) (surroundings.clock chain.hooks.length)
        extra.timeoutMs = some budgetMs →
      ∃ answer, ((chain.append extra last).fire surroundings event payload).2.fires =
        (chain.fire surroundings event payload).2.fires ++ [⟨extra, received, answer⟩]

/-- The chain runs its hooks in order up to the first refusal and reports every change of the payload. -/
structure FireExact : Prop where
  inOrder : (chain.visits surroundings event payload).map HookVisit.hook <+: chain.hooks
  logged : (chain.fire surroundings event payload).2.fires =
    (chain.visits surroundings event payload).filterMap HookVisit.fire?
  first : (chain.visits surroundings event payload).Pairwise fun earlier _ => earlier.stops = false
  denied : (chain.fire surroundings event payload).1.isDeny =
    (chain.visits surroundings event payload).any HookVisit.stops
  whole : (chain.fire surroundings event payload).1.isDeny = false →
    (chain.visits surroundings event payload).map HookVisit.hook = chain.hooks
  kept : (chain.fire surroundings event payload).1.isDeny = false → isPreEvent event = true →
    (chain.visits surroundings event payload).any HookVisit.modifies = true →
      ∃ delta, (chain.fire surroundings event payload).1 = .modifiedAllow delta ∧
        chain.HandsOn surroundings event payload (MemoryDelta.applyDeltaToPayload payload delta)
  uninvented : ∀ delta, (chain.fire surroundings event payload).1 = .modifiedAllow delta →
    isPreEvent event = true ∧ (chain.visits surroundings event payload).any HookVisit.modifies = true

end HookChain

/-- No hook refused and one changed the payload, but the last hook that was fired asked the user. -/
structure PromptDropsModify (event : HookEvent) (visits : List HookVisit) : Prop where
  early : isPreEvent event = true
  passed : visits.any HookVisit.stops = false
  modified : visits.any HookVisit.modifies = true
  asked : HookVisit.asksLast visits = true

section Exact

variable {chain : HookChain} {surroundings : Surroundings} {event : HookEvent} {payload : Json}

/-- The end of the chain is decided by its last asking visit and its overlay. -/
theorem finish_tracked {state : ChainState} {visits : List HookVisit}
    (tracked : Tracks event payload visits state) :
    state.finish =
      if HookVisit.asksLast visits then .askUser state.askuserQueue
      else if isPreEvent event && visits.any HookVisit.modifies then .modifiedAllow state.accumulatedDelta
      else .allow := by
  rw [ChainState.finish, ← tracked.queued, ← tracked.modified]
  simp only [decide_eq_true_eq]

/-- A chain that does not deny ends with its state on track. -/
theorem fire_tracked (object : payload.isObject = true)
    (passed : (chain.fire surroundings event payload).1.isDeny = false) :
    ∃ last, Tracks event payload (chain.visits surroundings event payload) last ∧
      chain.fire surroundings event payload = (last.finish, last) ∧
      (chain.visits surroundings event payload).map HookVisit.hook = chain.hooks ∧
      ∀ more, fireFrom surroundings event (surroundings.entry + classDeadlineForEvent event) 0
          (chain.hooks ++ more) (.start payload) =
        fireFrom surroundings event (surroundings.entry + classDeadlineForEvent event) chain.hooks.length more
          last := by
  rw [HookChain.fire, deny_run] at passed
  obtain ⟨last, kept, whole, joins⟩ := tracks_run object (tracks_start object) passed
  refine ⟨last, kept, ?_, whole, fun more => by rw [joins more, Nat.zero_add]⟩
  have ended := joins []
  rwa [List.append_nil] at ended

/-- The payload at the end of the chain reaches a hook that is appended to it. -/
theorem handsOn_tracked (object : payload.isObject = true)
    (passed : (chain.fire surroundings event payload).1.isDeny = false) :
    chain.HandsOn surroundings event payload (chain.fire surroundings event payload).2.currentPayload := by
  obtain ⟨last, -, ended, -, joins⟩ := fire_tracked object passed
  refine ⟨rfl, fun extra final budgetMs budget => ?_⟩
  refine ⟨(surroundings.fire chain.hooks.length extra event last.currentPayload).getD
    (.error (.timeout budgetMs)), ?_⟩
  have extended : (chain.append extra final).fire surroundings event payload = _ := joins [extra]
  rw [extended, ended, fires_run, visitsFrom_singleton, visitOf, budget]
  rfl

/-- The chain keeps every change unless a prompt drops it. -/
theorem fireExact_iff (object : payload.isObject = true) :
    chain.FireExact surroundings event payload ↔
      ¬ PromptDropsModify event (chain.visits surroundings event payload) := by
  have denied : (chain.fire surroundings event payload).1.isDeny =
      (chain.visits surroundings event payload).any HookVisit.stops := deny_run
  constructor
  · intro exact ⟨early, passed, modified, asked⟩
    rw [← denied] at passed
    obtain ⟨delta, reported, -⟩ := exact.kept passed early modified
    obtain ⟨last, tracked, ended, -⟩ := fire_tracked object passed
    rw [ended, finish_tracked tracked, asked] at reported
    cases reported
  · intro clear
    constructor
    · exact first_run.1
    · exact fires_run.trans (List.nil_append _)
    · exact first_run.2
    · exact denied
    · intro passed
      obtain ⟨last, -, -, whole, -⟩ := fire_tracked object passed
      exact whole
    · intro passed early modified
      obtain ⟨last, tracked, ended, -⟩ := fire_tracked object passed
      have settled : HookVisit.asksLast (chain.visits surroundings event payload) = false := by
        rw [Bool.eq_false_iff]
        exact fun asked => clear ⟨early, denied.symm.trans passed, modified, asked⟩
      have reported : last.finish = .modifiedAllow last.accumulatedDelta := by
        rw [finish_tracked tracked, settled, early, modified]
        rfl
      have handed := handsOn_tracked object passed
      rw [ended] at handed ⊢
      exact ⟨last.accumulatedDelta, reported, tracked.overlay ▸ handed⟩
    · intro delta reported
      have passed : (chain.fire surroundings event payload).1.isDeny = false := by rw [reported]; rfl
      obtain ⟨last, tracked, ended, -⟩ := fire_tracked object passed
      rw [ended, finish_tracked tracked] at reported
      split_ifs at reported with asked changed
      exact (Bool.and_eq_true_iff).mp changed

end Exact

/-- A configuration gives a chain in its order that keeps every change unless a prompt drops it. -/
theorem modifications_exact_iff (hooks : List HookConfig) (surroundings : Surroundings) (event : HookEvent)
    (payload : Json) (object : payload.isObject = true) :
    (LoadOrdered hooks (HookChain.new hooks).hooks ∧
        (HookChain.new hooks).FireExact surroundings event payload) ↔
      ¬ PromptDropsModify event ((HookChain.new hooks).visits surroundings event payload) := by
  rw [← fireExact_iff object]
  exact and_iff_right (HookChain.new_ordered hooks)

section Samples

def redactHook : HookConfig := { gateHook with command := "/bin/redact", priority := 9 }

/-- The redacting hook changes the title and the gate asks the user. -/
def askingSurroundings : Surroundings where
  entry := 0
  clock := fun position => position
  fire := fun _ cfg _ _ =>
    some (.ok (if cfg.priority = 9 then .modify { MemoryDelta.empty with title := some "redacted" }
      else .askUser "store?" ["yes", "no"] none))

/-- The gate asks before the redacting hook changes the title. -/
theorem askThenRedact_exact :
    LoadOrdered [redactHook, { gateHook with priority := 10 }]
        (HookChain.new [redactHook, { gateHook with priority := 10 }]).hooks ∧
      (HookChain.new [redactHook, { gateHook with priority := 10 }]).FireExact askingSurroundings .preStore .empty :=
  (modifications_exact_iff _ askingSurroundings .preStore .empty rfl).mpr fun dropped =>
    absurd dropped.asked (by decide +kernel)

/-- The gate asks after the redacting hook changed the title, and the change is lost. -/
theorem redactThenAsk_drops :
    ¬ (LoadOrdered [gateHook, redactHook] (HookChain.new [gateHook, redactHook]).hooks ∧
      (HookChain.new [gateHook, redactHook]).FireExact askingSurroundings .preStore .empty) := by
  rintro ⟨-, exact⟩
  obtain ⟨delta, reported, -⟩ := exact.kept (by decide +kernel) rfl (by decide +kernel)
  cases reported

end Samples

end AiMemory.Hooks
