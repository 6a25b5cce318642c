import AiMemory.Library.Interleaving
import AiMemory.Rules.Engine

/-
This file embeds the cache of the loaded rules and its callers, one lock or one query at a time.
-/

namespace AiMemory.Rules
open AiMemory.Library AiMemory.Machine

section Model

/-- The cache beside the table that other processes write. No call reads the tables that were stored so far, how often
an entry was dropped or what was cached between two drops. -/
structure CachedStore where
  table : StoredRules
  byKind : String → Option (List Rule)
  stored : List StoredRules
  drops : String → Nat
  published : String → Nat → Option (List Rule)

inductive CacheRequest where
  | getOrLoad (kind : String)
  | invalidate (kind : String)
  | invalidateAll
  | write (table : StoredRules)

/-- A lookup that missed goes on to the load, and the load goes on to the insertion or fails the call. An answer
remembers how many drops its kind had seen. -/
inductive CacheCall where
  | missed (kind : String)
  | loaded (kind : String) (rules : List Rule)
  | returned (kind : String) (rules : List Rule) (drops : Nat)
  | failed (kind : String) (error : RuleLoadError)
  | finished
  deriving DecidableEq

namespace CachedStore

variable (store : CachedStore)

def drop (kind : String) : CachedStore :=
  { store with
    byKind := fun other => if other = kind then none else store.byKind other
    drops := fun other => if other = kind then store.drops other + 1 else store.drops other }

def dropAll : CachedStore :=
  { store with byKind := fun _ => none, drops := fun other => store.drops other + 1 }

def replaceTable (table : StoredRules) : CachedStore := { store with table := table, stored := table :: store.stored }

def insert (kind : String) (rules : List Rule) : CachedStore :=
  { store with
    byKind := fun other => if other = kind then some rules else store.byKind other
    published := fun other drops =>
      if other = kind ∧ drops = store.drops kind then some rules else store.published other drops }

end CachedStore

variable (operatorPubkey : Option VerifyingKey)

/-- The read lock covers the lookup, and the write lock covers each drop. -/
def enterCache : CacheRequest → CachedStore → CachedStore × CacheCall
  | .getOrLoad kind, store =>
      match store.byKind kind with
      | some rules => (store, .returned kind rules (store.drops kind))
      | none => (store, .missed kind)
  | .invalidate kind, store => (store.drop kind, .finished)
  | .invalidateAll, store => (store.dropAll, .finished)
  | .write table, store => (store.replaceTable table, .finished)

/-- The load runs without a lock, and the insertion yields to an entry that came first. -/
def cacheStatement : CacheCall → CachedStore → CachedStore × CacheCall
  | .missed kind, store =>
      match listEnabledByKind operatorPubkey store.table.rows kind with
      | .ok rules => (store, .loaded kind rules)
      | .error error => (store, .failed kind error)
  | .loaded kind rules, store =>
      match store.byKind kind with
      | some existing => (store, .returned kind existing (store.drops kind))
      | none => (store.insert kind rules, .returned kind rules (store.drops kind))
  | call, store => (store, call)

def cacheTurn (session : Session CachedStore CacheCall) (turn : Turn CacheRequest) : Session CachedStore CacheCall :=
  session.next enterCache (cacheStatement operatorPubkey) turn

/-- The cache of a new process. -/
def RuleCache.new (table : StoredRules) : Session CachedStore CacheCall :=
  ⟨⟨table, fun _ => none, [table], fun _ => 0, fun _ _ => none⟩, []⟩

end Model

section Snapshots

variable {operatorPubkey : Option VerifyingKey}

/-- The rules were enabled in one of the tables. -/
def Snapshot (operatorPubkey : Option VerifyingKey) (tables : List StoredRules) (kind : String) (rules : List Rule) :
    Prop :=
  ∃ table ∈ tables, listEnabledByKind operatorPubkey table.rows kind = .ok rules

/-- Every entry was loaded from a stored table, and it is what was published since the last drop of its kind. -/
structure CachedStore.Sound (operatorPubkey : Option VerifyingKey) (store : CachedStore) : Prop where
  current : store.table ∈ store.stored
  snapshot : ∀ kind rules, store.byKind kind = some rules → Snapshot operatorPubkey store.stored kind rules
  entry : ∀ kind, store.byKind kind = store.published kind (store.drops kind)
  later : ∀ kind drops, store.drops kind < drops → store.published kind drops = none

def CacheCall.Sound (operatorPubkey : Option VerifyingKey) (store : CachedStore) : CacheCall → Prop
  | .missed _ | .failed _ _ | .finished => True
  | .loaded kind rules => Snapshot operatorPubkey store.stored kind rules
  | .returned kind rules drops => Snapshot operatorPubkey store.stored kind rules ∧
      drops ≤ store.drops kind ∧ store.published kind drops = some rules

/-- What no statement takes back. -/
structure CachedStore.Grows (before after : CachedStore) : Prop where
  stored : ∀ table ∈ before.stored, table ∈ after.stored
  drops : ∀ kind, before.drops kind ≤ after.drops kind
  published : ∀ kind drops rules, before.published kind drops = some rules → after.published kind drops = some rules

theorem CachedStore.Grows.refl (store : CachedStore) : store.Grows store :=
  ⟨fun _ => id, fun _ => Nat.le_refl _, fun _ _ _ => id⟩

/-- A snapshot of a store is one of every later store. -/
theorem Snapshot.grows {before after : CachedStore} (grows : before.Grows after) {kind : String} {rules : List Rule}
    (snapshot : Snapshot operatorPubkey before.stored kind rules) :
      Snapshot operatorPubkey after.stored kind rules := by
  obtain ⟨table, held, loaded⟩ := snapshot
  exact ⟨table, grows.stored table held, loaded⟩

/-- A call that is sound stays sound while the store grows. -/
theorem CacheCall.Sound.grows {before after : CachedStore} (grows : before.Grows after) {call : CacheCall}
    (sound : call.Sound operatorPubkey before) : call.Sound operatorPubkey after := by
  cases call with
  | missed kind => trivial
  | failed kind error => trivial
  | finished => trivial
  | loaded kind rules => exact Snapshot.grows grows sound
  | returned kind rules drops =>
      obtain ⟨snapshot, within, published⟩ := sound
      exact ⟨snapshot.grows grows, within.trans (grows.drops kind), grows.published _ _ _ published⟩

/-- What one statement does to the store. -/
inductive CachedStore.Moves (operatorPubkey : Option VerifyingKey) (store : CachedStore) : CachedStore → Prop
  | waits : Moves operatorPubkey store store
  | drops (kind : String) : Moves operatorPubkey store (store.drop kind)
  | dropsAll : Moves operatorPubkey store store.dropAll
  | writes (table : StoredRules) : Moves operatorPubkey store (store.replaceTable table)
  | inserts (kind : String) (rules : List Rule) (empty : store.byKind kind = none)
      (snapshot : Snapshot operatorPubkey store.stored kind rules) :
        Moves operatorPubkey store (store.insert kind rules)

variable {before after : CachedStore}

/-- A drop takes its kind out of the cache, and what was published before it stays. -/
theorem CachedStore.Sound.drop (sound : before.Sound operatorPubkey) (kind : String) :
    (before.drop kind).Sound operatorPubkey where
  current := sound.current
  snapshot other rules held := by
    by_cases same : other = kind
    · simp [CachedStore.drop, same] at held
    · exact sound.snapshot other rules (by simpa [CachedStore.drop, same] using held)
  entry other := by
    by_cases same : other = kind
    · simp only [CachedStore.drop, same, if_true]
      exact (sound.later kind _ (Nat.lt_succ_self _)).symm
    · simpa [CachedStore.drop, same] using sound.entry other
  later other drops beyond := by
    by_cases same : other = kind
    · exact sound.later other drops (by simp only [CachedStore.drop, same, if_true] at beyond ⊢; omega)
    · exact sound.later other drops (by simpa [CachedStore.drop, same] using beyond)

/-- A drop lets the store grow. -/
theorem CachedStore.grows_drop (kind : String) : before.Grows (before.drop kind) := by
  refine ⟨fun _ => id, fun other => ?_, fun _ _ _ => id⟩
  by_cases same : other = kind <;> simp [CachedStore.drop, same]

/-- A drop of everything empties the cache. -/
theorem CachedStore.Sound.dropAll (sound : before.Sound operatorPubkey) : before.dropAll.Sound operatorPubkey :=
  ⟨sound.current, nofun, fun other => (sound.later other _ (Nat.lt_succ_self _)).symm,
    fun other drops beyond => sound.later other drops (Nat.lt_of_succ_lt beyond)⟩

/-- An insertion publishes a snapshot of its kind where nothing is cached. -/
theorem CachedStore.Sound.insert (sound : before.Sound operatorPubkey) {kind : String} {rules : List Rule}
    (loaded : Snapshot operatorPubkey before.stored kind rules) : (before.insert kind rules).Sound operatorPubkey where
  current := sound.current
  snapshot other held stored := by
    by_cases same : other = kind
    · subst same
      obtain rfl : rules = held := by simpa [CachedStore.insert] using stored
      exact loaded
    · exact sound.snapshot other held (by simpa [CachedStore.insert, same] using stored)
  entry other := by
    by_cases same : other = kind
    · simp [CachedStore.insert, same]
    · simpa [CachedStore.insert, same] using sound.entry other
  later other drops beyond := by
    have apart : ¬ (other = kind ∧ drops = before.drops kind) := by
      rintro ⟨rfl, rfl⟩
      exact Nat.lt_irrefl _ beyond
    simpa [CachedStore.insert, apart] using sound.later other drops beyond

/-- An insertion replaces nothing that was published. -/
theorem CachedStore.Sound.grows_insert (sound : before.Sound operatorPubkey) {kind : String} (rules : List Rule)
    (empty : before.byKind kind = none) : before.Grows (before.insert kind rules) := by
  refine ⟨fun _ => id, fun _ => Nat.le_refl _, fun other drops held published => ?_⟩
  have apart : ¬ (other = kind ∧ drops = before.drops kind) := by
    rintro ⟨rfl, rfl⟩
    rw [← sound.entry, empty] at published
    cases published
  simpa [CachedStore.insert, apart] using published

/-- A move keeps the store sound and lets it grow. -/
theorem CachedStore.Sound.moves (sound : before.Sound operatorPubkey) (moves : before.Moves operatorPubkey after) :
    after.Sound operatorPubkey ∧ before.Grows after := by
  cases moves with
  | waits => exact ⟨sound, .refl before⟩
  | drops kind => exact ⟨sound.drop kind, before.grows_drop kind⟩
  | dropsAll => exact ⟨sound.dropAll, fun _ => id, fun _ => Nat.le_succ _, fun _ _ _ => id⟩
  | writes table =>
      have grows : before.Grows (before.replaceTable table) :=
        ⟨fun _ => List.mem_cons_of_mem table, fun _ => Nat.le_refl _, fun _ _ _ => id⟩
      refine ⟨⟨List.mem_cons_self, fun other rules held => ?_, sound.entry, sound.later⟩, grows⟩
      exact (sound.snapshot other rules held).grows grows
  | inserts kind rules empty loaded => exact ⟨sound.insert loaded, sound.grows_insert rules empty⟩

/-- A cached entry answers the call that finds it. -/
theorem CachedStore.Sound.answer {store : CachedStore} (sound : store.Sound operatorPubkey) {kind : String}
    {rules : List Rule} (held : store.byKind kind = some rules) :
    (CacheCall.returned kind rules (store.drops kind)).Sound operatorPubkey store :=
  ⟨sound.snapshot kind rules held, Nat.le_refl _, (sound.entry kind).symm.trans held⟩

/-- Every entry of a request is a move of the store. -/
theorem moves_enterCache (request : CacheRequest) (store : CachedStore) :
    store.Moves operatorPubkey (enterCache request store).1 := by
  cases request with
  | getOrLoad kind =>
      simp only [enterCache]
      split <;> exact .waits
  | invalidate kind => exact .drops kind
  | invalidateAll => exact .dropsAll
  | write table => exact .writes table

/-- Every statement of a sound call is a move of the store. -/
theorem moves_cacheStatement {call : CacheCall} {store : CachedStore} (sound : call.Sound operatorPubkey store) :
    store.Moves operatorPubkey (cacheStatement operatorPubkey call store).1 := by
  cases call with
  | missed kind =>
      simp only [cacheStatement]
      split <;> exact .waits
  | loaded kind rules =>
      simp only [cacheStatement]
      split
      · exact .waits
      · rename_i empty
        exact .inserts kind rules empty sound
  | returned kind rules drops => exact .waits
  | failed kind error => exact .waits
  | finished => exact .waits

/-- A request enters soundly. -/
theorem sound_enterCache {store : CachedStore} (sound : store.Sound operatorPubkey) (request : CacheRequest) :
    (enterCache request store).2.Sound operatorPubkey (enterCache request store).1 := by
  cases request with
  | getOrLoad kind =>
      simp only [enterCache]
      split
      · rename_i rules held
        exact sound.answer held
      · trivial
  | invalidate kind => trivial
  | invalidateAll => trivial
  | write table => trivial

/-- A statement keeps its call sound. -/
theorem sound_cacheStatement {call : CacheCall} {store : CachedStore} (sound : store.Sound operatorPubkey)
    (started : call.Sound operatorPubkey store) :
    (cacheStatement operatorPubkey call store).2.Sound operatorPubkey (cacheStatement operatorPubkey call store).1 := by
  cases call with
  | missed kind =>
      simp only [cacheStatement]
      split
      · rename_i rules loads
        exact ⟨_, sound.current, loads⟩
      · trivial
  | loaded kind rules =>
      simp only [cacheStatement]
      split
      · rename_i existing held
        exact sound.answer held
      · exact ⟨started, Nat.le_refl _, by simp [CachedStore.insert]⟩
  | returned kind rules drops => exact started
  | failed kind error => trivial
  | finished => trivial

/-- Every turn keeps the session outlined. -/
theorem outlined_cacheTurn {session : Session CachedStore CacheCall}
    (outlined : session.Outlined (CachedStore.Sound operatorPubkey) fun store call => call.Sound operatorPubkey store)
    (turn : Turn CacheRequest) : (cacheTurn operatorPubkey session turn).Outlined (CachedStore.Sound operatorPubkey)
      fun store call => call.Sound operatorPubkey store := by
  refine Session.outlined_next outlined (fun request _ => ?_) (fun call _ started => ?_)
  · obtain ⟨kept, grows⟩ := outlined.store.moves (moves_enterCache request session.shared)
    exact ⟨kept, sound_enterCache outlined.store request, fun other sound => sound.grows grows⟩
  · obtain ⟨kept, grows⟩ := outlined.store.moves (moves_cacheStatement started)
    exact ⟨kept, sound_cacheStatement outlined.store started, fun other sound => sound.grows grows⟩

/-- Every run of the cache is outlined. -/
theorem outlined_cacheRun (table : StoredRules) (turns : List (Turn CacheRequest)) :
    (run (cacheTurn operatorPubkey) (RuleCache.new table) turns).Outlined (CachedStore.Sound operatorPubkey)
      fun store call => call.Sound operatorPubkey store := by
  have kept : ∀ session (turn : Turn CacheRequest),
      session.Outlined (CachedStore.Sound operatorPubkey) (fun store call => call.Sound operatorPubkey store) →
      (cacheTurn operatorPubkey session turn).Outlined (CachedStore.Sound operatorPubkey)
        (fun store call => call.Sound operatorPubkey store) :=
    fun session turn outlined => outlined_cacheTurn outlined turn
  exact run_invariant_always kept turns
    ⟨⟨List.mem_singleton_self table, nofun, fun _ => rfl, fun _ _ _ => rfl⟩, fun _ => nofun⟩

/-- In every interleaving of callers, drops and writes, each answer is the enabled rules of a table that the store held,
and the answers for a kind between two of its drops are the same. -/
theorem getOrLoad_agree (table : StoredRules) (turns : List (Turn CacheRequest)) {kind : String}
    {rules : List Rule} {drops : Nat}
    (answered : .returned kind rules drops ∈ (run (cacheTurn operatorPubkey) (RuleCache.new table) turns).calls) :
    (∃ held ∈ (run (cacheTurn operatorPubkey) (RuleCache.new table) turns).shared.stored,
      listEnabledByKind operatorPubkey held.rows kind = .ok rules) ∧
    ∀ others, .returned kind others drops ∈ (run (cacheTurn operatorPubkey) (RuleCache.new table) turns).calls →
      others = rules := by
  have outlined := @outlined_cacheRun operatorPubkey table turns
  obtain ⟨snapshot, _, published⟩ := outlined.calls _ answered
  refine ⟨snapshot, fun others also => ?_⟩
  obtain ⟨_, _, again⟩ := outlined.calls _ also
  exact Option.some.inj (again.symm.trans published)

def wipeRule : Rule :=
  ⟨"R100", "bash", "\x7b\"command_substring\":\"rm -rf /\"\x7d", "refuse", "no wiping", "_global", "operator", 0,
    true, none, "unsigned"⟩

def pipeRule : Rule :=
  ⟨"R200", "bash", "\x7b\"command_substring\":\"| sh\"\x7d", "warn", "no piping", "_global", "operator", 5, true,
    none, "unsigned"⟩

def oldRules : StoredRules := ⟨[wipeRule.stored 1], by decide⟩

def newRules : StoredRules := ⟨[pipeRule.stored 1, wipeRule.stored 1], by decide⟩

/-- A caller loads the old rules, inserts them after the write of the new ones and shares them; after the drop a caller
loads the new rules, and another one finds them. -/
def sharedLoads : List (Turn CacheRequest) :=
  [.start (.getOrLoad "bash"), .resume 0, .start (.write newRules), .resume 0, .start (.getOrLoad "bash"),
    .start .invalidateAll, .start (.getOrLoad "bash"), .resume 4, .resume 4, .start (.getOrLoad "bash")]

def sharedSession : Session CachedStore CacheCall := run (cacheTurn none) (RuleCache.new oldRules) sharedLoads

/-- The answers of the second generation agree on the new rules. -/
theorem getOrLoad_agree_shared :
    (∃ held ∈ sharedSession.shared.stored, listEnabledByKind none held.rows "bash" = .ok [wipeRule, pipeRule]) ∧
    ∀ others, .returned "bash" others 1 ∈ sharedSession.calls → others = [wipeRule, pipeRule] :=
  getOrLoad_agree oldRules sharedLoads
    (show .returned "bash" [wipeRule, pipeRule] 1 ∈ sharedSession.calls by decide +kernel)

end Snapshots

section Freshness

variable {operatorPubkey : Option VerifyingKey} {kind : String} {fresh : StoredRules}

/-- The cache holds the rules of the table or nothing for the kind. -/
structure CachedStore.Fresh (operatorPubkey : Option VerifyingKey) (kind : String) (fresh : StoredRules)
    (store : CachedStore) : Prop where
  table : store.table = fresh
  entry : ∀ rules, store.byKind kind = some rules → listEnabledByKind operatorPubkey fresh.rows kind = .ok rules

/-- A call of the kind carries the rules of the table, or it has answered before the drop. -/
def CacheCall.Fresh (operatorPubkey : Option VerifyingKey) (kind : String) (fresh : StoredRules) (since : Nat) :
    CacheCall → Prop
  | .loaded other rules => other = kind → listEnabledByKind operatorPubkey fresh.rows kind = .ok rules
  | .returned other rules drops =>
      other = kind → since ≤ drops → listEnabledByKind operatorPubkey fresh.rows kind = .ok rules
  | _ => True

/-- No other process writes the rules. -/
def Unwritten (turn : Turn CacheRequest) : Prop := ∀ table, turn ≠ .start (.write table)

/-- A request that is no write keeps what is fresh. -/
theorem fresh_enterCache {store : CachedStore} {request : CacheRequest} {since : Nat}
    (unwritten : ∀ table, request ≠ .write table) (held : store.Fresh operatorPubkey kind fresh) :
    (enterCache request store).1.Fresh operatorPubkey kind fresh ∧
      (enterCache request store).2.Fresh operatorPubkey kind fresh since := by
  obtain ⟨table, entry⟩ := held
  cases request with
  | getOrLoad other =>
      simp only [enterCache]
      split
      · rename_i rules found
        refine ⟨⟨table, entry⟩, ?_⟩
        rintro rfl _
        exact entry rules found
      · exact ⟨⟨table, entry⟩, trivial⟩
  | invalidate other =>
      refine ⟨⟨table, fun rules found => ?_⟩, trivial⟩
      by_cases same : kind = other
      · simp [enterCache, CachedStore.drop, same] at found
      · exact entry rules (by simpa [enterCache, CachedStore.drop, same] using found)
  | invalidateAll => exact ⟨⟨table, nofun⟩, trivial⟩
  | write table => exact absurd rfl (unwritten table)

/-- A statement keeps what is fresh. -/
theorem fresh_cacheStatement {store : CachedStore} {call : CacheCall} {since : Nat}
    (held : store.Fresh operatorPubkey kind fresh) (carried : call.Fresh operatorPubkey kind fresh since) :
    (cacheStatement operatorPubkey call store).1.Fresh operatorPubkey kind fresh ∧
      (cacheStatement operatorPubkey call store).2.Fresh operatorPubkey kind fresh since := by
  obtain ⟨table, entry⟩ := held
  cases call with
  | missed other =>
      simp only [cacheStatement]
      split
      · rename_i rules loads
        refine ⟨⟨table, entry⟩, ?_⟩
        rintro rfl
        rwa [table] at loads
      · exact ⟨⟨table, entry⟩, trivial⟩
  | loaded other rules =>
      simp only [cacheStatement]
      split
      · rename_i existing found
        refine ⟨⟨table, entry⟩, ?_⟩
        rintro rfl _
        exact entry existing found
      · refine ⟨⟨table, fun held found => ?_⟩, fun same _ => carried same⟩
        by_cases same : kind = other
        · subst same
          obtain rfl : rules = held := by simpa [CachedStore.insert] using found
          exact carried rfl
        · exact entry held (by simpa [CachedStore.insert, same] using found)
  | returned other rules drops => exact ⟨⟨table, entry⟩, carried⟩
  | failed other error => exact ⟨⟨table, entry⟩, trivial⟩
  | finished => exact ⟨⟨table, entry⟩, trivial⟩

/-- A turn without a write keeps what is fresh. -/
theorem fresh_cacheTurn {session : Session CachedStore CacheCall} {since : Nat} {turn : Turn CacheRequest}
    (unwritten : Unwritten turn) (outlined : session.Outlined (CachedStore.Fresh operatorPubkey kind fresh)
      fun _ call => call.Fresh operatorPubkey kind fresh since) :
    (cacheTurn operatorPubkey session turn).Outlined (CachedStore.Fresh operatorPubkey kind fresh)
      fun _ call => call.Fresh operatorPubkey kind fresh since := by
  refine Session.outlined_next outlined (fun request started => ?_) (fun call _ carried => ?_)
  · have other : ∀ table, request ≠ .write table := by
      rintro table rfl
      exact unwritten table started
    obtain ⟨store, own⟩ := @fresh_enterCache operatorPubkey kind fresh session.shared request since other outlined.store
    exact ⟨store, own, fun _ => id⟩
  · obtain ⟨store, own⟩ := fresh_cacheStatement outlined.store carried
    exact ⟨store, own, fun _ => id⟩

/-- A call that has loaded rules answers them where nothing is cached. -/
theorem returned_of_loaded {session : Session CachedStore CacheCall} (dropped : session.shared.byKind kind = none)
    {rules : List Rule} (waiting : .loaded kind rules ∈ session.calls) :
    ∃ index, .returned kind rules (session.shared.drops kind) ∈
      (cacheTurn operatorPubkey session (.resume index)).calls := by
  obtain ⟨index, within, found⟩ := List.mem_iff_getElem.mp waiting
  have resumes : session.calls[index]? = some (.loaded kind rules) := by
    rw [List.getElem?_eq_getElem within, found]
  have after : (cacheTurn operatorPubkey session (.resume index)).calls =
      session.calls.set index (.returned kind rules (session.shared.drops kind)) := by
    simp only [cacheTurn, Session.next, resumes, cacheStatement, dropped]
  refine ⟨index, ?_⟩
  rw [after]
  exact List.mem_set within _

/-- Where nothing is cached and no call has loaded other rules, everything is fresh. -/
theorem outlined_fresh_dropped {session : Session CachedStore CacheCall}
    (sound : session.Outlined (CachedStore.Sound operatorPubkey) fun store call => call.Sound operatorPubkey store)
    (dropped : session.shared.byKind kind = none)
    (loads : ∀ rules, .loaded kind rules ∈ session.calls →
      listEnabledByKind operatorPubkey session.shared.table.rows kind = .ok rules) :
    session.Outlined (CachedStore.Fresh operatorPubkey kind session.shared.table)
      fun _ call => call.Fresh operatorPubkey kind session.shared.table (session.shared.drops kind) := by
  refine ⟨⟨rfl, fun rules held => ?_⟩, fun call present => ?_⟩
  · rw [dropped] at held
    cases held
  · cases call with
    | missed other => trivial
    | failed other error => trivial
    | finished => trivial
    | loaded other rules =>
        rintro rfl
        exact loads rules present
    | returned other rules drops =>
        rintro rfl late
        -- An answer since the drop would still be cached.
        obtain ⟨_, within, published⟩ := sound.calls _ present
        rw [Nat.le_antisymm within late, ← sound.store.entry, dropped] at published
        cases published

/-- After a drop and without writes every later answer is the enabled rules of the table exactly when no call was then
between the load of other rules and their insertion. -/
theorem answers_fresh_iff (table : StoredRules) (history : List (Turn CacheRequest))
    {session : Session CachedStore CacheCall}
    (reached : run (cacheTurn operatorPubkey) (RuleCache.new table) history = session)
    (dropped : session.shared.byKind kind = none) :
    (∀ turns, (∀ turn ∈ turns, Unwritten turn) → ∀ rules drops, session.shared.drops kind ≤ drops →
      .returned kind rules drops ∈ (run (cacheTurn operatorPubkey) session turns).calls →
        listEnabledByKind operatorPubkey session.shared.table.rows kind = .ok rules) ↔
    ∀ rules, .loaded kind rules ∈ session.calls →
      listEnabledByKind operatorPubkey session.shared.table.rows kind = .ok rules := by
  constructor
  · intro fresh rules waiting
    obtain ⟨index, answered⟩ := @returned_of_loaded operatorPubkey kind session dropped rules waiting
    refine fresh [.resume index] (by simp [Unwritten]) rules _ (Nat.le_refl _) ?_
    rw [run_cons, run_nil]
    exact answered
  · intro loads turns unwritten rules drops since answered
    have sound : session.Outlined (CachedStore.Sound operatorPubkey)
        fun store call => call.Sound operatorPubkey store := by
      rw [← reached]
      exact outlined_cacheRun table history
    have kept : ∀ reached (turn : Turn CacheRequest), Unwritten turn →
        reached.Outlined (CachedStore.Fresh operatorPubkey kind session.shared.table)
          (fun _ call => call.Fresh operatorPubkey kind session.shared.table (session.shared.drops kind)) →
        (cacheTurn operatorPubkey reached turn).Outlined (CachedStore.Fresh operatorPubkey kind session.shared.table)
          (fun _ call => call.Fresh operatorPubkey kind session.shared.table (session.shared.drops kind)) :=
      fun _ _ => fresh_cacheTurn
    have outlined := run_invariant kept (EveryStep.of_labels unwritten session)
      (outlined_fresh_dropped sound dropped loads)
    exact outlined.calls _ answered rfl since

/-- The old rules were answered before the write and its drop, and a caller has just loaded the new ones. -/
def droppedSession : Session CachedStore CacheCall :=
  run (cacheTurn none) (RuleCache.new oldRules)
    [.start (.getOrLoad "bash"), .resume 0, .resume 0, .start (.write newRules), .start .invalidateAll,
      .start (.getOrLoad "bash"), .resume 3]

theorem answers_fresh_iff_loading :
    (∀ turns, (∀ turn ∈ turns, Unwritten turn) → ∀ rules drops, droppedSession.shared.drops "bash" ≤ drops →
      .returned "bash" rules drops ∈ (run (cacheTurn none) droppedSession turns).calls →
        listEnabledByKind none droppedSession.shared.table.rows "bash" = .ok rules) ↔
    ∀ rules, .loaded "bash" rules ∈ droppedSession.calls →
      listEnabledByKind none droppedSession.shared.table.rows "bash" = .ok rules :=
  answers_fresh_iff oldRules _ rfl (by decide +kernel)

end Freshness
end AiMemory.Rules
