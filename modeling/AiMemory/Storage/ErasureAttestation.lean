import AiMemory.Storage.WrittenRecords

/-
This file decides when an attested erasure leaves nothing that can be opened.
-/

namespace AiMemory.Storage
open AiMemory.Crdt AiMemory.Encryption AiMemory.Library AiMemory.Machine

section Conditions

variable (env : SealingEnvironment) (db : ErasureDatabase)

/-- An encrypted row is evicted only where the archive keeps no encrypted copy of it. -/
def EvictsCleanly (id : String) : Prop :=
  ∀ row ∈ liveColumns db id, hasKey row = true → ∀ copy ∈ archivedColumns db id, hasKey copy = false

/-- A forget archives no encrypted row, and one that does not archive leaves no encrypted copy. -/
def ForgetsCleanly (archive : Bool) (id : String) : Prop :=
  if archive then ∀ row ∈ liveColumns db id, hasKey row = false else ∀ copy ∈ archivedColumns db id, hasKey copy = false

/-- The rows that a forget selects; none without a filter, and none where the query, the agent of a row or the parent
of an atom makes it fail. -/
def forgetVictims («namespace» pattern : Option String) (tier : Option Tier) (caller : Option String) :
    List Memory :=
  let doomed := forgetReaches env «namespace» pattern tier caller
  let victims := db.memories.rows.filter doomed
  if (pattern = none ∧ «namespace» = none ∧ tier = none) ∨ (forgetFailure pattern victims).isSome ∨
      orphansAtom db.toDatabase doomed = true then []
  else victims

/-- Every erasure of the call is clean. -/
def ErasureCall.Clean : ErasureCall env → Prop
  | .gc archives now => archives = false →
      ∀ row ∈ gcSwept archives (env.chrono.toRfc3339 now) (db.memories.rows.length + 1) db.toDatabase,
        EvictsCleanly db row.id
  | .sizeGc «namespace» maxCorpusBytes archives now => archives = false → 0 < maxCorpusBytes →
      ∀ row ∈ sizeGcVictims env.toWriterEnvironment «namespace» maxCorpusBytes archives (env.chrono.toRfc3339 now)
        (db.memories.rows.length + 1) db.toDatabase
        (namespaceCorpusBytes env.toWriterEnvironment db.toDatabase «namespace»), EvictsCleanly db row.id
  | .forget «namespace» pattern tier archives _ =>
      ∀ row ∈ forgetVictims env db «namespace» pattern tier none, ForgetsCleanly db archives row.id
  | .forgetForCaller «namespace» pattern tier archives caller _ =>
      ∀ row ∈ forgetVictims env db «namespace» pattern tier (some caller), ForgetsCleanly db archives row.id
  | _ => True

/-- No envelope opens of a record whose key was attested destroyed, and nothing is left of a record that was forgotten
without an archive, until the row is written again. -/
structure ErasureTruthful : Prop where
  keyDestroyed : ∀ id, db.keyDestroyed id = true → ∀ placed,
    placed ∈ liveColumns db id ∨ placed ∈ archivedColumns db id → ¬ Unseals env placed
  forgotten : ∀ id, db.forgotten id = true → db.memories.find id = none ∧
    (∀ placed ∈ archivedColumns db id, placed.content = "" ∧ ¬ Unseals env placed) ∧
    ∀ push ∈ db.federationPushDlq, push.memoryId ≠ id

/-- Erased records have no row, and what the tables hold is sealed. -/
structure ErasureSound : Prop where
  settled : ∀ id, (custody db id).Settled
  sealed : ∀ id, (custody db id).Holding (SealedColumns env)

end Conditions

section Law

variable {env : SealingEnvironment} {db : ErasureDatabase}

/-- A sealed value opens exactly while its key is there. -/
theorem opens_iff {placed : Placed} (columns : SealedColumns env placed) :
    Unseals env placed ↔ hasKey placed = true := by
  constructor
  · rintro ⟨bytes, present, _⟩
    exact (columns.2 (Option.isSome_iff_exists.mpr ⟨bytes, present⟩)).1
  · intro held
    unfold hasKey at held
    refine (columns.2 ?_).2
    cases envelope : placed.encryptedEnvelope with
    | none =>
        rw [envelope] at held
        cases held
    | some bytes => rfl

/-- The tables tell the truth exactly when the account of every record does. -/
theorem erasureTruthful_iff (sound : ErasureSound env db) :
    ErasureTruthful env db ↔ ∀ id, (custody db id).Truthful hasKey := by
  have keyless (id : String) (placed : Placed)
      (present : placed ∈ (custody db id).live ∨ placed ∈ (custody db id).copy) :
      ¬ Unseals env placed ↔ hasKey placed = false := by
    rw [opens_iff (sound.sealed id placed present), Bool.not_eq_true]
  constructor
  · intro truthful id
    refine ⟨fun erased value present => (keyless id value present).mp (truthful.keyDestroyed id erased value present),
      fun erased => ?_⟩
    obtain ⟨gone, copies, pushes⟩ := truthful.forgotten id erased
    refine ⟨?_, fun value present => (keyless id value (.inr present)).mp (copies value present).2, ?_⟩
    · show liveColumns db id = none
      rw [liveColumns, gone]
      rfl
    · exact List.any_eq_false.mpr fun push present => by simpa using pushes push present
  · intro truthful
    refine ⟨fun id erased placed present => (keyless id placed present).mpr
      ((truthful id).keyDestroyed erased placed present), fun id erased => ?_⟩
    obtain ⟨gone, copies, pushes⟩ := (truthful id).forgotten erased
    refine ⟨Option.map_eq_none_iff.mp gone, fun placed present => ⟨(sound.sealed id placed (.inr present)).1,
      (keyless id placed (.inr present)).mpr (copies placed present)⟩, fun push present => ?_⟩
    have apart := List.any_eq_false.mp pushes push present
    simpa using apart

/-- What one call does to every record. -/
structure CallEffects (env : SealingEnvironment) (db after : ErasureDatabase) (clean : Prop)
    (handlings : String → Handling Placed) : Prop where
  custody : ∀ id, custody after id = (custody db id).handle hasKey (handlings id)
  written : ∀ id value copies, handlings id = .write value copies → SealedColumns env value
  clean : clean ↔ ∀ id, (AiMemory.Storage.custody db id).Clean hasKey (handlings id)

/-- Gentle handlings of every identifier are the effects of a call. -/
theorem gentle_effects {after : ErasureDatabase}
    (each : ∀ id, ∃ handling : Handling Placed, custody after id = (custody db id).handle hasKey handling ∧
      handling.Gentle (SealedColumns env)) : ∃ handlings, CallEffects env db after True handlings := by
  choose handlings effects using each
  refine ⟨handlings, fun id => (effects id).1, fun id value copies same => ?_,
    iff_of_true trivial fun id => Custody.clean_of_gentle (effects id).2⟩
  have gentle := (effects id).2
  rw [same] at gentle
  exact gentle

/-- A selected row is live. -/
theorem clean_forget_iff {archive : Bool} {row : Memory} (stored : row ∈ db.memories.rows) :
    (custody db row.id).Clean hasKey (.forget archive) ↔ ForgetsCleanly db archive row.id := by
  cases archive with
  | true => exact Iff.rfl
  | false =>
      have live : (custody db row.id).live.isSome = true := by
        show (liveColumns db row.id).isSome = true
        rw [liveColumns, (db.memories.find_eq_some_iff row.id row).mpr ⟨stored, rfl⟩]
        rfl
      exact forall_prop_of_true live

/-- A call that handles the listed records is clean exactly when each of these handlings is. -/
theorem listed_effects {after : ErasureDatabase} {listed : String → Bool} {handling : Handling Placed} {clean : Prop}
    (unwritten : ∀ value copies, handling ≠ .write value copies)
    (each : ∀ id, custody after id = if listed id then (custody db id).handle hasKey handling else custody db id)
    (exact : clean ↔ ∀ id, listed id = true → (custody db id).Clean hasKey handling) :
    ∃ handlings, CallEffects env db after clean handlings := by
  refine ⟨fun id => if listed id then handling else .keep, fun id => ?_, fun id value copies same => ?_, ?_⟩
  · rw [each]
    split_ifs <;> rfl
  · split_ifs at same
    exact absurd same (unwritten value copies)
  · rw [exact]
    refine forall_congr' fun id => ?_
    cases listed id with
    | true => exact forall_prop_of_true rfl
    | false => exact iff_of_true nofun trivial

theorem gentle_self : ∃ handlings, CallEffects env db db True handlings :=
  gentle_effects fun _ => ⟨.keep, rfl, trivial⟩

/-- A call that handles one record gently leaves the other ones. -/
theorem gentle_one {after : ErasureDatabase} {id : String} {handling : Handling Placed}
    (each : ∀ query, custody after query =
      if query = id then (custody db query).handle hasKey handling else custody db query)
    (gentle : handling.Gentle (SealedColumns env)) : ∃ handlings, CallEffects env db after True handlings := by
  refine gentle_effects fun query => ?_
  rw [each]
  by_cases isRow : query = id
  · exact ⟨handling, if_pos isRow, gentle⟩
  · exact ⟨.keep, if_neg isRow, trivial⟩

/-- A writer handles the record that it lands on. -/
theorem write_effects (sound : ErasureSound env db) {answer : Except SealedError SealedDatabase} {copied : List Memory}
    (lands : ∀ written, answer = .ok written → (written = db.toSealedDatabase ∧ copied = []) ∨
      ∃ id placed copies, Landed db written id placed ∧ SealedColumns env placed ∧
        WriteCopies db written id copied copies) :
    ∃ handlings, CallEffects env db (commitWrite db answer copied) True handlings := by
  cases answer with
  | error refused => exact gentle_self
  | ok written =>
      rcases lands written rfl with ⟨rfl, rfl⟩ | ⟨id, placed, copies, landed, columns, made⟩
      · exact gentle_effects fun id => ⟨.keep, custody_unlanded (sound.settled id), trivial⟩
      · exact gentle_one (custody_landed sound.settled landed made) columns

/-- A collection handles exactly the rows that it takes. -/
theorem collected_effects {after : ErasureDatabase} {taken : List Memory} {archive : Bool}
    (each : ∀ id, custody after id = if taken.any fun row => row.id = id then
      (custody db id).handle hasKey (collected archive) else custody db id) :
    ∃ handlings, CallEffects env db after (archive = false → ∀ row ∈ taken, EvictsCleanly db row.id) handlings := by
  refine listed_effects (fun value copies same => ?_) each ?_
  · unfold collected at same
    cases archive <;> contradiction
  · cases archive with
    | true => exact iff_of_true nofun fun _ _ => trivial
    | false =>
        constructor
        · intro clean id listed
          obtain ⟨row, present, same⟩ := List.any_eq_true.mp listed
          exact of_decide_eq_true same ▸ clean rfl row present
        · intro clean _ row present
          exact clean row.id (List.any_eq_true.mpr ⟨row, present, decide_eq_true rfl⟩)

/-- A sweep handles the rows of the chunks that succeed. -/
theorem gc_effects (archive : Bool) (now : env.chrono.Instant) :
    ∃ handlings, CallEffects env db (erasureStep env db (.gc archive now))
      ((ErasureCall.gc archive now : ErasureCall env).Clean env db) handlings := by
  refine collected_effects fun id => ?_
  show custody (gcErasable env db archive now).1 id = _
  have sweep := @custody_gcLoop db archive (env.chrono.toRfc3339 now) (db.memories.rows.length + 1) 0 id
  unfold gcErasable
  cases swept : gcLoopErasable archive (env.chrono.toRfc3339 now) (db.memories.rows.length + 1) db 0 with
  | mk left answer =>
      rw [swept] at sweep
      cases answer <;> exact sweep

/-- The byte cap handles exactly the rows that it evicts. -/
theorem sizeGc_effects («namespace» : String) (maxCorpusBytes : Int) (archive : Bool) (now : env.chrono.Instant) :
    ∃ handlings, CallEffects env db (erasureStep env db (.sizeGc «namespace» maxCorpusBytes archive now))
      ((ErasureCall.sizeGc «namespace» maxCorpusBytes archive now : ErasureCall env).Clean env db) handlings := by
  unfold ErasureCall.Clean
  dsimp only
  show ∃ handlings, CallEffects env db (sizeGcErasable env db «namespace» maxCorpusBytes archive now).1 _ handlings
  unfold sizeGcErasable
  by_cases off : maxCorpusBytes ≤ 0
  · rw [if_pos off]
    obtain ⟨handlings, effects⟩ := @gentle_self env db
    exact ⟨handlings, effects.custody, effects.written, effects.clean.symm.trans
      (iff_of_true trivial fun _ capped => absurd off (not_le.mpr capped)) |>.symm⟩
  · rw [if_neg off]
    simp only [not_le.mp off, forall_const]
    exact collected_effects fun id => custody_sizeGcLoop _ _ 0 id

/-- A forget handles exactly the rows that it selects, unless it fails. -/
theorem forget_effects («namespace» pattern : Option String) (tier : Option Tier) (archive : Bool)
    (caller : Option String) (now : env.chrono.Instant) :
    ∃ handlings, CallEffects env db
      (match forgetErasable env db «namespace» pattern tier archive caller now with
        | .ok (forgotten, _) => forgotten
        | .error _ => db)
      (∀ row ∈ forgetVictims env db «namespace» pattern tier caller, ForgetsCleanly db archive row.id) handlings := by
  have idle : ∃ handlings, CallEffects env db db (∀ row ∈ ([] : List Memory), ForgetsCleanly db archive row.id)
      handlings := by
    obtain ⟨handlings, effects⟩ := @gentle_self env db
    exact ⟨handlings, effects.custody, effects.written,
      (iff_of_true (fun row none => absurd none List.not_mem_nil) trivial).trans effects.clean⟩
  unfold forgetErasable forgetVictims
  dsimp only
  by_cases unfiltered : pattern = none ∧ «namespace» = none ∧ tier = none
  · rw [if_pos unfiltered, if_pos (.inl unfiltered)]
    exact idle
  · rw [if_neg unfiltered]
    cases failure : forgetFailure pattern
        (db.memories.rows.filter (forgetReaches env «namespace» pattern tier caller)) with
    | some error =>
        rw [if_pos (.inr (.inl (by rfl)))]
        exact idle
    | none =>
        have succeeds := @isOk_forgetRows db archive caller (forgetReaches env «namespace» pattern tier caller)
          (env.chrono.toRfc3339 now)
        cases erased : forgetRows db (forgetReaches env «namespace» pattern tier caller) archive caller
            (env.chrono.toRfc3339 now) with
        | error error =>
            rw [erased] at succeeds
            rw [if_pos (.inr (.inr (Bool.not_eq_eq_eq_not.mp succeeds.symm)))]
            exact idle
        | ok left =>
            rw [erased] at succeeds
            have kept : orphansAtom db.toDatabase (forgetReaches env «namespace» pattern tier caller) = false :=
              Bool.not_eq_eq_eq_not.mp succeeds.symm
            rw [if_neg (by simp [unfiltered, kept])]
            refine @listed_effects env db _ (fun id => (db.memories.rows.filter
              (forgetReaches env «namespace» pattern tier caller)).any fun row => row.id = id) (.forget archive) _ nofun
              (custody_forgetRows erased) ?_
            constructor
            · intro clean id listed
              obtain ⟨row, present, same⟩ := List.any_eq_true.mp listed
              obtain rfl := of_decide_eq_true same
              exact (clean_forget_iff (List.mem_filter.mp present).1).mpr (clean row present)
            · intro clean row present
              refine (clean_forget_iff (List.mem_filter.mp present).1).mp (clean row.id ?_)
              exact List.any_eq_true.mpr ⟨row, present, decide_eq_true rfl⟩

/-- The push of a live row is queued. -/
theorem custody_pushFailed (push : PushDlqRow) (query : String) :
    custody (erasureStep env db (.pushFailed push)) query =
      if query = push.memoryId then (custody db query).handle hasKey .queue else custody db query := by
  have known : (custody db push.memoryId).live.isSome = (db.memories.find push.memoryId).isSome := by
    show (liveColumns db push.memoryId).isSome = _
    rw [liveColumns, Option.isSome_map]
  show custody (if (db.memories.find push.memoryId).isSome then enqueuePushFailure db push else db) query = _
  rw [← known]
  cases live : (custody db push.memoryId).live.isSome with
  | false =>
      rw [if_neg Bool.false_ne_true]
      split_ifs with isRow
      · rw [isRow, Custody.handle, live, Bool.or_false]
      · rfl
  | true =>
      have queues : custody (enqueuePushFailure db push) query =
          { custody db query with queued := (custody db query).queued || push.memoryId = query } := by
        unfold enqueuePushFailure
        split_ifs with waiting
        · obtain ⟨held, present, same⟩ := List.any_eq_true.mp waiting
          have ofRow : held.memoryId = push.memoryId := by
            simp only [Bool.and_eq_true, decide_eq_true_eq] at same
            exact same.1.1
          by_cases isRow : push.memoryId = query
          · have queued : (custody db query).queued = true :=
              List.any_eq_true.mpr ⟨held, present, decide_eq_true (ofRow.trans isRow)⟩
            rw [queued, Bool.true_or, ← queued]
          · rw [decide_eq_false isRow, Bool.or_false]
        · show Custody.mk _ _ ((db.federationPushDlq ++ [push]).any _) _ _ = _
          rw [List.any_append, List.any_cons, List.any_nil, Bool.or_false]
          rfl
      rw [if_pos rfl, queues]
      split_ifs with isRow
      · rw [isRow, Custody.handle, live, decide_eq_true rfl]
      · rw [decide_eq_false (Ne.symm isRow), Bool.or_false]

/-- Every call handles every record in one way, and is clean exactly when each of its handlings is. -/
theorem step_effects (enabled : env.primitives.encryptionEnabled = true) (correct : env.primitives.Correct)
    (sound : ErasureSound env db) (call : ErasureCall env) :
    ∃ handlings, CallEffects env db (erasureStep env db call) (call.Clean env db) handlings := by
  cases call with
  | insert row now coins =>
      refine write_effects sound fun written ok => .inr ?_
      obtain ⟨id, placed, landed, columns, archived⟩ := insertSealed_landed (seals_columns enabled correct) trivial ok
      exact ⟨id, placed, false, landed, columns, .bare archived⟩
  | update id patch expectedVersion now coins =>
      refine write_effects sound fun written ok => ?_
      rcases updateSealed_landed (seals_columns enabled correct) (fun _ _ => trivial) (fun _ _ _ _ => trivial) ok
        with idle | ⟨placed, copies, landed, columns, made⟩
      · exact .inl idle
      · exact .inr ⟨id, placed, copies, landed, columns, made⟩
  | mergeInbound row now skewSecs coins =>
      refine write_effects sound fun written ok => ?_
      rcases mergeInboundSealed_landed (seals_columns enabled correct) trivial trivial (fun _ _ _ _ => trivial)
        sound.sealed ok with ⟨same, absent⟩ | landed
      · exact .inl ⟨same, by rw [absent]; rfl⟩
      · exact .inr landed
  | archive id reason now =>
      simp only [erasureStep]
      cases ok : archiveErasable db id reason (env.chrono.toRfc3339 now) with
      | error refused => exact gentle_self
      | ok archived => exact gentle_one (custody_archiveErasable ok) trivial
  | restore id now =>
      cases ok : restoreErasable env db id now with
      | error refused =>
          have refusal : erasureStep env db (.restore id now) = db := by simp only [erasureStep, ok]
          rw [refusal]
          exact gentle_self
      | ok restored =>
          have restores : erasureStep env db (.restore id now) = settle restored := by simp only [erasureStep, ok]
          rw [restores]
          exact gentle_one (custody_restore sound.settled ok) trivial
  | gc archive now => exact gc_effects archive now
  | sizeGc «namespace» maxCorpusBytes archive now => exact sizeGc_effects «namespace» maxCorpusBytes archive now
  | forget «namespace» pattern tier archive now => exact forget_effects «namespace» pattern tier archive none now
  | forgetForCaller «namespace» pattern tier archive caller now =>
      exact forget_effects «namespace» pattern tier archive (some caller) now
  | pushFailed push => exact gentle_one (custody_pushFailed push) trivial

/-- Every call keeps the erasure records sound. -/
theorem sound_step (enabled : env.primitives.encryptionEnabled = true) (correct : env.primitives.Correct)
    (sound : ErasureSound env db) (call : ErasureCall env) : ErasureSound env (erasureStep env db call) := by
  obtain ⟨handlings, effects⟩ := step_effects enabled correct sound call
  constructor
  · intro id
    rw [effects.custody]
    exact Custody.settled_handle (sound.settled id) _
  · intro id
    rw [effects.custody]
    exact Custody.holding_handle (sound.sealed id) _ (effects.written id)

/-- One call keeps the attestations true exactly when its erasures are clean. -/
theorem truthful_step_iff (enabled : env.primitives.encryptionEnabled = true) (correct : env.primitives.Correct)
    (sound : ErasureSound env db) (truthful : ErasureTruthful env db) (call : ErasureCall env) :
    call.Clean env db ↔ ErasureTruthful env (erasureStep env db call) := by
  obtain ⟨handlings, effects⟩ := step_effects enabled correct sound call
  rw [effects.clean, erasureTruthful_iff (sound_step enabled correct sound call)]
  refine forall_congr' fun id => ?_
  rw [effects.custody]
  exact (Custody.truthful_handle_iff (sound.settled id) ((erasureTruthful_iff sound).mp truthful id) _).symm

/-- The database before the first call, with the pushes that already wait. -/
def ErasureDatabase.fresh (waiting : List PushDlqRow) : ErasureDatabase where
  toStore := emptyStore
  memoryLinks := []
  archivedMemoryLinks := []
  namespaceMeta := []
  atomOf _ := none
  archivedAtomOf _ := none
  envelopes _ := none
  lastWritten _ := ""
  archivedEnvelopes _ := none
  federationPushDlq := waiting
  cryptoErasures := []
  keyDestroyed _ := false
  forgotten _ := false

theorem sound_fresh (waiting : List PushDlqRow) : ErasureSound env (.fresh waiting) where
  settled _ := Custody.settled_of_unmarked rfl rfl
  sealed _ value present := by
    rcases present with none | none
    · exact absurd none (Option.not_mem_none _)
    · exact absurd none (Option.not_mem_none _)

/-- Over every run the attestations of erasures stay true exactly when every erasure is clean. -/
theorem erasures_truthful_iff (enabled : env.primitives.encryptionEnabled = true) (correct : env.primitives.Correct)
    (waiting : List PushDlqRow) (calls : List (ErasureCall env)) :
    EveryStep (erasureStep env) (fun db call => call.Clean env db) (.fresh waiting) calls ↔
      ∀ taken rest, calls = taken ++ rest → ErasureTruthful env (run (erasureStep env) (.fresh waiting) taken) :=
  @EveryStep.iff_reached _ _ (erasureStep env) (fun db call => call.Clean env db) (fun _ _ => True) (ErasureSound env)
    (ErasureTruthful env) (fun _ call _ sound => sound_step enabled correct sound call)
    (fun _ call _ sound truthful => truthful_step_iff enabled correct sound truthful call) _ calls
    (EveryStep.of_forall (fun _ _ => trivial) _ calls) (sound_fresh waiting)
    ((erasureTruthful_iff (sound_fresh waiting)).mpr fun _ => Custody.truthful_of_unmarked rfl rfl)

end Law

section Samples

def aliceInsert : ErasureCall sealingEnvironment := .insert (agentRow "a-id" "ai:alice" "alpha") (0 : Int) firstCoins

def aliceEdit : ErasureCall sealingEnvironment :=
  .update "a-id" { blankPatch with content := some "beta" } none (0 : Int) secondCoins

def forgetAll (archive : Bool) : ErasureCall sealingEnvironment := .forget (some "ns") none none archive (0 : Int)

def afterErasures (calls : List (ErasureCall sealingEnvironment)) : ErasureDatabase :=
  run (erasureStep sealingEnvironment) (.fresh []) calls

/-- The copy in the archive opens to a content of Alice. -/
def copyOpensTo (db : ErasureDatabase) (content : String) : Bool :=
  (archivedColumns db "a-id").any fun placed => placed.encryptedEnvelope.any fun bytes =>
    openContent tablePrimitives bytes "ai:alice" = .ok content

theorem not_truthful_of_opened {db : ErasureDatabase} {content : String} (attested : db.keyDestroyed "a-id" = true)
    (opened : copyOpensTo db content = true) : ¬ ErasureTruthful sealingEnvironment db := by
  intro truthful
  obtain ⟨placed, present, held⟩ := (Option.any_eq_true _ _).mp opened
  obtain ⟨bytes, stored, opens⟩ := (Option.any_eq_true _ _).mp held
  exact truthful.keyDestroyed "a-id" attested placed (.inr present)
    ⟨bytes, stored, "ai:alice", content, of_decide_eq_true opens⟩

/-- The erasures of the samples. -/
theorem afterErasures_reads :
    (afterErasures [aliceInsert]).archivedMemories.length = 0 ∧
    (afterErasures [aliceInsert, forgetAll false]).keyDestroyed "a-id" = true ∧
    (afterErasures [aliceInsert, forgetAll true]).keyDestroyed "a-id" = true ∧
    copyOpensTo (afterErasures [aliceInsert, forgetAll true]) "alpha" = true ∧
    (afterErasures [aliceInsert, aliceEdit, forgetAll false]).keyDestroyed "a-id" = true ∧
    copyOpensTo (afterErasures [aliceInsert, aliceEdit, forgetAll false]) "alpha" = true := by
  decide +kernel

/-- A row that was never copied is forgotten with its key. -/
theorem forgotten_truthful :
    (afterErasures [aliceInsert, forgetAll false]).keyDestroyed "a-id" = true ∧
      ErasureTruthful sealingEnvironment (afterErasures [aliceInsert, forgetAll false]) := by
  refine ⟨afterErasures_reads.2.1, (@erasures_truthful_iff sealingEnvironment rfl tablePrimitives_correct []
    [aliceInsert, forgetAll false]).mp ⟨trivial, fun row _ copy present => ?_, trivial⟩ _ [] rfl⟩
  have unarchived : (afterErasures [aliceInsert]).archivedMemories = [] :=
    List.eq_nil_of_length_eq_zero afterErasures_reads.1
  have none : archivedColumns (afterErasures [aliceInsert]) row.id = none := by
    rw [archivedColumns, unarchived]
    rfl
  exact absurd (none ▸ present) (Option.not_mem_none _)

/-- The key of the row is attested destroyed, and its copy in the archive still opens: the copy that the forget itself
archived, or the copy of an earlier edit. -/
theorem forgotten_copy_opens :
    (afterErasures [aliceInsert, forgetAll true]).keyDestroyed "a-id" = true ∧
      ¬ ErasureTruthful sealingEnvironment (afterErasures [aliceInsert, forgetAll true]) ∧
      (afterErasures [aliceInsert, aliceEdit, forgetAll false]).keyDestroyed "a-id" = true ∧
      ¬ ErasureTruthful sealingEnvironment (afterErasures [aliceInsert, aliceEdit, forgetAll false]) := by
  obtain ⟨_, _, archived, archivedOpens, edited, editedOpens⟩ := afterErasures_reads
  exact ⟨archived, not_truthful_of_opened archived archivedOpens, edited, not_truthful_of_opened edited editedOpens⟩

end Samples
end AiMemory.Storage
