import AiMemory.Consolidation.Consolidate
import AiMemory.Consolidation.Laundering
import AiMemory.Storage.Erasure
import AiMemory.Storage.ErasureAttestation

/-
This file proves which runs of the encrypted writers leave no content in the clear.
-/

namespace AiMemory.Storage
open AiMemory.Consolidation AiMemory.Crdt AiMemory.Encryption AiMemory.Library AiMemory.Machine

structure RestEnvironment extends SealingEnvironment, ConsolidateEnvironment

section Mint

variable (env : RestEnvironment) (db : SealedDatabase)

/-- A source that cannot be opened stops the consolidation. -/
def openSources : List String → Except SealedError Unit
  | [] => .ok ()
  | id :: rest =>
      match db.memories.find id with
      | none => .error (.storage (.memoryNotFound id none))
      | some stored => do
          let _ ← (rowToMemory env.toSealingEnvironment db stored).mapError .encryption
          openSources rest

/-- The raw insertion names neither the seal nor the envelope, so the summary goes into the content column. -/
def consolidateAtRest (call : ConsolidateCall env.toConsolidateEnvironment) : Except SealedError SealedDatabase := do
  (gateStorageConn db.toStore).mapError .storage
  openSources env db call.ids
  match consolidate call db.toDatabase with
  | (written, .ok id) => .ok { db with
      toDatabase := written
      envelopes := Function.update db.envelopes id none
      lastWritten := Function.update db.lastWritten id call.summary }
  | (_, .error error) => .error (.storage error)

/-- The insertion answers with the identifier of the row that holds the slot of the clone. -/
def cloneId (clone : Memory) (now : env.chrono.Instant) (inserted : SealedDatabase) : String :=
  ((inserted.memories.findSlot (slotOf (boundRow env.toEnvironment now clone))).map (·.id)).getD clone.id

/-- The clone carries the opened content of its source and is sealed by its insertion. -/
def promoteAtRest (sourceId toNamespace newId : String) (now : env.chrono.Instant) (coins : SealingCoins) :
    SealedDatabase × Except SealedError String :=
  if toNamespace.isEmpty then (db, .error (.storage (.invalidArgument "to_namespace cannot be empty")))
  else
    match db.memories.find sourceId with
    | none => (db, .error (.storage (.memoryNotFound sourceId (some .source))))
    | some stored =>
        match rowToMemory env.toSealingEnvironment db stored with
        | .error error => (db, .error (.encryption error))
        | .ok source =>
            if toNamespace = source.namespace then
              (db, .error (.storage (.invalidArgument
                ("to_namespace must be a proper ancestor of the memory's namespace (got self: " ++
                  source.namespace ++ ")"))))
            else if toNamespace ∉ namespaceAncestors source.namespace then
              (db, .error (.storage (.invalidArgument ("to_namespace '" ++ toNamespace ++
                "' is not an ancestor of '" ++ source.namespace ++ "'"))))
            else
              let clone := promotedClone source toNamespace newId (env.chrono.toRfc3339 now)
              match insertSealed env.toSealingEnvironment db coins clone now with
              | .error error => (db, .error error)
              | .ok inserted =>
                  let actualId := cloneId env clone now inserted
                  match createLink env.toWriterEnvironment inserted.toDatabase actualId sourceId "derived_from" now with
                  | .error error => (inserted, .error (.storage error))
                  | .ok linked => ({ inserted with toDatabase := linked }, .ok actualId)

end Mint

/-- The calls that write, copy or move encrypted rows. -/
inductive RestCall (env : RestEnvironment) where
  | write (call : SealedCall env.toSealingEnvironment)
  | consolidate (call : ConsolidateCall env.toConsolidateEnvironment)
  | promote (sourceId toNamespace newId : String) (now : env.chrono.Instant) (coins : SealingCoins)
  | archive (id : String) (reason : Option String) (now : env.chrono.Instant)
  | forget («namespace» pattern : Option String) (tier : Option Tier) (archive : Bool) (caller : Option String)
      (now : env.chrono.Instant)
  | restore (id : String) (now : env.chrono.Instant)

section Run

variable (env : RestEnvironment)

/-- A merge and an update copy the row that they overwrite into the archive. -/
def writeCopies (db : ErasureDatabase) : SealedCall env.toSealingEnvironment → List Memory
  | .mergeInbound row _ _ _ => (db.memories.find row.id).toList
  | .update id patch _ _ _ => updateCopies env.toSealingEnvironment db id patch
  | _ => []

/-- A failed call leaves the database, but for the clone whose link was refused. -/
def restStep (db : ErasureDatabase) : RestCall env → ErasureDatabase
  | .write call =>
      commitWrite db (call.answer env.toSealingEnvironment db.toSealedDatabase) (writeCopies env db call)
  | .consolidate call => commitWrite db (consolidateAtRest env db.toSealedDatabase call) []
  | .promote sourceId toNamespace newId now coins =>
      commitWrite db (.ok (promoteAtRest env db.toSealedDatabase sourceId toNamespace newId now coins).1) []
  | .archive id reason now => (archiveErasable db id reason (env.chrono.toRfc3339 now)).toOption.getD db
  | .forget «namespace» pattern tier archive caller now =>
      match forgetErasable env.toSealingEnvironment db «namespace» pattern tier archive caller now with
      | .ok (forgotten, _) => forgotten
      | .error _ => db
  | .restore id now =>
      match restoreErasable env.toSealingEnvironment db id now with
      | .ok restored => settle restored
      | .error _ => db

end Run

section Law

/-- An envelope that was not erased stands beside the empty placeholder. -/
def RestsSealed (placed : Placed) : Prop :=
  placed.encryptedEnvelope ≠ some cryptoEraseMarker → placed.encryptedEnvelope.isSome ∧ placed.content = ""

/-- Neither table holds a content in the clear. -/
structure NoPlaintext (db : ErasureDatabase) : Prop where
  live : ∀ row ∈ db.memories.rows, RestsSealed ⟨row.content, db.envelopes row.id⟩
  archived : ∀ entry ∈ db.archivedMemories, RestsSealed ⟨entry.row.content, db.archivedEnvelopes entry.row.id⟩

variable {env : RestEnvironment}

/-- The call names no empty content. -/
def NamesContent : SealedCall env.toSealingEnvironment → Prop
  | .insert row _ _ => row.content ≠ ""
  | .insertWithConflict row _ _ _ => row.content ≠ ""
  | .insertIfNewer row _ _ => row.content ≠ ""
  | .mergeInbound row _ _ _ => row.content ≠ ""
  | .update _ patch _ _ _ => patch.content ≠ some ""
  | .conserveContradiction _ _ _ => True

/-- A write that succeeds names a content, and no consolidation succeeds. -/
def RestCall.Filled (env : RestEnvironment) (db : ErasureDatabase) : RestCall env → Prop
  | .write call => (call.answer env.toSealingEnvironment db.toSealedDatabase).isOk → NamesContent call
  | .consolidate call => ∀ written, consolidateAtRest env db.toSealedDatabase call ≠ .ok written
  | _ => True

/-- The credential screen leaves a mark in the place of what it takes out. -/
def MasksVisibly (env : Environment) : Prop := ∀ text masked, env.redactForStorage text = some masked → masked ≠ ""

end Law

section Sealed

variable {env : SealingEnvironment} {db : ErasureDatabase} {placed : Placed}

/-- The columns that the sealing of a content leaves. -/
def KeptSealed (env : SealingEnvironment) (placed : Placed) : Prop :=
  ∃ bytes coins content agentId, placed = ⟨"", some bytes⟩ ∧ content ≠ "" ∧
    sealContent env.primitives coins content agentId = .ok (some (bytes, ""))

/-- With encryption on every filled content is sealed. -/
theorem seals_kept (enabled : env.primitives.encryptionEnabled = true) :
    SealsAs env (fun content => content ≠ "") (KeptSealed env) := by
  intro coins content metadata placed filled ok
  obtain ⟨sealed, sealedOk, rfl⟩ := map_eq_ok.mp ok
  have done := mapError_eq_ok.mp sealedOk
  cases sealed with
  | none =>
      exact absurd ((plain_of_sealContent done).resolve_left (enabled ▸ Bool.noConfusion)) filled
  | some pair =>
      obtain ⟨bytes, placeholder⟩ := pair
      obtain ⟨rfl, _⟩ := sealContent_ok done
      exact ⟨bytes, coins, content, _, rfl, filled, done⟩

theorem restsSealed_of_kept (kept : KeptSealed env placed) : RestsSealed placed := by
  obtain ⟨bytes, _, _, _, rfl, _⟩ := kept
  exact fun _ => ⟨rfl, rfl⟩

/-- Whoever opens a sealed row reads the content that was sealed. -/
theorem filled_of_opened (correct : env.primitives.Correct) (separates : env.primitives.Separates)
    (kept : ∀ id, (custody db id).Holding (KeptSealed env)) {id : String} {stored existing : Memory}
    (found : db.memories.find id = some stored)
    (opened : rowToMemory env db.toSealedDatabase stored = .ok existing) : existing.content ≠ "" := by
  have sameId := ((db.memories.find_eq_some_iff _ _).mp found).2
  have live : (custody db id).live = some ⟨stored.content, db.envelopes id⟩ := by
    show liveColumns db id = _
    rw [liveColumns, found]
    rfl
  obtain ⟨bytes, coins, content, agentId, same, filled, sealed⟩ := kept id _ (.inl live)
  obtain ⟨text, read, rfl⟩ := map_eq_ok.mp opened
  have envelope : db.envelopes id = some bytes := congrArg Placed.encryptedEnvelope same
  have opens : openContent env.primitives bytes (agentIdOf stored.metadata) = .ok text := by
    rw [readContent, sameId, envelope] at read
    exact read
  have own := eq_of_openContent correct separates sealed opens
  rw [own, openContent_own correct sealed] at opens
  exact Except.ok.inj opens ▸ filled

end Sealed

section Sound

variable {env : SealingEnvironment} {db : ErasureDatabase}

/-- Every column is the work of a sealing, and the archive holds one row for each identifier. -/
structure RestSound (env : SealingEnvironment) (db : ErasureDatabase) : Prop where
  settled : ∀ id, (custody db id).Settled
  kept : ∀ id, (custody db id).Holding (KeptSealed env)
  archive : (db.archivedMemories.map (·.row.id)).Nodup

/-- Sound tables hold no plain text. -/
theorem RestSound.noPlaintext (sound : RestSound env db) : NoPlaintext db where
  live row present := by
    apply @restsSealed_of_kept env
    apply sound.kept row.id
    have found := (db.memories.find_eq_some_iff row.id row).mpr ⟨present, rfl⟩
    exact .inl (by rw [custody, liveColumns, found]; rfl)
  archived entry present := by
    apply @restsSealed_of_kept env
    apply sound.kept entry.row.id
    have found : (db.archivedMemories.find? fun other => other.row.id = entry.row.id) = some entry :=
      (KeyedTable.find?_key_iff sound.archive _ _).mpr ⟨present, rfl⟩
    exact .inr (by rw [custody, archivedColumns, found]; rfl)

theorem nodup_archiveRow {archived : List ArchivedMemory} (distinct : (archived.map (·.row.id)).Nodup)
    (row : Memory) (reason stamp : String) : ((archiveRow archived row reason stamp).map (·.row.id)).Nodup := by
  unfold archiveRow
  rw [List.map_append, List.nodup_append]
  refine ⟨distinct.sublist (List.filter_sublist.map _), List.nodup_singleton _, ?_⟩
  intro id listed other same
  obtain ⟨entry, kept, rfl⟩ := List.mem_map.mp listed
  obtain rfl := List.mem_singleton.mp same
  simpa using (List.mem_filter.mp kept).2

theorem nodup_archiveAll {archived : List ArchivedMemory} (distinct : (archived.map (·.row.id)).Nodup)
    (rows : List Memory) (reason stamp : String) :
    ((archiveAll archived rows reason stamp).map (·.row.id)).Nodup := by
  induction rows generalizing archived with
  | nil => exact distinct
  | cons row rest ih => exact ih (nodup_archiveRow distinct row reason stamp)

/-- A call that handles every record and writes only sealed columns keeps the tables sealed. -/
theorem RestSound.handled (sound : RestSound env db) {after : ErasureDatabase}
    (each : ∀ id, ∃ handling : Handling Placed, custody after id = (custody db id).handle hasKey handling ∧
      ∀ value copies, handling = .write value copies → KeptSealed env value)
    (archive : (after.archivedMemories.map (·.row.id)).Nodup) : RestSound env after := by
  refine ⟨fun id => ?_, fun id => ?_, archive⟩
  · obtain ⟨handling, effect, _⟩ := each id
    rw [effect]
    exact Custody.settled_handle (sound.settled id) handling
  · obtain ⟨handling, effect, written⟩ := each id
    rw [effect]
    exact Custody.holding_handle (sound.kept id) handling written

/-- A call that handles the records of a condition in one way leaves the other ones. -/
theorem RestSound.handledWhere (sound : RestSound env db) {after : ErasureDatabase} {listed : String → Prop}
    [DecidablePred listed] {handling : Handling Placed}
    (each : ∀ id, custody after id = if listed id then (custody db id).handle hasKey handling else custody db id)
    (written : ∀ value copies, handling = .write value copies → KeptSealed env value)
    (archive : (after.archivedMemories.map (·.row.id)).Nodup) : RestSound env after := by
  refine sound.handled (fun id => ?_) archive
  rw [each]
  by_cases isListed : listed id
  · exact ⟨handling, if_pos isListed, written⟩
  · exact ⟨.keep, if_neg isListed, nofun⟩

/-- A landed row keeps the tables sound. -/
theorem RestSound.landed (sound : RestSound env db) {written : SealedDatabase} {id : String} {placed : Placed}
    (lands : Landed db written id placed) (kept : KeptSealed env placed) {copied : List Memory} {copies : Bool}
    (made : WriteCopies db written id copied copies) : RestSound env (commitWrite db (.ok written) copied) := by
  refine sound.handledWhere (custody_landed sound.settled lands made) ?_ ?_
  · rintro value copies same
    cases same
    exact kept
  · show (written.archivedMemories.map (·.row.id)).Nodup
    cases made with
    | bare same => exact same ▸ sound.archive
    | replaced _ same => exact same ▸ nodup_archiveRow sound.archive _ _ _

/-- A writer that changes neither a content nor an envelope keeps the tables sealed. -/
theorem RestSound.unlanded (sound : RestSound env db) {written : SealedDatabase}
    (contents : ∀ query, (written.memories.find query).map (·.content) = (db.memories.find query).map (·.content))
    (envelopes : written.envelopes = db.envelopes) (archived : written.archivedMemories = db.archivedMemories) :
    RestSound env (commitWrite db (.ok written) []) := by
  have same (id : String) : custody (commitWrite db (.ok written) []) id = custody db id := by
    have live : liveColumns { db with
        toSealedDatabase := written
        archivedEnvelopes := copyEnvelopes db [] } id = liveColumns db id := by
      rw [liveColumns_eq, liveColumns_eq]
      show ((written.memories.find id).map _).map _ = _
      rw [contents, envelopes]
    have copy : archivedColumns { db with
        toSealedDatabase := written
        archivedEnvelopes := copyEnvelopes db [] } id = archivedColumns db id := by
      unfold archivedColumns
      show (written.archivedMemories.find? _).map _ = _
      rw [archived]
      rfl
    show custody (settle _) id = _
    rw [custody_settle_eq, live, copy]
    obtain ⟨keyDestroyed, forgotten⟩ := standing_settled (sound.settled id)
    show Custody.mk (liveColumns db id) (archivedColumns db id) _ (db.keyDestroyed id && _) (db.forgotten id && _) = _
    rw [keyDestroyed, forgotten]
    rfl
  refine sound.handled (fun id => ⟨.keep, same id, nofun⟩) ?_
  show (written.archivedMemories.map (·.row.id)).Nodup
  rw [archived]
  exact sound.archive

end Sound

section Step

variable {env : RestEnvironment} {db : ErasureDatabase}

/-- What the proofs use of the libraries and of the credential screen. -/
structure SealingLaws (env : RestEnvironment) : Prop where
  enabled : env.primitives.encryptionEnabled = true
  correct : env.primitives.Correct
  separates : env.primitives.Separates
  masks : MasksVisibly env.toEnvironment

/-- A filled row is written with content. -/
theorem filled_boundRow (laws : SealingLaws env) {row : Memory} (filled : row.content ≠ "") (now : env.chrono.Instant) :
    (boundRow env.toEnvironment now row).content ≠ "" := by
  show (env.redactForStorage row.content).getD row.content ≠ ""
  cases masked : env.redactForStorage row.content with
  | none => exact filled
  | some text => exact laws.masks _ _ masked

/-- An insertion of a filled row keeps the tables sound. -/
theorem restSound_insert (laws : SealingLaws env) (sound : RestSound env.toSealingEnvironment db) {row : Memory}
    (filled : row.content ≠ "") {now : env.chrono.Instant} {coins : SealingCoins} {written : SealedDatabase}
    (ok : insertSealed env.toSealingEnvironment db.toSealedDatabase coins row now = .ok written) :
    RestSound env.toSealingEnvironment (commitWrite db (.ok written) []) := by
  obtain ⟨id, placed, landed, kept, archived⟩ :=
    insertSealed_landed (seals_kept laws.enabled) (filled_boundRow laws filled now) ok
  exact sound.landed landed kept (.bare archived)

/-- The error policy lands the sealed row that it was given. -/
theorem insertWithConflict_error_landed (laws : SealingLaws env) {row : Memory} (filled : row.content ≠ "")
    {now : env.chrono.Instant} {coins : SealingCoins} {written : SealedDatabase}
    (ok : insertWithConflictSealed env.toSealingEnvironment db.toSealedDatabase coins row now .error = .ok written) :
    ∃ id placed, Landed db written id placed ∧ KeptSealed env.toSealingEnvironment placed ∧
      written.archivedMemories = db.archivedMemories := by
  obtain ⟨_, _, running⟩ := bind_eq_ok.mp ok
  obtain ⟨_, _, ungoverned⟩ := bind_eq_ok.mp running
  split at ungoverned
  · cases ungoverned
  · obtain ⟨placed, sealed, rest⟩ := bind_eq_ok.mp ungoverned
    obtain ⟨⟨store, id⟩, inserted, same⟩ := bind_eq_ok.mp rest
    obtain rfl := Except.ok.inj same
    replace inserted := mapError_eq_ok.mp inserted
    obtain ⟨_, fresh, free, rfl, rfl⟩ := plainInsert_written inserted
    refine ⟨_, placed, landed_land ?_ (KeyedTable.find_append db.memories _ fresh free),
      seals_kept laws.enabled _ _ _ _ filled sealed, rfl⟩
    rfl

/-- The marks of a contradiction leave the contents. -/
theorem restSound_conserve (sound : RestSound env.toSealingEnvironment db) {loserId winnerId : String}
    {now : env.chrono.Instant} {written : SealedDatabase}
    (ok : conserveSealed env.toSealingEnvironment db.toSealedDatabase now loserId winnerId = .ok written) :
    RestSound env.toSealingEnvironment (commitWrite db (.ok written) []) := by
  unfold conserveSealed at ok
  split at ok
  · obtain rfl := Except.ok.inj ok
    exact sound.unlanded (fun _ => rfl) rfl rfl
  · obtain ⟨_, _, opened⟩ := bind_eq_ok.mp ok
    obtain ⟨conserved, conserving, same⟩ := bind_eq_ok.mp opened
    obtain rfl := Except.ok.inj same
    have stores := conserveContradiction_stores (mapError_eq_ok.mp conserving)
    have rows : (∀ query, (conserved.memories.find query).map (·.content) =
        (db.memories.find query).map (·.content)) ∧ conserved.archivedMemories = db.archivedMemories := by
      rcases stores with store | ⟨current, _, store⟩
      · rw [store]
        exact ⟨fun _ => rfl, rfl⟩
      · rw [store]
        constructor
        · intro query
          rw [markedStore, find_rewriteRow, Option.map_map]
          congr 1
          funext row
          by_cases isLoser : query = loserId <;> simp [isLoser, markLoser]
        · unfold markedStore rewriteRow
          split <;> rfl
    exact sound.unlanded rows.1 rfl rows.2

/-- Every writer of the sealed database keeps the tables sealed. -/
theorem restSound_write (laws : SealingLaws env) (sound : RestSound env.toSealingEnvironment db)
    {call : SealedCall env.toSealingEnvironment} (succeedsFilled : RestCall.Filled env db (.write call)) :
    RestSound env.toSealingEnvironment (restStep env db (.write call)) := by
  have opens {id : String} (stored existing : Memory) (found : db.memories.find id = some stored)
      (read : rowToMemory env.toSealingEnvironment db.toSealedDatabase stored = .ok existing) :
      existing.content ≠ "" := filled_of_opened laws.correct laws.separates sound.kept found read
  have seals := seals_kept laws.enabled
  show RestSound _ (commitWrite db (call.answer env.toSealingEnvironment db.toSealedDatabase) (writeCopies env db call))
  cases answer : call.answer env.toSealingEnvironment db.toSealedDatabase with
  | error _ => exact sound
  | ok written =>
      have filled : NamesContent call := succeedsFilled (by rw [answer]; rfl)
      cases call with
      | insert row now coins => exact restSound_insert laws sound filled answer
      | insertWithConflict row mode now coins =>
          cases mode with
          | merge =>
              obtain ⟨_, _, inserted⟩ := bind_eq_ok.mp answer
              exact restSound_insert laws sound filled inserted
          | error =>
              obtain ⟨id, placed, landed, kept, archived⟩ := insertWithConflict_error_landed laws filled answer
              exact sound.landed landed kept (.bare archived)
          | version =>
              obtain ⟨_, _, running⟩ := bind_eq_ok.mp answer
              obtain ⟨title, _, inserted⟩ := bind_eq_ok.mp running
              exact @restSound_insert env db laws sound { row with title := title } filled _ _ _ inserted
      | insertIfNewer row now coins =>
          rcases insertIfNewerSealed_landed seals (filled_boundRow laws filled now) sound.kept answer with
            rfl | ⟨id, placed, landed, kept, archived⟩
          · exact sound.unlanded (fun _ => rfl) rfl rfl
          · exact sound.landed landed kept (.bare archived)
      | mergeInbound row now skewSecs coins =>
          rcases mergeInboundSealed_landed seals (filled_boundRow laws filled now) filled opens sound.kept answer with
            ⟨rfl, absent⟩ | ⟨id, placed, copies, landed, kept, made⟩
          · have none : writeCopies env db (.mergeInbound row now skewSecs coins) = [] := by
              rw [writeCopies, absent]
              rfl
            rw [none]
            exact sound.unlanded (fun _ => rfl) rfl rfl
          · exact sound.landed landed kept made
      | update id patch expectedVersion now coins =>
          have own : ∀ content ∈ patch.content, content ≠ "" := by
            rintro content asked rfl
            exact filled asked
          rcases updateSealed_landed seals own opens answer with ⟨rfl, none⟩ | ⟨placed, copies, landed, kept, made⟩
          · rw [show writeCopies env db (.update id patch expectedVersion now coins) = [] from none]
            exact sound.unlanded (fun _ => rfl) rfl rfl
          · exact sound.landed landed kept made
      | conserveContradiction loserId winnerId now => exact restSound_conserve sound answer

/-- The clone of a promotion is sealed by its insertion, and its link leaves the rows. -/
theorem restSound_promote (laws : SealingLaws env) (sound : RestSound env.toSealingEnvironment db)
    (sourceId toNamespace newId : String) (now : env.chrono.Instant) (coins : SealingCoins) :
    RestSound env.toSealingEnvironment (restStep env db (.promote sourceId toNamespace newId now coins)) := by
  have idle : RestSound env.toSealingEnvironment (commitWrite db (.ok db.toSealedDatabase) []) :=
    sound.unlanded (fun _ => rfl) rfl rfl
  show RestSound _ (commitWrite db (.ok (promoteAtRest env db.toSealedDatabase sourceId toNamespace newId now
    coins).1) [])
  unfold promoteAtRest
  split
  · exact idle
  · split
    · exact idle
    · rename_i stored found
      split
      · exact idle
      · rename_i source read
        have filled := filled_of_opened laws.correct laws.separates sound.kept found read
        split
        · exact idle
        · split
          · exact idle
          · dsimp only
            split
            · exact idle
            · rename_i inserted insertion
              obtain ⟨id, placed, landed, kept, archived⟩ :=
                insertSealed_landed (seals_kept laws.enabled) (filled_boundRow laws (by exact filled) now) insertion
              split
              · exact sound.landed landed kept (.bare archived)
              · rename_i linked created
                have store : linked.toStore = inserted.toStore := toStore_createLinkSigned created
                have lands : Landed db { inserted with toDatabase := linked } id placed := by
                  refine ⟨fun query => ?_, landed.envelopes⟩
                  rw [← landed.contents query]
                  exact congrArg (fun store : Store => (store.memories.find query).map (·.content)) store
                exact sound.landed lands kept (.bare ((congrArg Store.archivedMemories store).trans archived))

/-- An archival keeps the tables sound. -/
theorem restSound_archive (sound : RestSound env.toSealingEnvironment db) (id : String) (reason : Option String)
    (now : env.chrono.Instant) : RestSound env.toSealingEnvironment (restStep env db (.archive id reason now)) := by
  simp only [restStep]
  cases ok : archiveErasable db id reason (env.chrono.toRfc3339 now) with
  | error refused => exact sound
  | ok archived =>
      refine sound.handledWhere (custody_archiveErasable ok) nofun ?_
      obtain ⟨⟨moved, flag⟩, movedOk, rfl⟩ := map_eq_ok.mp ok
      show (moved.archivedMemories.map _).Nodup
      rcases archiveMemoryNoTx_eq_ok movedOk with ⟨_, rfl, _⟩ | ⟨row, _, _, _, rfl⟩
      · exact sound.archive
      · exact nodup_archiveRow sound.archive _ _ _

/-- A forget copies its victims into the archive or leaves the archive. -/
theorem archived_forgetRows {left : ErasureDatabase} {doomed : Memory → Bool} {archive : Bool} {caller : Option String}
    {stamp : String} (ok : forgetRows db doomed archive caller stamp = .ok left) :
    left.archivedMemories =
      if archive then archiveAll db.archivedMemories (db.memories.rows.filter doomed) "forget" stamp
      else db.archivedMemories := by
  have plain := @forgetRows_refines db archive caller doomed stamp
  rw [ok] at plain
  rw [show left.archivedMemories = _ from congrArg (·.archivedMemories) (deleteFromMemories_eq_ok.mp plain.symm).2.symm]
  cases archive <;> rfl

/-- Forgetting keeps the tables sound. -/
theorem restSound_forget (sound : RestSound env.toSealingEnvironment db) («namespace» pattern : Option String)
    (tier : Option Tier) (archive : Bool) (caller : Option String) (now : env.chrono.Instant) :
    RestSound env.toSealingEnvironment (restStep env db (.forget «namespace» pattern tier archive caller now)) := by
  unfold restStep
  dsimp only
  unfold forgetErasable
  split_ifs
  · exact sound
  · dsimp only
    cases forgetFailure pattern (db.memories.rows.filter
        (forgetReaches env.toSealingEnvironment «namespace» pattern tier caller)) with
    | some error => exact sound
    | none =>
        dsimp only
        cases erased : forgetRows db (forgetReaches env.toSealingEnvironment «namespace» pattern tier caller) archive
            caller (env.chrono.toRfc3339 now) with
        | error error => exact sound
        | ok left =>
            refine sound.handledWhere (custody_forgetRows erased) nofun ?_
            show (left.archivedMemories.map _).Nodup
            rw [archived_forgetRows erased]
            split_ifs
            · exact nodup_archiveAll sound.archive _ _ _
            · exact sound.archive

/-- A restoration keeps the tables sound. -/
theorem restSound_restore (sound : RestSound env.toSealingEnvironment db) (id : String) (now : env.chrono.Instant) :
    RestSound env.toSealingEnvironment (restStep env db (.restore id now)) := by
  unfold restStep
  dsimp only
  cases ok : restoreErasable env.toSealingEnvironment db id now with
  | error _ => exact sound
  | ok restored =>
      refine sound.handledWhere (custody_restore sound.settled ok) nofun ?_
      obtain ⟨⟨changed, moved⟩, restoring, rfl⟩ := map_eq_ok.mp ok
      cases moved with
      | false => exact sound.archive
      | true =>
          show (changed.archivedMemories.map _).Nodup
          rw [archived_restoreArchived restoring]
          exact sound.archive.sublist (List.filter_sublist.map _)

/-- A filled call keeps the tables sealed. -/
theorem restSound_step (laws : SealingLaws env) (sound : RestSound env.toSealingEnvironment db) (call : RestCall env)
    (filled : call.Filled env db) : RestSound env.toSealingEnvironment (restStep env db call) := by
  cases call with
  | write call => exact restSound_write laws sound filled
  | consolidate call =>
      simp only [restStep]
      cases answer : consolidateAtRest env db.toSealedDatabase call with
      | error refused => exact sound
      | ok written => exact absurd answer (filled written)
  | promote sourceId toNamespace newId now coins =>
      exact restSound_promote laws sound sourceId toNamespace newId now coins
  | archive id reason now => exact restSound_archive sound id reason now
  | forget «namespace» pattern tier archive caller now =>
      exact restSound_forget sound «namespace» pattern tier archive caller now
  | restore id now => exact restSound_restore sound id now

/-- Empty tables are sound. -/
theorem restSound_fresh (env : SealingEnvironment) : RestSound env (.fresh []) where
  settled _ := Custody.settled_of_unmarked rfl rfl
  kept _ value present := by
    rcases present with none | none
    · exact absurd none (Option.not_mem_none _)
    · exact absurd none (Option.not_mem_none _)
  archive := List.nodup_nil

/-- A consolidation that succeeds leaves its summary without an envelope. -/
theorem consolidate_leaves_plaintext {call : ConsolidateCall env.toConsolidateEnvironment} {written : SealedDatabase}
    (ok : consolidateAtRest env db.toSealedDatabase call = .ok written) :
    ¬ NoPlaintext (restStep env db (.consolidate call)) := by
  intro clean
  have step : restStep env db (.consolidate call) = commitWrite db (.ok written) [] := by rw [restStep, ok]
  obtain ⟨_, _, running⟩ := bind_eq_ok.mp ok
  obtain ⟨_, _, opened⟩ := bind_eq_ok.mp running
  split at opened
  · rename_i minted id consolidated
    obtain rfl := Except.ok.inj opened
    obtain ⟨rfl, mints⟩ := consolidate_ok consolidated
    have present := ((minted.memories.find_eq_some_iff _ _).mp mints.result).1
    rw [step] at clean
    have sealed := clean.live _ present
    have bare : Function.update db.envelopes call.newId none call.newId = none := Function.update_self ..
    have unsealed : (none : Option Bytes).isSome = true := by
      rw [← bare]
      exact (sealed fun erased => nomatch bare.symm.trans erased).1
    cases unsealed
  · cases opened

/-- A run whose successful writes name a content and whose consolidations all fail leaves no content in the clear, and
every consolidation that succeeds leaves one. -/
theorem noPlaintext_run (laws : SealingLaws env) (calls : List (RestCall env)) :
    (EveryStep (restStep env) (fun db call => call.Filled env db) (.fresh []) calls →
        ∀ taken rest, calls = taken ++ rest → NoPlaintext (run (restStep env) (.fresh []) taken)) ∧
      ∀ db call written, consolidateAtRest env db.toSealedDatabase call = .ok written →
        ¬ NoPlaintext (restStep env db (.consolidate call)) := by
  refine ⟨fun every taken rest split => ?_, fun db call written ok => consolidate_leaves_plaintext ok⟩
  subst split
  have sound : RestSound env.toSealingEnvironment (run (restStep env) (.fresh []) taken) :=
    @run_invariant _ _ (restStep env) (fun db call => call.Filled env db) (RestSound env.toSealingEnvironment)
      (fun _ call filled sound => restSound_step laws sound call filled) _ _ (EveryStep.append_iff.mp every).1
      (restSound_fresh env.toSealingEnvironment)
  exact sound.noPlaintext

end Step

section Samples

def restEnvironment : RestEnvironment where
  toSealingEnvironment := sealingEnvironment
  lineageDagEnabled := false
  appendOnlyEnabled := false
  emitConsolidateLeaf _ := none

theorem restEnvironment_laws : SealingLaws restEnvironment where
  enabled := rfl
  correct := tablePrimitives_correct
  separates := tablePrimitives_separates
  masks := nofun

def aliceWrite : RestCall restEnvironment := .write firstInsert

/-- Alice writes a second row of her own. -/
def secondWrite : RestCall restEnvironment :=
  .write (.insert { agentRow "b-id" "ai:alice" "beta" with title := "u" } (0 : Int) secondCoins)

def aliceConsolidates : ConsolidateCall restEnvironment.toConsolidateEnvironment where
  ids := ["a-id", "b-id"]
  title := "summary"
  summary := "alpha and beta"
  «namespace» := "ns"
  tier := .mid
  source := "consolidation"
  consolidatorAgentId := "ai:alice"
  newId := "m"
  now := (0 : Int)
  tombstoneSources := false

def afterRest (calls : List (RestCall restEnvironment)) : ErasureDatabase :=
  run (restStep restEnvironment) (.fresh []) calls

/-- The two rows of Alice are sealed. -/
theorem twoWrites_sealed :
    (afterRest [aliceWrite, secondWrite]).memories.rows.length = 2 ∧
      NoPlaintext (afterRest [aliceWrite, secondWrite]) := by
  have alpha : "alpha" ≠ "" := by decide
  have beta : "beta" ≠ "" := by decide
  refine ⟨by decide +kernel, ?_⟩
  exact (noPlaintext_run restEnvironment_laws [aliceWrite, secondWrite]).1
    ⟨fun _ => alpha, fun _ => beta, trivial⟩ _ [] rfl

/-- The consolidation of the two rows stores its summary in the clear. -/
theorem summary_in_the_clear :
    (liveColumns (afterRest [aliceWrite, secondWrite, .consolidate aliceConsolidates]) "m").map
        (fun placed => (placed.content, placed.encryptedEnvelope)) = some ("alpha and beta", none) ∧
      ¬ NoPlaintext (afterRest [aliceWrite, secondWrite, .consolidate aliceConsolidates]) := by
  have stored : (liveColumns (afterRest [aliceWrite, secondWrite, .consolidate aliceConsolidates]) "m").map
      (fun placed => (placed.content, placed.encryptedEnvelope)) = some ("alpha and beta", none) := by decide +kernel
  refine ⟨stored, fun clean => ?_⟩
  obtain ⟨placed, held, columns⟩ := Option.map_eq_some_iff.mp stored
  obtain ⟨row, found, rfl⟩ := Option.map_eq_some_iff.mp held
  obtain ⟨content, bare⟩ := Prod.mk.inj columns
  obtain ⟨present, sameId⟩ := (KeyedTable.find_eq_some_iff _ _ _).mp found
  have sealed := clean.live row present
  rw [sameId] at sealed
  have plain := (sealed fun erased => nomatch bare.symm.trans erased).2
  exact absurd (content.symm.trans plain) (by decide)

end Samples

end AiMemory.Storage
