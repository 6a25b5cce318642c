import AiMemory.Storage.Edits
import AiMemory.Storage.Footprint
import AiMemory.Storage.Sealing

/-
This file decides when every encrypted row stays readable to the agent of its own metadata.
-/

namespace AiMemory.Storage
open AiMemory.Crdt AiMemory.Encryption AiMemory.Library AiMemory.Machine

section Agent

/-- A stamp under another key keeps the author. -/
theorem agentIdOf_insert {key : String} (other : key ≠ "agent_id") (metadata value : Json) :
    agentIdOf (metadata.insert key value) = agentIdOf metadata := by
  unfold agentIdOf
  cases object : metadata.isObject with
  | true =>
      have kept := Json.get_put object key (some value) "agent_id"
      rw [show (metadata.insert key value).get "agent_id" = _ from kept, if_neg other.symm]
  | false =>
      have scalar : (metadata.insert key value).isObject = false := by rw [Json.isObject_insert, object]
      rw [Json.get_of_not_isObject object, Json.get_of_not_isObject scalar]

theorem agentIdOf_stampVersionVector (metadata : Json) (nodeId stampedAt : String) :
    agentIdOf (stampVersionVector metadata nodeId stampedAt) = agentIdOf metadata := by
  unfold stampVersionVector
  split_ifs
  · rfl
  · exact agentIdOf_insert (by decide) _ _

theorem agentIdOf_contradictionMarked (metadata : Json) (winnerId : String) :
    agentIdOf (contradictionMarked metadata winnerId) = agentIdOf metadata := by
  unfold contradictionMarked
  rw [agentIdOf_insert (by decide), agentIdOf_insert (by decide), agentIdOf_insert (by decide)]

/-- The stored row keeps the agent that it names. -/
theorem agentIdOf_provenance (target stored : Json) :
    agentIdOf (jsonPatch target (provenanceObject stored)) =
      if (stored.get "agent_id").isSome then agentIdOf stored else agentIdOf target := by
  unfold agentIdOf
  rw [asStr_provenance target stored (by decide)]
  split_ifs <;> rfl

end Agent

section Landing

variable {env : SealingEnvironment} {db : SealedDatabase}

/-- Every live row reads the content of the last write to it. -/
def Readable (env : SealingEnvironment) (db : SealedDatabase) : Prop :=
  ∀ id, ∀ row ∈ db.memories.find id, readContent env db row = .ok (db.lastWritten id)

section Columns

variable (db : SealedDatabase) (written : Store) (id : String) (placed : Placed) (content query : String)

theorem envelopes_land : (db.land written id placed content).envelopes query =
    if query = id then placed.encryptedEnvelope else db.envelopes query := Function.update_apply ..

theorem lastWritten_land : (db.land written id placed content).lastWritten query =
    if query = id then content else db.lastWritten query := Function.update_apply ..

end Columns

/-- A content is sealed for its author or left plain. -/
theorem sealFor_ok {coins : SealingCoins} {content : String} {metadata : Json} {placed : Placed}
    (ok : sealFor env coins content metadata = .ok placed) :
    placed.encryptedEnvelope = none ∧ placed.content = content ∨
      ∃ bytes ∈ placed.encryptedEnvelope, ∃ placeholder,
        sealContent env.primitives coins content (agentIdOf metadata) = .ok (some (bytes, placeholder)) := by
  obtain ⟨sealed, sealedOk, rfl⟩ := map_eq_ok.mp ok
  have done := mapError_eq_ok.mp sealedOk
  cases sealed with
  | none => exact .inl ⟨rfl, rfl⟩
  | some pair => exact .inr ⟨pair.1, rfl, pair.2, done⟩

/-- A landed row reads its content exactly when it has no envelope or names the agent of the sealing. -/
theorem readContent_land_iff (correct : env.primitives.Correct) (separates : env.primitives.Separates)
    {coins : SealingCoins} {content id : String} {metadata : Json} {placed : Placed} {written : Store}
    {row : Memory} (ok : sealFor env coins content metadata = .ok placed) (isRow : row.id = id)
    (column : row.content = placed.content) :
    readContent env (db.land written id placed content) row = .ok content ↔
      (placed.encryptedEnvelope.isSome → agentIdOf row.metadata = agentIdOf metadata) := by
  unfold readContent
  rw [envelopes_land, if_pos isRow]
  rcases sealFor_ok ok with ⟨absent, plain⟩ | ⟨bytes, present, placeholder, sealed⟩
  · rw [absent]
    exact iff_of_true (congrArg Except.ok (column.trans plain)) nofun
  · rw [show placed.encryptedEnvelope = some bytes from present]
    constructor
    · exact fun opened _ => eq_of_openContent correct separates sealed opened
    · intro same
      dsimp only
      rw [same rfl]
      exact openContent_own correct sealed

/-- A landing keeps every row readable exactly when the landed row is. -/
theorem readable_land_iff (correct : env.primitives.Correct) (separates : env.primitives.Separates)
    (readable : Readable env db) {coins : SealingCoins} {content id : String} {metadata : Json} {placed : Placed}
    {written : Store} {row : Memory} (ok : sealFor env coins content metadata = .ok placed) (isRow : row.id = id)
    (column : row.content = placed.content)
    (lookups : ∀ query, written.memories.find query = if query = id then some row else db.memories.find query) :
    Readable env (db.land written id placed content) ↔
      (placed.encryptedEnvelope.isSome → agentIdOf row.metadata = agentIdOf metadata) := by
  have landed := @readContent_land_iff env db correct separates coins content id metadata placed written row ok
    isRow column
  rw [← landed]
  constructor
  · intro all
    have present : written.memories.find id = some row := (lookups id).trans (if_pos rfl)
    rw [all id row present, lastWritten_land, if_pos rfl]
  · intro own query other found
    replace found : written.memories.find query = some other := found
    rw [lookups] at found
    rw [lastWritten_land]
    by_cases isLanded : query = id
    · rw [if_pos isLanded] at found
      obtain rfl := Option.some.inj found
      rw [if_pos isLanded, own]
    · rw [if_neg isLanded] at found
      have sameId : other.id = query := ((db.memories.find_eq_some_iff _ _).mp found).2
      have before := readable query other found
      rw [readContent, sameId] at before
      rw [if_neg isLanded, readContent, envelopes_land, sameId, if_neg isLanded, before]

/-- A statement that leaves contents, envelopes and agents keeps every row readable. -/
theorem readable_of_same (readable : Readable env db) {after : Database}
    (same : ∀ id, ∀ row ∈ after.memories.find id, ∃ before ∈ db.memories.find id,
      row.content = before.content ∧ agentIdOf row.metadata = agentIdOf before.metadata) :
    Readable env { db with toDatabase := after } := by
  intro id row found
  obtain ⟨before, stored, content, agent⟩ := same id row found
  have sameId : row.id = before.id :=
    ((after.memories.find_eq_some_iff _ _).mp found).2.trans ((db.memories.find_eq_some_iff _ _).mp stored).2.symm
  have reads := readable id before stored
  rw [readContent] at reads ⊢
  rw [content, agent, sameId]
  exact reads

end Landing

section Upserts

variable {store written : Store} {row existing : Memory} {id : String}

/-- A plain insertion is found by its identifier. -/
theorem find_plainInsert {clash : StorageError} (ok : plainInsert store row clash = .ok (written, id)) :
    store.memories.findSlot (slotOf row) = none ∧ id = row.id ∧
      ∀ query, written.memories.find query = if query = id then some row else store.memories.find query := by
  obtain ⟨_, fresh, free, rfl, rfl⟩ := plainInsert_written ok
  exact ⟨free, rfl, KeyedTable.find_append _ _ fresh free⟩

/-- A successful upsert merges into the row of the slot, or appends a row of a new identifier. -/
theorem find_upsertStoreMerge (ok : upsertStoreMerge store row = .ok (written, id)) :
    (∃ existing, store.memories.findSlot (slotOf row) = some existing ∧ id = existing.id ∧
        checkConstraints row = none ∧ checkConstraints (storeMerge existing row) = none ∧
        ∀ query, written.memories.find query =
          if query = id then some (storeMerge existing row) else store.memories.find query) ∨
      (store.memories.findSlot (slotOf row) = none ∧ id = row.id ∧ ∀ query, written.memories.find query =
          if query = id then some row else store.memories.find query) := by
  obtain ⟨values, ⟨existing, noClash, found, rfl, merged, rfl⟩ | ⟨fresh, free, rfl, rfl⟩⟩ :=
    upsertStoreMerge_written ok
  · have stored : store.memories.find (storeMerge existing row).id = some existing := find_of_findSlot found
    exact .inl ⟨existing, found, rfl, values, merged, KeyedTable.find_replace_stored stored noClash⟩
  · exact .inr ⟨free, rfl, KeyedTable.find_append _ _ fresh free⟩

/-- The upsert into a taken slot fails on the values alone. -/
theorem upsertStoreMerge_taken (found : store.memories.findSlot (slotOf row) = some existing)
    (values : checkConstraints row = none) (merged : checkConstraints (storeMerge existing row) = none) :
    ∃ written, upsertStoreMerge store row = .ok (written, existing.id) := by
  unfold upsertStoreMerge
  rw [values]
  dsimp only
  split
  · rename_i free
    cases free.symm.trans found
  · rename_i other same
    obtain rfl := Option.some.inj (same.symm.trans found)
    rw [merged]
    exact ⟨_, rfl⟩

theorem constraints_of_upsertNewerWins (ok : upsertNewerWins store row = .ok (written, id))
    (found : store.memories.findSlot (slotOf row) = some existing) :
    checkConstraints row = none ∧ checkConstraints (newerWins existing row) = none := by
  obtain ⟨values, ⟨other, _, same, _, merged, _⟩ | ⟨_, free, _⟩⟩ := upsertNewerWins_written ok
  · obtain rfl := Option.some.inj (same.symm.trans found)
    exact ⟨values, merged⟩
  · cases free.symm.trans found

end Upserts

section Conditions

variable (env : SealingEnvironment) (db : SealedDatabase) (coins : SealingCoins)

/-- The sealing of the row yields an envelope. -/
def Seals (row : Memory) : Prop :=
  ∃ placed, sealFor env coins row.content row.metadata = .ok placed ∧ placed.encryptedEnvelope.isSome

/-- The metadata of the row names the agent or no agent. -/
def NamesOnly (row : Memory) (agentId : String) : Prop :=
  row.metadata.get "agent_id" = none ∨ agentIdOf row.metadata = agentId

/-- The gates of a writer let the row through. -/
def Admits (row : Memory) : Prop := db.recordStop = none ∧ env.governancePreWrite row = none

variable (row : Memory) (now : env.chrono.Instant)

/-- An admitted local row with a content of its own lands on no row of another agent. -/
def insertKeepsAgent : Prop :=
  let bound := boundRow env.toEnvironment now row
  ∀ existing ∈ db.memories.findSlot (slotOf bound), Admits env db row → Seals env coins bound →
    checkConstraints bound = none →
      checkConstraints (storeMerge existing (localRow env.toWriterEnvironment row now)) = none →
        NamesOnly existing (agentIdOf bound.metadata)

/-- An admitted inbound row with a content of its own wins over no row of another agent. -/
def newerKeepsAgent : Prop :=
  let bound := boundRow env.toEnvironment now row
  ∀ existing ∈ db.memories.findSlot (slotOf bound), Admits env db row → row.id ∉ db.forgetTombstones →
    Seals env coins bound → excludedWins existing bound = true → checkConstraints bound = none →
      checkConstraints (newerWins existing bound) = none → NamesOnly existing (agentIdOf bound.metadata)

end Conditions

section Inserts

variable {env : SealingEnvironment} {db : SealedDatabase} {coins : SealingCoins} {row : Memory}
  {now : env.chrono.Instant}

/-- An admitted row is sealed and upserted. -/
theorem insertSealed_admitted (admits : Admits env db row) :
    insertSealed env db coins row now =
      (let bound := boundRow env.toEnvironment now row
      sealFor env coins bound.content bound.metadata >>= fun placed =>
        ((upsertStoreMerge db.toStore
          { localRow env.toWriterEnvironment row now with content := placed.content }).mapError .storage) >>=
            fun landed => .ok (db.land landed.1 landed.2 placed bound.content)) := by
  unfold insertSealed gateStorageConn consultGovernancePreWrite
  rw [admits.1, admits.2]
  rfl

/-- A row that is not admitted is refused. -/
theorem insertSealed_refused (refused : ¬ Admits env db row) :
    ∃ error, insertSealed env db coins row now = .error error := by
  unfold insertSealed gateStorageConn consultGovernancePreWrite
  cases stopped : db.recordStop with
  | some stop => exact ⟨_, rfl⟩
  | none =>
      cases governed : env.governancePreWrite row with
      | some reason => exact ⟨_, rfl⟩
      | none => exact absurd ⟨stopped, governed⟩ refused

/-- The merged row keeps the agent of the sealing exactly when the stored row names no other one. -/
theorem agentIdOf_storeMerge_iff {existing : Memory} {content : String} :
    agentIdOf (storeMerge existing { localRow env.toWriterEnvironment row now with content := content }).metadata =
        agentIdOf (boundRow env.toEnvironment now row).metadata ↔
      NamesOnly existing (agentIdOf (boundRow env.toEnvironment now row).metadata) := by
  have stamped : agentIdOf (localRow env.toWriterEnvironment row now).metadata =
      agentIdOf (boundRow env.toEnvironment now row).metadata := agentIdOf_stampVersionVector _ _ _
  have merged := agentIdOf_provenance (localRow env.toWriterEnvironment row now).metadata existing.metadata
  rw [stamped] at merged
  rw [NamesOnly, storeMerge]
  dsimp only
  rw [merged]
  cases existing.metadata.get "agent_id" with
  | none => exact iff_of_true rfl (.inl rfl)
  | some value => simp

/-- An insertion keeps the contents readable exactly when it keeps the authors. -/
theorem readable_insertSealed_iff (correct : env.primitives.Correct) (separates : env.primitives.Separates)
    (readable : Readable env db) :
    insertKeepsAgent env db coins row now ↔
      ∀ written, insertSealed env db coins row now = .ok written → Readable env written := by
  unfold insertKeepsAgent
  by_cases admits : Admits env db row
  · rw [insertSealed_admitted admits]
    dsimp only
    constructor
    · intro keeps written ok
      obtain ⟨placed, sealed, rest⟩ := bind_eq_ok.mp ok
      obtain ⟨⟨store, id⟩, upserted, same⟩ := bind_eq_ok.mp rest
      obtain rfl := Except.ok.inj same
      rcases find_upsertStoreMerge (mapError_eq_ok.mp upserted) with
        ⟨existing, found, rfl, values, merged, lookups⟩ | ⟨_, rfl, lookups⟩
      · refine (readable_land_iff correct separates readable sealed (by rfl) (by rfl) lookups).mpr fun sealsIt => ?_
        exact agentIdOf_storeMerge_iff.mpr (keeps existing found admits ⟨placed, sealed, sealsIt⟩ values merged)
      · refine (readable_land_iff correct separates readable sealed (by rfl) (by rfl) lookups).mpr fun _ => ?_
        exact agentIdOf_stampVersionVector _ _ _
    · intro stays existing found _ sealsIt values merged
      obtain ⟨placed, sealed, isSealed⟩ := sealsIt
      obtain ⟨store, upserted⟩ := @upsertStoreMerge_taken db.toStore
        { localRow env.toWriterEnvironment row now with content := placed.content } existing found values merged
      have after := stays _ (bind_eq_ok.mpr ⟨placed, sealed, bind_eq_ok.mpr
        ⟨(store, existing.id), mapError_eq_ok.mpr upserted, rfl⟩⟩)
      rcases find_upsertStoreMerge upserted with ⟨other, otherFound, _, _, _, lookups⟩ | ⟨free, _, _⟩
      · obtain rfl := Option.some.inj (otherFound.symm.trans found)
        exact agentIdOf_storeMerge_iff.mp
          ((readable_land_iff correct separates readable sealed (by rfl) (by rfl) lookups).mp after isSealed)
      · cases free.symm.trans found
  · obtain ⟨error, refused⟩ := @insertSealed_refused env db coins row now admits
    rw [refused]
    exact iff_of_true (fun _ _ admitted => absurd admitted admits) nofun

/-- An admitted inbound copy is sealed and upserted unless it was forgotten. -/
theorem insertIfNewerSealed_admitted (admits : Admits env db row) :
    insertIfNewerSealed env db coins row now =
      if row.id ∈ db.forgetTombstones then .ok db
      else
        (let bound := boundRow env.toEnvironment now row
        sealFor env coins bound.content bound.metadata >>= fun placed =>
          ((upsertNewerWins db.toStore { bound with content := placed.content }).mapError
            fun error => .storage (.write error)) >>= fun landed =>
              .ok (landNewer db landed.1 landed.2 placed bound)) := by
  unfold insertIfNewerSealed gateStorageConn consultGovernancePreWrite
  rw [admits.1, admits.2]
  rfl

/-- An inbound copy that is not admitted is refused. -/
theorem insertIfNewerSealed_refused (refused : ¬ Admits env db row) :
    ∃ error, insertIfNewerSealed env db coins row now = .error error := by
  unfold insertIfNewerSealed gateStorageConn consultGovernancePreWrite
  cases stopped : db.recordStop with
  | some stop => exact ⟨_, rfl⟩
  | none =>
      cases governed : env.governancePreWrite row with
      | some reason => exact ⟨_, rfl⟩
      | none => exact absurd ⟨stopped, governed⟩ refused

/-- A winning row brings its content, and its agent where the stored row names no other one. -/
theorem newerWins_wins {existing bound : Memory} {content : String} (wins : excludedWins existing bound = true) :
    (newerWins existing { bound with content := content }).content = content ∧
      (agentIdOf (newerWins existing { bound with content := content }).metadata = agentIdOf bound.metadata ↔
        NamesOnly existing (agentIdOf bound.metadata)) := by
  have wins' : excludedWins existing { bound with content := content } = true := wins
  rw [NamesOnly, newerWins]
  dsimp only
  rw [wins', pick_true, pick_true, agentIdOf_provenance]
  refine ⟨rfl, ?_⟩
  cases existing.metadata.get "agent_id" with
  | none => exact iff_of_true rfl (.inl rfl)
  | some value => simp

/-- A losing row leaves the content and the agent of the stored row. -/
theorem newerWins_loses {existing bound : Memory} {content : String} (loses : excludedWins existing bound = false) :
    (newerWins existing { bound with content := content }).content = existing.content ∧
      agentIdOf (newerWins existing { bound with content := content }).metadata = agentIdOf existing.metadata := by
  have loses' : excludedWins existing { bound with content := content } = false := loses
  rw [newerWins]
  dsimp only
  rw [loses', pick_false, pick_false, agentIdOf_provenance]
  exact ⟨rfl, by split_ifs <;> rfl⟩

/-- An inbound copy keeps the contents readable exactly when it keeps the authors. -/
theorem readable_insertIfNewerSealed_iff (correct : env.primitives.Correct) (separates : env.primitives.Separates)
    (readable : Readable env db) :
    newerKeepsAgent env db coins row now ↔
      ∀ written, insertIfNewerSealed env db coins row now = .ok written → Readable env written := by
  unfold newerKeepsAgent
  by_cases admits : Admits env db row
  · rw [insertIfNewerSealed_admitted admits]
    by_cases forgotten : row.id ∈ db.forgetTombstones
    · rw [if_pos forgotten]
      exact iff_of_true (fun _ _ _ fresh => absurd forgotten fresh) fun written same => Except.ok.inj same ▸ readable
    rw [if_neg forgotten]
    dsimp only
    constructor
    · intro keeps written ok
      obtain ⟨placed, sealed, rest⟩ := bind_eq_ok.mp ok
      obtain ⟨⟨store, id⟩, upserted, same⟩ := bind_eq_ok.mp rest
      obtain rfl := Except.ok.inj same
      rw [landNewer]
      rcases find_upsertNewerWins (mapError_eq_ok.mp upserted) with
        ⟨existing, found, rfl, lookups⟩ | ⟨free, _, rfl, lookups⟩
      · rw [show db.memories.findSlot (slotOf (boundRow env.toEnvironment now row)) = some existing from found]
        dsimp only
        cases wins : excludedWins existing (boundRow env.toEnvironment now row) with
        | true =>
            rw [if_pos rfl]
            obtain ⟨content, agent⟩ := @newerWins_wins existing _ placed.content wins
            refine (readable_land_iff correct separates readable sealed (by rfl) content lookups).mpr fun sealsIt => ?_
            obtain ⟨values, merged⟩ := constraints_of_upsertNewerWins (mapError_eq_ok.mp upserted) found
            exact agent.mpr (keeps existing found admits forgotten ⟨placed, sealed, sealsIt⟩ wins values merged)
        | false =>
            rw [if_neg Bool.false_ne_true]
            have stored := find_of_findSlot found
            refine readable_of_same readable fun query other present => ?_
            replace present : store.memories.find query = some other := present
            rw [lookups] at present
            by_cases isRow : query = existing.id
            · rw [if_pos isRow] at present
              obtain rfl := Option.some.inj present
              exact ⟨existing, isRow ▸ stored, newerWins_loses wins⟩
            · rw [if_neg isRow] at present
              exact ⟨other, present, rfl, rfl⟩
      · rw [show db.memories.findSlot (slotOf (boundRow env.toEnvironment now row)) = none from free]
        exact (readable_land_iff correct separates readable sealed (by rfl) (by rfl) lookups).mpr fun _ => rfl
    · intro stays existing found _ _ sealsIt wins values merged
      obtain ⟨placed, sealed, isSealed⟩ := sealsIt
      obtain ⟨content, agent⟩ := @newerWins_wins existing _ placed.content wins
      obtain ⟨noClash, upserted⟩ := @upsertNewerWins_taken db.toStore existing
        { boundRow env.toEnvironment now row with content := placed.content } values found merged
      have after := stays _ (bind_eq_ok.mpr ⟨placed, sealed, bind_eq_ok.mpr
        ⟨(_, existing.id), mapError_eq_ok.mpr upserted, rfl⟩⟩)
      rw [landNewer, show db.memories.findSlot (slotOf (boundRow env.toEnvironment now row)) = some existing from
        found] at after
      dsimp only at after
      rw [if_pos wins] at after
      rcases find_upsertNewerWins upserted with ⟨other, otherFound, _, lookups⟩ | ⟨free, _⟩
      · obtain rfl := Option.some.inj (otherFound.symm.trans found)
        exact agent.mp
          ((readable_land_iff correct separates readable sealed (by rfl) content lookups).mp after isSealed)
      · cases free.symm.trans found
  · obtain ⟨error, refused⟩ := @insertIfNewerSealed_refused env db coins row now admits
    rw [refused]
    exact iff_of_true (fun _ _ admitted => absurd admitted admits) nofun

end Inserts

section Changes

variable {env : SealingEnvironment} {db written : SealedDatabase} {coins : SealingCoins} {row : Memory}
  {now : env.chrono.Instant}

/-- The error policy lands on a free slot. -/
theorem readable_insertError (correct : env.primitives.Correct) (separates : env.primitives.Separates)
    (readable : Readable env db) (ok : insertWithConflictSealed env db coins row now .error = .ok written) :
    Readable env written := by
  obtain ⟨_, _, running⟩ := bind_eq_ok.mp ok
  obtain ⟨_, _, ungoverned⟩ := bind_eq_ok.mp running
  split at ungoverned
  · contradiction
  · obtain ⟨placed, sealed, rest⟩ := bind_eq_ok.mp ungoverned
    obtain ⟨⟨store, id⟩, inserted, same⟩ := bind_eq_ok.mp rest
    obtain rfl := Except.ok.inj same
    obtain ⟨_, rfl, lookups⟩ := find_plainInsert (mapError_eq_ok.mp inserted)
    exact (readable_land_iff correct separates readable sealed (by rfl) (by rfl) lookups).mpr fun _ => rfl

theorem id_rowToMemory {stored existing : Memory} (read : rowToMemory env db stored = .ok existing) :
    existing.id = stored.id := by
  obtain ⟨content, _, rfl⟩ := map_eq_ok.mp read
  rfl

/-- A merge into a readable row seals the merged content and overwrites the row. -/
theorem mergeInboundSealed_stored {skewSecs : Int} {stored : Memory} (found : db.memories.find row.id = some stored)
    (ok : mergeInboundSealed env db coins row now skewSecs = .ok written) :
    ∃ existing placed store, rowToMemory env db stored = .ok existing ∧
      let merged := mergeMemory existing (prepareInbound env.chrono row (env.chrono.toRfc3339 now) skewSecs)
      db.memories.find merged.id = some stored ∧ sealFor env coins merged.content merged.metadata = .ok placed ∧
        overwriteFullRowById env.toEnvironment db.toStore { merged with content := placed.content } now = .ok store ∧
        written = db.land store merged.id placed merged.content := by
  unfold mergeInboundSealed at ok
  rw [found] at ok
  dsimp only at ok
  obtain ⟨existing, read, rest⟩ := bind_eq_ok.mp ok
  obtain ⟨placed, sealed, placing⟩ := bind_eq_ok.mp rest
  obtain ⟨store, overwritten, same⟩ := bind_eq_ok.mp placing
  have readOk := mapError_eq_ok.mp read
  have sameId := ((db.memories.find_eq_some_iff _ _).mp found).2
  refine ⟨existing, placed, store, readOk, ?_, sealed, mapError_eq_ok.mp overwritten, (Except.ok.inj same).symm⟩
  rw [mergeMemory_id, id_rowToMemory readOk, sameId, found]

/-- The merged row is sealed to the agent of its own metadata. -/
theorem readable_mergeStored (correct : env.primitives.Correct) (separates : env.primitives.Separates)
    (readable : Readable env db) {skewSecs : Int} {stored : Memory}
    (found : db.memories.find row.id = some stored)
    (ok : mergeInboundSealed env db coins row now skewSecs = .ok written) : Readable env written := by
  obtain ⟨existing, placed, store, _, here, sealed, overwritten, rfl⟩ := mergeInboundSealed_stored found ok
  generalize mergeMemory existing (prepareInbound env.chrono row (env.chrono.toRfc3339 now) skewSecs) = merged at *
  have lookups := @find_overwriteFullRowById env.toEnvironment db.toStore store
    { merged with content := placed.content } now stored here overwritten
  exact (readable_land_iff correct separates readable sealed (by rfl) (by rfl) lookups).mpr fun _ => rfl

/-- The updated row is sealed to the agent of its new metadata. -/
theorem readable_updateSealed (correct : env.primitives.Correct) (separates : env.primitives.Separates)
    (readable : Readable env db) {id : String} {patch : Patch} {expectedVersion : Option Int}
    (ok : updateSealed env db id now patch expectedVersion coins = .ok written) : Readable env written := by
  obtain ⟨_, _, running⟩ := bind_eq_ok.mp ok
  split at running
  · exact Except.ok.inj running ▸ readable
  · rename_i stored found
    have sameId := ((db.memories.find_eq_some_iff _ _).mp found).2
    split at running
    · exact Except.ok.inj running ▸ readable
    · rename_i existing read
      split at running
      · contradiction
      · obtain ⟨_, _, ungoverned⟩ := bind_eq_ok.mp running
        obtain ⟨placed, sealed, committed⟩ := bind_eq_ok.mp ungoverned
        obtain ⟨noClash, rfl⟩ := commitSealed_eq_ok committed
        obtain rfl : stored.id = id := sameId
        have lookups := KeyedTable.find_replace_stored (by exact found) noClash
        refine (readable_land_iff correct separates readable sealed ?_ ?_ lookups).mpr fun _ => ?_
        · rfl
        · rfl
        · rfl

/-- The marks of a contradiction change no content, no envelope and no agent. -/
theorem readable_conserveSealed (readable : Readable env db) {loserId winnerId : String}
    (ok : conserveSealed env db now loserId winnerId = .ok written) : Readable env written := by
  unfold conserveSealed at ok
  split at ok
  · exact Except.ok.inj ok ▸ readable
  · rename_i stored found
    obtain ⟨_, _, rest⟩ := bind_eq_ok.mp ok
    obtain ⟨conserved, conserving, same⟩ := bind_eq_ok.mp rest
    obtain rfl := Except.ok.inj same
    refine readable_of_same readable fun id row present => ?_
    rcases conserveContradiction_stores (mapError_eq_ok.mp conserving) with same | ⟨current, currentFound, same⟩
    · exact ⟨row, same ▸ present, rfl, rfl⟩
    · rw [show conserved.memories = (markedStore db.toStore loserId current.metadata winnerId).memories by rw [same],
        markedStore, find_rewriteRow] at present
      obtain ⟨before, stored, rfl⟩ := Option.map_eq_some_iff.mp present
      refine ⟨before, stored, ?_⟩
      by_cases isLoser : id = loserId
      · subst isLoser
        obtain rfl := Option.some.inj (stored.symm.trans currentFound)
        rw [if_pos rfl]
        exact ⟨rfl, agentIdOf_contradictionMarked _ _⟩
      · rw [if_neg isLoser]
        exact ⟨rfl, rfl⟩

end Changes

section Calls

variable {env : SealingEnvironment} {db : SealedDatabase} {row : Memory} {coins : SealingCoins}
  {now : env.chrono.Instant}

/-- Where a row with a content of its own lands on a stored row, the stored row names no other agent. -/
def SealedCall.KeepsAgent (env : SealingEnvironment) (db : SealedDatabase) : SealedCall env → Prop
  | .insert row now coins => insertKeepsAgent env db coins row now
  | .insertWithConflict row mode now coins =>
      match mode with
      | .error => True
      | .merge => insertKeepsAgent env db coins row now
      | .version => ∀ title, nextVersionedTitle db.toStore row.title row.namespace = .ok title →
          insertKeepsAgent env db coins { row with title := title } now
  | .insertIfNewer row now coins => newerKeepsAgent env db coins row now
  | .mergeInbound row now _ coins => db.memories.find row.id = none → newerKeepsAgent env db coins row now
  | .update .. => True
  | .conserveContradiction .. => True

/-- The first gate of the policies is the first gate of the insertion. -/
theorem insertWithConflictSealed_merge :
    insertWithConflictSealed env db coins row now .merge = insertSealed env db coins row now := by
  unfold insertWithConflictSealed insertSealed gateStorageConn
  cases db.recordStop with
  | some stop => rfl
  | none => rfl

/-- A versioned insertion takes the next free title. -/
theorem insertWithConflictSealed_version :
    insertWithConflictSealed env db coins row now .version =
      (do
        (gateStorageConn db.toStore).mapError SealedError.storage
        let title ← (nextVersionedTitle db.toStore row.title row.namespace).mapError SealedError.storage
        insertSealed env db coins { row with title := title } now) := rfl

/-- A versioned insertion keeps the contents readable exactly when it keeps the author under the free title. -/
theorem readable_insertVersion_iff (correct : env.primitives.Correct) (separates : env.primitives.Separates)
    (readable : Readable env db) :
    (∀ title, nextVersionedTitle db.toStore row.title row.namespace = .ok title →
        insertKeepsAgent env db coins { row with title := title } now) ↔
      ∀ written, insertWithConflictSealed env db coins row now .version = .ok written → Readable env written := by
  rw [insertWithConflictSealed_version]
  constructor
  · intro keeps written ok
    obtain ⟨_, _, running⟩ := bind_eq_ok.mp ok
    obtain ⟨title, free, inserted⟩ := bind_eq_ok.mp running
    exact (readable_insertSealed_iff correct separates readable).mp (keeps title (mapError_eq_ok.mp free)) written
      inserted
  · intro stays title free
    refine (readable_insertSealed_iff correct separates readable).mpr fun written inserted => ?_
    have running : (gateStorageConn db.toStore).mapError SealedError.storage = .ok () := by
      obtain ⟨gated, isGated, _⟩ := bind_eq_ok.mp inserted
      exact isGated
    exact stays written (bind_eq_ok.mpr ⟨(), running, bind_eq_ok.mpr ⟨title, mapError_eq_ok.mpr free, inserted⟩⟩)

/-- One call keeps every row readable exactly when it keeps the agents. -/
theorem readable_answer_iff (correct : env.primitives.Correct) (separates : env.primitives.Separates)
    (readable : Readable env db) (call : SealedCall env) :
    call.KeepsAgent env db ↔ ∀ written, call.answer env db = .ok written → Readable env written := by
  cases call with
  | insert row now coins => exact readable_insertSealed_iff correct separates readable
  | insertWithConflict row mode now coins =>
      cases mode with
      | error => exact iff_of_true trivial fun written => readable_insertError correct separates readable
      | merge =>
          rw [SealedCall.answer, insertWithConflictSealed_merge]
          exact readable_insertSealed_iff correct separates readable
      | version => exact readable_insertVersion_iff correct separates readable
  | insertIfNewer row now coins => exact readable_insertIfNewerSealed_iff correct separates readable
  | mergeInbound row now skewSecs coins =>
      cases found : db.memories.find row.id with
      | some stored =>
          refine iff_of_true (fun absent => ?_) fun written => readable_mergeStored correct separates readable found
          cases found.symm.trans absent
      | none =>
          have answers : (SealedCall.mergeInbound row now skewSecs coins).answer env db =
              insertIfNewerSealed env db coins row now := by
            rw [SealedCall.answer, mergeInboundSealed, found]
          rw [answers, ← readable_insertIfNewerSealed_iff correct separates readable]
          exact forall_prop_of_true found
  | update id patch expectedVersion now coins =>
      exact iff_of_true trivial fun written => readable_updateSealed correct separates readable
  | conserveContradiction loserId winnerId now =>
      exact iff_of_true trivial fun written => readable_conserveSealed readable

/-- A call keeps the contents readable exactly when it keeps the authors. -/
theorem readable_next_iff (correct : env.primitives.Correct) (separates : env.primitives.Separates)
    (readable : Readable env db) (call : SealedCall env) :
    call.KeepsAgent env db ↔ Readable env (db.next env call) := by
  rw [readable_answer_iff correct separates readable, SealedDatabase.next]
  cases call.answer env db with
  | ok written => exact ⟨fun all => all written rfl, fun now other same => Except.ok.inj same ▸ now⟩
  | error failure => exact iff_of_true nofun readable

end Calls

section Runs

variable (env : SealingEnvironment)

/-- Every row stays readable over a run exactly when every call of the run keeps the agents. -/
theorem always_readable_iff (correct : env.primitives.Correct) (separates : env.primitives.Separates)
    (db : SealedDatabase) (calls : List (SealedCall env)) (readable : Readable env db) :
    EveryStep (SealedDatabase.next env) (SealedCall.KeepsAgent env) db calls ↔
      ∀ taken rest, calls = taken ++ rest → Readable env (run (SealedDatabase.next env) db taken) :=
  @EveryStep.iff_reached _ _ (SealedDatabase.next env) (SealedCall.KeepsAgent env) (fun _ _ => True) (fun _ => True)
    (Readable env) (fun _ _ _ _ => trivial)
    (fun _ call _ _ readable => readable_next_iff correct separates readable call) db calls
    (EveryStep.of_forall (fun _ _ => trivial) db calls) trivial readable

end Runs

section Samples

/-- One entry of the cipher. -/
structure SealEntry where
  key : Digest
  nonce : NonceBytes
  aad : Bytes
  msg : Bytes
  ciphertext : Bytes
  deriving DecidableEq

def nonceOf (number : Nat) : NonceBytes := ⟨beBytes 12 number, length_beBytes 12 number⟩

def aliceSecret : Digest := digestOf 0xf7da79ccec35ff820ea0809941e93528887601f933aa6ab64204e0d75a532e6b
def bobSecret : Digest := digestOf 0xd5d6150932854ce258ede63136de5c668933f6b1dc0d740af6dd154eb9cd6c32

def firstCoins : SealingCoins where
  dek := digestOf 0xd011012bfb6137c05d2d77dfdeefd026bc6a8155f6f1a414e87bfe627436021f
  innerNonce := nonceOf 0x426f683625529b85a233583c
  ephemeralSecret := digestOf 0x18934ad92afac35e75294ee20e56a36f0666a3031aee54495c382d0cf9654ec6
  wrapNonce := nonceOf 0x6b20886926c6d7bbd2a58caf

def secondCoins : SealingCoins where
  dek := digestOf 0x39b6d638d1a568ba7b877aa4ab107afd1eb6348bf368d3601ef61d37d94bdb1d
  innerNonce := nonceOf 0x6230f8f7562c8843d53528d6
  ephemeralSecret := digestOf 0x17956a2153b6d04cb3bde7cc6be841b705c319034a9f967c902f5506c89dbcb8
  wrapNonce := nonceOf 0xeb631b04ee4ac1c545526120

def keyEntry {Key : Type} [DecidableEq Key] (table : List (Key × Digest)) (key : Key) : Digest :=
  ((table.find? fun entry => entry.1 = key).map Prod.snd).getD (digestOf 0)

def publicKeys : List (Digest × Digest) :=
  [(aliceSecret, digestOf 0x7f33afe9c4af307d69cc5392893beb66309d404d5a6448786367b9344bf36024),
    (bobSecret, digestOf 0xd6784bfb36d12f42c930b487bf7978cb01c283fb9d039453370694d64b818077),
    (firstCoins.ephemeralSecret, digestOf 0x90b82a96fdb3c8949a357ae085528582c2387c598809493cfd8b0edd9330a10c),
    (secondCoins.ephemeralSecret, digestOf 0x692933d2bf1b6105560542d01bce62bfe726e59db15245d4763f4c8171ffe560)]

/-- Each agent shares one secret with each ephemeral key. -/
def exchanges : List ((Digest × Digest) × Digest) :=
  [(aliceSecret, firstCoins.ephemeralSecret, 0xbc065598d3256cbf76da1c9e0ee6e1b438f7a3bebbb440ba4703d4304eea490c),
    (bobSecret, firstCoins.ephemeralSecret, 0x66b4e8d2cb1ce84f3ec2f98faca0db65535edc10675b93f5082a9c1dcf709009),
    (aliceSecret, secondCoins.ephemeralSecret, 0x13366db67961b8a1cbf6af810db56c5ad811b00d3bbf0fe1cd70d9b18a22a708),
    (bobSecret, secondCoins.ephemeralSecret, 0x2e734f41a08002c3d3c48e610756c1e74748c96f3f3ffa0a621e7590c72e9d38)
    ].flatMap fun (secret, ephemeral, shared) =>
      [((secret, keyEntry publicKeys ephemeral), digestOf shared),
        ((ephemeral, keyEntry publicKeys secret), digestOf shared)]

def derivedKeys : List (Digest × Digest) :=
  [(0xbc065598d3256cbf76da1c9e0ee6e1b438f7a3bebbb440ba4703d4304eea490c,
      0x8afe51dd42b4dbe87018f48209d222ed21328eb321986239377b9bb5177ec736),
    (0x66b4e8d2cb1ce84f3ec2f98faca0db65535edc10675b93f5082a9c1dcf709009,
      0x9c567967a7d83ad4625adb94af2340240243184b22372876ab92fc277cb348dc),
    (0x13366db67961b8a1cbf6af810db56c5ad811b00d3bbf0fe1cd70d9b18a22a708,
      0x4cd067b9fa1c5250621abf539a13030a877aa7310aa3de92f814bea33b0cc6af),
    (0x2e734f41a08002c3d3c48e610756c1e74748c96f3f3ffa0a621e7590c72e9d38,
      0xb8aa79555d76e7c4203cea3fe017062d04820f9fd63bbe67685ebdb0867603de)].map
        fun (shared, key) => (digestOf shared, digestOf key)

/-- The key that the tables derive for one ephemeral key and one agent. -/
def tableKey (ephemeralSecret secret : Digest) : Digest :=
  keyEntry derivedKeys (keyEntry exchanges (ephemeralSecret, keyEntry publicKeys secret))

/-- The key of a record is wrapped for an agent. -/
def wrapEntry (coins : SealingCoins) (secret : Digest) (ciphertext : Nat) : SealEntry :=
  ⟨tableKey coins.ephemeralSecret secret, coins.wrapNonce,
    envelopeAad (keyEntry publicKeys coins.ephemeralSecret), coins.dek.1, beBytes 48 ciphertext⟩

def sealEntries : List SealEntry :=
  [⟨firstCoins.dek, firstCoins.innerNonce, recordInnerAad, utf8 "alpha",
      beBytes 21 0x66aa7822f372e67cc3b78ed2cca685393c66542d7e⟩,
    ⟨secondCoins.dek, secondCoins.innerNonce, recordInnerAad, utf8 "beta",
      beBytes 20 0x7169ef5c2cf67758e080e421e3a0daab4e2d284c⟩,
    wrapEntry firstCoins aliceSecret
      0xaeaefe8ca874aa3ee71f48d15c53c8a8b09a3e026c87afd723a3059ceddde409d5e135455de2c2457ab00b469314a227,
    wrapEntry secondCoins aliceSecret
      0xf23b11aabecff397ae4f0c1b0b83682fe98e1c968e1dba58bafcb5570b87ed783d0b1be68b688b765fbb25e0fd47c782,
    wrapEntry secondCoins bobSecret
      0x4a4064e30ba71ce685069bf3f9f06c9cb1e040f017f7b0f5f3bbb8e9408c1fc107905fb7716ace14915bc651cb201054]

/-- The tables hold what the libraries compute for the sealings of two agents. -/
def tablePrimitives : Primitives where
  encryptionEnabled := true
  publicKey := keyEntry publicKeys
  diffieHellman secret peer := keyEntry exchanges (secret, peer)
  hkdfSha256 shared info := if info = hkdfInfo then keyEntry derivedKeys shared else digestOf 0
  chachaEncrypt key nonce aad msg := (sealEntries.find? fun entry =>
    entry.key = key ∧ entry.nonce = nonce ∧ entry.aad = aad ∧ entry.msg = msg).map SealEntry.ciphertext
  chachaDecrypt key nonce aad ciphertext := (sealEntries.find? fun entry =>
    entry.key = key ∧ entry.nonce = nonce ∧ entry.aad = aad ∧ entry.ciphertext = ciphertext).map SealEntry.msg
  getOrCreateKeypair agentId :=
    if agentId = "ai:alice" then some aliceSecret else if agentId = "ai:bob" then some bobSecret else none

theorem keyEntry_absent {Key : Type} [DecidableEq Key] {table : List (Key × Digest)} {key : Key}
    (absent : ∀ entry ∈ table, entry.1 ≠ key) : keyEntry table key = digestOf 0 := by
  have unfound : table.find? (fun entry => entry.1 = key) = none :=
    List.find?_eq_none.mpr fun entry present => by simpa using absent entry present
  rw [keyEntry, unfound]
  rfl

section Table

variable {key : Digest} {nonce : NonceBytes} {aad msg ciphertext : Bytes}

theorem mem_of_encrypted (ok : tablePrimitives.chachaEncrypt key nonce aad msg = some ciphertext) :
    (⟨key, nonce, aad, msg, ciphertext⟩ : SealEntry) ∈ sealEntries := by
  obtain ⟨entry, found, rfl⟩ := Option.map_eq_some_iff.mp ok
  have matched := List.find?_some found
  obtain ⟨rfl, rfl, rfl, rfl⟩ := of_decide_eq_true matched
  exact List.mem_of_find?_eq_some found

theorem mem_of_decrypted (ok : tablePrimitives.chachaDecrypt key nonce aad ciphertext = some msg) :
    (⟨key, nonce, aad, msg, ciphertext⟩ : SealEntry) ∈ sealEntries := by
  obtain ⟨entry, found, rfl⟩ := Option.map_eq_some_iff.mp ok
  have matched := List.find?_some found
  obtain ⟨rfl, rfl, rfl, rfl⟩ := of_decide_eq_true matched
  exact List.mem_of_find?_eq_some found

end Table

def knownSecrets : List Digest := publicKeys.map Prod.fst

/-- The entries of the tables fit together. -/
theorem tables_fit :
    (∀ entry ∈ sealEntries, tablePrimitives.chachaDecrypt entry.key entry.nonce entry.aad entry.ciphertext =
        some entry.msg ∧ entry.ciphertext.length = entry.msg.length + tagLen ∧ entry.key ≠ digestOf 0 ∧
          ∀ other ∈ sealEntries, other.nonce = entry.nonce → other.aad = entry.aad →
            other.ciphertext = entry.ciphertext → other.key = entry.key) ∧
      (∀ entry ∈ exchanges, entry.1.1 ∈ knownSecrets ∧ entry.1.2 ≠ digestOf 0) ∧
      (∀ entry ∈ derivedKeys, entry.1 ≠ digestOf 0) ∧
      (∀ ephemeral ∈ knownSecrets, ∀ secret ∈ [aliceSecret, bobSecret],
        keyEntry exchanges (secret, keyEntry publicKeys ephemeral) =
          keyEntry exchanges (ephemeral, keyEntry publicKeys secret)) ∧
      (∀ ephemeral ∈ knownSecrets, tableKey ephemeral aliceSecret = tableKey ephemeral bobSecret →
        tableKey ephemeral aliceSecret = digestOf 0) := by
  decide +kernel

theorem keypairs {agentId : String} {secret : Digest} (found : secret ∈ tablePrimitives.getOrCreateKeypair agentId) :
    agentId = "ai:alice" ∧ secret = aliceSecret ∨ agentId = "ai:bob" ∧ secret = bobSecret := by
  replace found : (if agentId = "ai:alice" then some aliceSecret
    else if agentId = "ai:bob" then some bobSecret else none) = some secret := found
  split_ifs at found with alice bob
  · exact .inl ⟨alice, (Option.some.inj found).symm⟩
  · exact .inr ⟨bob, (Option.some.inj found).symm⟩

/-- A key outside the tables shares nothing with anyone. -/
theorem exchange_unknown {ephemeral : Digest} (unknown : ephemeral ∉ knownSecrets) :
    keyEntry publicKeys ephemeral = digestOf 0 ∧ ∀ peer, keyEntry exchanges (ephemeral, peer) = digestOf 0 ∧
      ∀ secret, keyEntry exchanges (secret, digestOf 0) = digestOf 0 := by
  refine ⟨keyEntry_absent fun entry present same => ?_, fun peer => ⟨keyEntry_absent fun entry present same => ?_,
    fun secret => keyEntry_absent fun entry present same => ?_⟩⟩
  · exact unknown (List.mem_map.mpr ⟨entry, present, same⟩)
  · have first : entry.1.1 = ephemeral := congrArg Prod.fst same
    exact unknown (first ▸ (tables_fit.2.1 entry present).1)
  · exact (tables_fit.2.1 entry present).2 (congrArg Prod.snd same)

theorem tablePrimitives_agrees {agentId : String} {secret : Digest}
    (found : secret ∈ tablePrimitives.getOrCreateKeypair agentId) (ephemeral : Digest) :
    keyEntry exchanges (secret, keyEntry publicKeys ephemeral) =
      keyEntry exchanges (ephemeral, keyEntry publicKeys secret) := by
  by_cases known : ephemeral ∈ knownSecrets
  · refine tables_fit.2.2.2.1 ephemeral known secret ?_
    rcases keypairs found with ⟨_, rfl⟩ | ⟨_, rfl⟩
    · exact List.mem_cons_self
    · exact List.mem_cons_of_mem _ List.mem_cons_self
  · obtain ⟨noKey, shares⟩ := exchange_unknown known
    rw [noKey, (shares _).1, (shares (digestOf 0)).2]

/-- The sample primitives decrypt what they encrypt. -/
theorem tablePrimitives_correct : tablePrimitives.Correct where
  opens _ _ _ _ _ ok := (tables_fit.1 _ (mem_of_encrypted ok)).1
  tags _ _ _ _ _ ok := (tables_fit.1 _ (mem_of_encrypted ok)).2.1
  agrees _ _ found ephemeral := tablePrimitives_agrees found ephemeral

theorem wrapKey_table (ephemeral secret : Digest) :
    wrapKey tablePrimitives ephemeral secret = tableKey ephemeral secret := by
  show (if hkdfInfo = hkdfInfo then tableKey ephemeral secret else digestOf 0) = tableKey ephemeral secret
  exact if_pos rfl

theorem tableKey_zero {ephemeral secret : Digest} (unknown : ephemeral ∉ knownSecrets) :
    tableKey ephemeral secret = digestOf 0 := by
  rw [tableKey, ((exchange_unknown unknown).2 _).1]
  exact keyEntry_absent tables_fit.2.2.1

/-- The sample primitives fail under every other key. -/
theorem tablePrimitives_separates : tablePrimitives.Separates := by
  intro agentId otherId secret found other otherFound ephemeral nonce msg ciphertext ok opened
  obtain ⟨plaintext, decrypted⟩ := Option.isSome_iff_exists.mp opened
  have here := mem_of_encrypted ok
  have there := mem_of_decrypted decrypted
  have sameKey : tableKey ephemeral other = tableKey ephemeral secret := by
    rw [← wrapKey_table, ← wrapKey_table, wrapKey, wrapKey, ← tablePrimitives_correct.agrees otherId other otherFound]
    exact (tables_fit.1 _ here).2.2.2 _ there rfl rfl rfl
  have nonzero : tableKey ephemeral secret ≠ digestOf 0 := by
    rw [← wrapKey_table]
    exact (tables_fit.1 _ here).2.2.1
  have known : ephemeral ∈ knownSecrets := by
    by_contra unknown
    exact nonzero (tableKey_zero unknown)
  rcases keypairs found with ⟨rfl, rfl⟩ | ⟨rfl, rfl⟩ <;> rcases keypairs otherFound with ⟨rfl, rfl⟩ | ⟨rfl, rfl⟩
  · rfl
  · exact absurd (tables_fit.2.2.2.2 ephemeral known sameKey.symm) nonzero
  · exact absurd (tables_fit.2.2.2.2 ephemeral known sameKey) (sameKey ▸ nonzero)
  · rfl

def sealingEnvironment : SealingEnvironment where
  toWriterEnvironment := openWriterEnvironment
  primitives := tablePrimitives

def blankDatabase : SealedDatabase where
  toStore := emptyStore
  memoryLinks := []
  archivedMemoryLinks := []
  namespaceMeta := []
  atomOf _ := none
  archivedAtomOf _ := none
  envelopes _ := none
  lastWritten _ := ""

/-- Both agents write to one title. -/
def agentRow (id agentId content : String) : Memory :=
  { Memory.base id "2026-06-16T10:05:00+00:00" with
    content := content
    expiresAt := some "2026-07-16"
    metadata := Json.empty.insert "agent_id" (.string agentId) }

def firstInsert : SealedCall sealingEnvironment :=
  .insert (agentRow "a-id" "ai:alice" "alpha") (0 : Int) firstCoins

def secondInsert (agentId : String) : SealedCall sealingEnvironment :=
  .insert (agentRow "b-id" agentId "beta") (0 : Int) secondCoins

theorem blankDatabase_readable : Readable sealingEnvironment blankDatabase :=
  fun _ _ found => absurd found (Option.not_mem_none _)

/-- The run of two insertions, the second one by the given agent. -/
def afterInserts (agentId : String) : SealedDatabase :=
  run (SealedDatabase.next sealingEnvironment) blankDatabase [firstInsert, secondInsert agentId]

/-- Alice reads what she wrote twice, and nobody reads what Bob writes over her row. -/
theorem afterInserts_reads :
    (∀ existing ∈ (blankDatabase.next sealingEnvironment firstInsert).memories.findSlot ("t", "ns"),
      agentIdOf existing.metadata = agentIdOf (boundRow sealingEnvironment.toEnvironment (0 : Int)
        (agentRow "b-id" "ai:alice" "beta")).metadata) ∧
    ((afterInserts "ai:alice").memories.find "a-id").map (readContent sealingEnvironment (afterInserts "ai:alice")) =
      some (.ok "beta") ∧
    ((afterInserts "ai:bob").memories.find "a-id").map (readContent sealingEnvironment (afterInserts "ai:bob")) =
      some (.error .decryptFailed) ∧
    ((afterInserts "ai:bob").memories.find "a-id").map (agentIdOf ·.metadata) = some "ai:alice" ∧
    (afterInserts "ai:bob").lastWritten "a-id" = "beta" := by
  decide +kernel

/-- Alice may write over her own row. -/
theorem aliceTwice_readable :
    Readable sealingEnvironment (afterInserts "ai:alice") ∧
      ((afterInserts "ai:alice").memories.find "a-id").map
        (readContent sealingEnvironment (afterInserts "ai:alice")) = some (.ok "beta") := by
  refine ⟨(always_readable_iff sealingEnvironment tablePrimitives_correct tablePrimitives_separates blankDatabase
    [firstInsert, secondInsert "ai:alice"] blankDatabase_readable).mp ⟨?_, ?_, trivial⟩ _ [] rfl,
    afterInserts_reads.2.1⟩
  · exact fun existing found => absurd found (Option.not_mem_none _)
  · exact fun existing found _ _ _ _ => .inr (afterInserts_reads.1 existing found)

/-- The row of Alice holds what Bob wrote to it, sealed to Bob. -/
theorem bobOverwrites_unreadable :
    tablePrimitives.Correct ∧ tablePrimitives.Separates ∧ Readable sealingEnvironment blankDatabase ∧
      ((afterInserts "ai:bob").memories.find "a-id").map (agentIdOf ·.metadata) = some "ai:alice" ∧
      (afterInserts "ai:bob").lastWritten "a-id" = "beta" ∧
      ((afterInserts "ai:bob").memories.find "a-id").map (readContent sealingEnvironment (afterInserts "ai:bob")) =
        some (.error .decryptFailed) ∧
      ¬ Readable sealingEnvironment (afterInserts "ai:bob") := by
  obtain ⟨_, _, failing, agent, written⟩ := afterInserts_reads
  refine ⟨tablePrimitives_correct, tablePrimitives_separates, blankDatabase_readable, agent, written, failing,
    fun readable => ?_⟩
  obtain ⟨row, found, failed⟩ := Option.map_eq_some_iff.mp failing
  exact absurd (failed.symm.trans (readable "a-id" row found)) nofun

end Samples
end AiMemory.Storage
