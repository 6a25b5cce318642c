import AiMemory.Storage.Erasure

/-
This file says what the archives and the erasures do to each record.
-/

namespace AiMemory.Storage
open AiMemory.Crdt AiMemory.Encryption AiMemory.Library AiMemory.Machine

section View

/-- The stored columns hold a key that an erasure could destroy. -/
def hasKey (placed : Placed) : Bool := placed.encryptedEnvelope.any envelopeIsCryptoErasable

variable (db : ErasureDatabase) (id : String)

def liveColumns : Option Placed := (db.memories.find id).map fun row => ⟨row.content, db.envelopes id⟩

def archivedColumns : Option Placed :=
  (db.archivedMemories.find? fun entry => entry.row.id = id).map fun entry =>
    ⟨entry.row.content, db.archivedEnvelopes id⟩

/-- What the tables hold of one identifier. -/
def custody : Custody Placed where
  live := liveColumns db id
  copy := archivedColumns db id
  queued := db.federationPushDlq.any fun push => push.memoryId = id
  keyDestroyed := db.keyDestroyed id
  forgotten := db.forgotten id

end View

section Archive

variable {archived : List ArchivedMemory} {reason stamp : String}

/-- The archive holds the copied row under its identifier, and what it held under every other one. -/
theorem find?_archiveRow (row : Memory) (id : String) :
    (archiveRow archived row reason stamp).find? (fun entry => entry.row.id = id) =
      if row.id = id then some ⟨row, reason, stamp⟩ else archived.find? fun entry => entry.row.id = id := by
  unfold archiveRow
  rw [List.find?_append]
  by_cases isRow : row.id = id
  · have gone : (archived.filter fun entry => entry.row.id ≠ row.id).find? (fun entry => entry.row.id = id) = none := by
      rw [List.find?_eq_none]
      intro entry kept
      simpa [isRow] using (List.mem_filter.mp kept).2
    rw [gone, if_pos isRow, Option.none_or]
    simp [isRow]
  · have kept : (archived.filter fun entry => entry.row.id ≠ row.id).find? (fun entry => entry.row.id = id) =
        archived.find? fun entry => entry.row.id = id := by
      rw [List.find?_filter]
      congr 1
      funext entry
      by_cases here : entry.row.id = id
      · simp [here, Ne.symm isRow]
      · simp [here]
    rw [kept, if_neg isRow]
    simp [isRow]

/-- The archive holds the first row of an identifier. -/
theorem find?_archiveAll {rows : List Memory} (distinct : (rows.map (·.id)).Nodup) (id : String) :
    (archiveAll archived rows reason stamp).find? (fun entry => entry.row.id = id) =
      ((rows.find? fun row => row.id = id).map fun row => ⟨row, reason, stamp⟩).or
        (archived.find? fun entry => entry.row.id = id) := by
  induction rows generalizing archived with
  | nil => rfl
  | cons row rows ih =>
      obtain ⟨fresh, rest⟩ := List.nodup_cons.mp distinct
      show (archiveAll (archiveRow archived row reason stamp) rows reason stamp).find? _ = _
      rw [ih rest, find?_archiveRow, List.find?_cons]
      by_cases isRow : row.id = id
      · have gone : rows.find? (fun other => other.id = id) = none := by
          rw [List.find?_eq_none]
          intro other present
          rw [decide_eq_true_eq]
          exact fun same => fresh (List.mem_map.mpr ⟨other, present, same.trans isRow.symm⟩)
        simp [isRow, gone]
      · simp [isRow]

end Archive

section Erase

variable {db left : ErasureDatabase} {rows : List Memory} {actorOf : Memory → String} {now : String}

/-- The rows are deleted exactly when no atom loses its parent. -/
theorem deleteRows_eq_ok {doomed : Memory → Bool} : deleteRows db doomed = .ok left ↔
    orphansAtom db.toDatabase doomed = false ∧
        { db with toDatabase := deleteMemories db.toDatabase doomed } = left := by
  unfold deleteRows deleteFromMemories
  cases orphansAtom db.toDatabase doomed <;> simp [Except.map]

/-- The deletion of the listed rows takes them out of the live table and nothing else. -/
theorem find_deleteRows {doomed : Memory → Bool} (ok : deleteRows db doomed = .ok left)
    (exact : ∀ row ∈ db.memories.rows, doomed row = rows.any fun other => other.id = row.id) (id : String) :
    left.memories.find id = if rows.any fun row => row.id = id then none else db.memories.find id := by
  obtain ⟨_, rfl⟩ := deleteRows_eq_ok.mp ok
  show (db.memories.retain fun row => !doomed row).find id = _
  rw [KeyedTable.find_retain]
  cases found : db.memories.find id with
  | none =>
      rw [Option.filter_none, ite_self]
  | some row =>
      obtain ⟨present, sameId⟩ := (db.memories.find_eq_some_iff _ _).mp found
      rw [Option.filter_some, exact row present, sameId]
      cases rows.any fun other => other.id = id <;> rfl

/-- Deleted rows leave the custody of what they held. -/
theorem custody_deleteRows {doomed : Memory → Bool} (ok : deleteRows db doomed = .ok left)
    (exact : ∀ row ∈ db.memories.rows, doomed row = rows.any fun other => other.id = row.id) (id : String) :
    custody left id =
      if rows.any fun row => row.id = id then { custody db id with live := none } else custody db id := by
  have lookup := find_deleteRows ok exact id
  obtain ⟨_, rfl⟩ := deleteRows_eq_ok.mp ok
  unfold custody liveColumns
  rw [lookup]
  split_ifs <;> rfl

/-- The erasures change the envelopes of their victims, and mark those whose key they destroyed. -/
structure Entombed (db erased : ErasureDatabase) (rows : List Memory) : Prop where
  tables : erased.toDatabase =
    { db.toDatabase with forgetTombstones := addTombstones db.forgetTombstones rows }
  copies : erased.archivedEnvelopes = db.archivedEnvelopes
  queue : erased.federationPushDlq = db.federationPushDlq
  forgotten : erased.forgotten = db.forgotten
  envelopes : ∀ id, (rows.any fun row => row.id = id) = false → erased.envelopes id = db.envelopes id
  keyDestroyed : ∀ id, erased.keyDestroyed id =
    (db.keyDestroyed id || (rows.any fun row => row.id = id) && (liveColumns db id).any hasKey)

/-- An envelope is overwritten exactly when the live row has a key. -/
theorem cryptoEraseRecordEnvelope_eq (id : String) :
    cryptoEraseRecordEnvelope db id = if (liveColumns db id).any hasKey then
        ({ db with envelopes := Function.update db.envelopes id (some cryptoEraseMarker) }, true)
      else (db, false) := by
  unfold cryptoEraseRecordEnvelope liveColumns
  cases db.memories.find id with
  | none => rfl
  | some row =>
      dsimp only [Option.bind_some, Option.any_some]
      cases db.envelopes id <;> rfl

/-- The marker holds no key. -/
theorem entomb_one (victim : Memory) :
    Entombed db (entomb actorOf now db victim) [victim] ∧
      (liveColumns (entomb actorOf now db victim) victim.id).any hasKey = false := by
  unfold entomb cryptoEraseAndAttest emitCryptoEraseAttestation
  rw [cryptoEraseRecordEnvelope_eq]
  cases held : (liveColumns db victim.id).any hasKey with
  | false =>
      refine ⟨⟨rfl, rfl, rfl, rfl, fun _ _ => rfl, fun id => ?_⟩, held⟩
      show db.keyDestroyed id = _
      by_cases isVictim : victim.id = id
      · rw [← isVictim, held, Bool.and_false, Bool.or_false]
      · simp [isVictim]
  | true =>
      refine ⟨⟨rfl, rfl, rfl, rfl, fun id other => ?_, fun id => ?_⟩, ?_⟩
      · have apart : id ≠ victim.id := by
          rintro rfl
          simp at other
        exact Function.update_of_ne apart _ _
      · show Function.update db.keyDestroyed victim.id true id = _
        rw [Function.update_apply]
        by_cases isVictim : id = victim.id
        · subst isVictim
          simp [held]
        · simp [isVictim, Ne.symm isVictim]
      · show Option.any hasKey ((db.memories.find victim.id).map fun row =>
          ⟨row.content, Function.update db.envelopes victim.id (some cryptoEraseMarker) victim.id⟩) = false
        rw [Function.update_self]
        cases db.memories.find victim.id <;> rfl

theorem liveColumns_congr {first second : ErasureDatabase} {id : String}
    (rows : first.memories.find id = second.memories.find id) (envelope : first.envelopes id = second.envelopes id) :
    liveColumns first id = liveColumns second id := by
  unfold liveColumns
  rw [rows, envelope]

/-- A list of victims is erased one after the other, and a victim that comes again has no key left. -/
theorem entomb_all : Entombed db (rows.foldl (entomb actorOf now) db) rows := by
  induction rows generalizing db with
  | nil => exact ⟨rfl, rfl, rfl, rfl, fun _ _ => rfl, fun id => (Bool.or_false _).symm⟩
  | cons victim rows ih =>
      obtain ⟨first, keyless⟩ := @entomb_one db actorOf now victim
      have later := @ih (entomb actorOf now db victim)
      rw [List.foldl_cons]
      generalize entomb actorOf now db victim = erased at first keyless later
      refine ⟨?_, later.copies.trans first.copies, later.queue.trans first.queue,
        later.forgotten.trans first.forgotten, fun id other => ?_, fun id => ?_⟩
      · rw [later.tables, first.tables]
        rfl
      · rw [List.any_cons, Bool.or_eq_false_iff] at other
        rw [later.envelopes id other.2, first.envelopes id (by simpa using other.1)]
      · rw [later.keyDestroyed, first.keyDestroyed, List.any_cons, List.any_cons, List.any_nil, Bool.or_false]
        by_cases isVictim : victim.id = id
        · subst isVictim
          rw [keyless]
          simp
        · have same : liveColumns erased id = liveColumns db id := by
            refine liveColumns_congr ?_ (first.envelopes id (by simpa using isVictim))
            rw [first.tables]
          simp [isVictim, same]

/-- Erased rows that are then deleted were evicted. -/
theorem custody_evicted {erased : ErasureDatabase} {doomed : Memory → Bool} (entombed : Entombed db erased rows)
    (ok : deleteRows erased doomed = .ok left)
    (exact : ∀ row ∈ db.memories.rows, doomed row = rows.any fun other => other.id = row.id) (id : String) :
    custody left id =
      if rows.any fun row => row.id = id then (custody db id).handle hasKey .evict else custody db id := by
  have sameRows : erased.memories.rows = db.memories.rows := by rw [entombed.tables]
  have copy : archivedColumns erased id = archivedColumns db id := by
    unfold archivedColumns
    rw [entombed.copies, entombed.tables]
  rw [custody_deleteRows ok (fun row present => exact row (sameRows ▸ present))]
  unfold custody
  rw [copy, entombed.queue, entombed.forgotten, entombed.keyDestroyed]
  cases victim : rows.any fun row => row.id = id with
  | true =>
      rw [if_pos rfl, if_pos rfl, Bool.true_and, Custody.handle]
      cases live : liveColumns db id with
      | none => simp
      | some placed => rfl
  | false =>
      have live : liveColumns erased id = liveColumns db id :=
        liveColumns_congr (by rw [entombed.tables]) (entombed.envelopes id victim)
      rw [if_neg Bool.false_ne_true, if_neg Bool.false_ne_true, live, Bool.false_and, Bool.or_false]

/-- The listed rows are the stored ones. -/
theorem find?_eq_find (stored : ∀ row ∈ rows, row ∈ db.memories.rows) {id : String}
    (listed : (rows.any fun row => row.id = id) = true) :
    (rows.find? fun row => row.id = id) = db.memories.find id := by
  cases found : rows.find? fun row => row.id = id with
  | none =>
      rw [List.find?_eq_none] at found
      obtain ⟨row, present, same⟩ := List.any_eq_true.mp listed
      exact absurd same (found row present)
  | some row =>
      have present := stored row (List.mem_of_find?_eq_some found)
      have same : row.id = id := by simpa using List.find?_some found
      exact ((db.memories.find_eq_some_iff id row).mpr ⟨present, same⟩).symm

/-- Copies of stored rows hold their columns and their envelopes. -/
theorem archivedColumns_copied {copied : ErasureDatabase} {reason stamp : String}
    (stored : ∀ row ∈ rows, row ∈ db.memories.rows) (distinct : (rows.map (·.id)).Nodup)
    (archived : copied.archivedMemories = archiveAll db.archivedMemories rows reason stamp)
    (envelopes : copied.archivedEnvelopes = copyEnvelopes db rows) (id : String) :
    archivedColumns copied id =
      if rows.any fun row => row.id = id then (liveColumns db id).or (archivedColumns db id)
      else archivedColumns db id := by
  unfold archivedColumns
  rw [archived, envelopes, find?_archiveAll distinct, copyEnvelopes]
  cases listed : rows.any fun row => row.id = id with
  | true =>
      rw [if_pos rfl, if_pos rfl, find?_eq_find stored listed, liveColumns]
      obtain ⟨row, present, same⟩ := List.any_eq_true.mp listed
      rw [(db.memories.find_eq_some_iff id row).mpr ⟨stored row present, of_decide_eq_true same⟩]
      rfl
  | false =>
      have unlisted : (rows.find? fun row => row.id = id) = none := by
        rw [List.find?_eq_none]
        exact List.any_eq_false.mp listed
      rw [if_neg Bool.false_ne_true, if_neg Bool.false_ne_true, unlisted]
      rfl

/-- Copied rows that are then deleted were archived. -/
theorem custody_moved {copied : ErasureDatabase} {doomed : Memory → Bool} {reason stamp : String}
    (ok : deleteRows copied doomed = .ok left) (stored : ∀ row ∈ rows, row ∈ db.memories.rows)
    (distinct : (rows.map (·.id)).Nodup) (tables : copied.memories = db.memories)
    (live : copied.envelopes = db.envelopes)
    (archived : copied.archivedMemories = archiveAll db.archivedMemories rows reason stamp)
    (envelopes : copied.archivedEnvelopes = copyEnvelopes db rows)
    (queue : copied.federationPushDlq = db.federationPushDlq) (keyDestroyed : copied.keyDestroyed = db.keyDestroyed)
    (forgotten : copied.forgotten = db.forgotten)
    (exact : ∀ row ∈ db.memories.rows, doomed row = rows.any fun other => other.id = row.id) (id : String) :
    custody left id =
      if rows.any fun row => row.id = id then (custody db id).handle hasKey .archive else custody db id := by
  have columns : liveColumns copied id = liveColumns db id :=
    liveColumns_congr (by rw [tables]) (by rw [live])
  rw [custody_deleteRows ok (fun row present => exact row (tables ▸ present))]
  unfold custody
  rw [columns, archivedColumns_copied stored distinct archived envelopes, queue, keyDestroyed, forgotten]
  cases listed : rows.any fun row => row.id = id with
  | true =>
      rw [if_pos rfl, if_pos rfl, if_pos rfl, Custody.handle]
      cases held : liveColumns db id with
      | none => simp
      | some placed => rfl
  | false => rw [if_neg Bool.false_ne_true, if_neg Bool.false_ne_true, if_neg Bool.false_ne_true]

end Erase

section Collect

variable {db left : ErasureDatabase} {archive : Bool} {now : String}

/-- What a collection does to one record. -/
def collected (archive : Bool) : Handling Placed := if archive then .archive else .evict

/-- A record without a row is not collected. -/
theorem handle_collected {held : Custody Placed} (gone : held.live = none) :
    held.handle hasKey (collected archive) = held := by
  unfold collected
  cases archive <;> simp only [Custody.handle, gone, if_true, if_false, Bool.false_eq_true]

/-- What was collected is live no longer. -/
theorem live_collected (held : Custody Placed) : (held.handle hasKey (collected archive)).live = none := by
  cases live : held.live with
  | none => rw [handle_collected live, live]
  | some placed => cases archive <;> simp [collected, Custody.handle, live]

/-- A chunk that succeeds collects its rows. -/
theorem custody_gcChunk {deleted : Nat} (ok : gcChunkErasable db archive now = .ok (left, deleted)) (id : String) :
    custody left id =
      if (gcVictims db.toDatabase now).any fun row => row.id = id then
        (custody db id).handle hasKey (collected archive)
      else custody db id := by
  unfold gcChunkErasable at ok
  have listed := gcVictims_sublist db.toDatabase now
  generalize gcVictims db.toDatabase now = chunk at ok listed
  dsimp only at ok
  split at ok
  · obtain ⟨_, deletedOk, done⟩ := map_eq_ok.mp ok
    obtain ⟨rfl, _⟩ := Prod.mk.inj done
    cases archive with
    | true =>
        rw [if_pos rfl] at deletedOk
        exact custody_moved deletedOk (fun row present => listed.subset present)
          (db.memories.uniqueId.sublist (listed.map _)) rfl rfl rfl rfl rfl rfl rfl (fun _ _ => rfl) id
    | false => exact custody_evicted entomb_all deletedOk (fun _ _ => rfl) id
  · cases ok

/-- The deletion does to the tables what the plain one does. -/
theorem deleteRows_refines {erased : ErasureDatabase} (doomed : Memory → Bool) :
    (deleteRows erased doomed).map (·.toDatabase) = deleteFromMemories erased.toDatabase doomed := by
  unfold deleteRows
  cases deleteFromMemories erased.toDatabase doomed <;> rfl

/-- The tombstones do not decide whether a deletion succeeds. -/
theorem gcChunk_refines : gcChunk db.toDatabase archive now =
    (gcChunkErasable db archive now).map fun result => (result.1.toDatabase, result.2) := by
  unfold gcChunkErasable gcChunk
  generalize gcVictims db.toDatabase now = chunk
  dsimp only
  split_ifs with reads archives
  · unfold deleteRows
    dsimp only
    cases deleteFromMemories _ (isListed chunk) <;> rfl
  · have tables := (@entomb_all db chunk evictionActor now).tables
    have erased := @deleteRows_refines (chunk.foldl (evictTombstoneAndErase now) db) (isListed chunk)
    rw [show (chunk.foldl (evictTombstoneAndErase now) db).toDatabase = _ from tables] at erased
    rw [← erased]
    cases deleteRows _ (isListed chunk) <;> rfl
  · rfl

/-- The rows of the chunks that succeed. -/
def gcSwept (archive : Bool) (now : String) : Nat → Database → List Memory
  | 0, _ => []
  | rounds + 1, db =>
      match gcChunk db archive now with
      | .error _ => []
      | .ok (next, deleted) =>
          if deleted < gcChunkRows then gcVictims db now
          else gcVictims db now ++ gcSwept archive now rounds next

/-- A sweep collects exactly these rows. -/
theorem custody_gcLoop (rounds total : Nat) (id : String) :
    custody (gcLoopErasable archive now rounds db total).1 id =
      if (gcSwept archive now rounds db.toDatabase).any fun row => row.id = id then
        (custody db id).handle hasKey (collected archive)
      else custody db id := by
  induction rounds generalizing db total with
  | zero => rfl
  | succ rounds ih =>
      cases ok : gcChunkErasable db archive now with
      | error error =>
          have swept : gcSwept archive now (rounds + 1) db.toDatabase = [] := by
            rw [gcSwept, gcChunk_refines, ok]
            rfl
          rw [swept, gcLoopErasable, ok]
          rfl
      | ok result =>
          obtain ⟨next, deleted⟩ := result
          have chunk := custody_gcChunk ok id
          have swept : gcSwept archive now (rounds + 1) db.toDatabase =
              if deleted < gcChunkRows then gcVictims db.toDatabase now
              else gcVictims db.toDatabase now ++ gcSwept archive now rounds next.toDatabase := by
            rw [gcSwept, gcChunk_refines, ok]
            rfl
          rw [swept, gcLoopErasable, ok]
          dsimp only
          by_cases short : deleted < gcChunkRows
          · rw [if_pos short, if_pos short]
            exact chunk
          · rw [if_neg short, if_neg short, ih, chunk, List.any_append]
            cases (gcVictims db.toDatabase now).any fun row => row.id = id with
            | true => rw [if_pos rfl, handle_collected (live_collected _), ite_self, Bool.true_or, if_pos rfl]
            | false => rw [if_neg Bool.false_ne_true, Bool.false_or]

/-- The loop over the custody is the loop over the tables. -/
theorem gcLoop_refines (rounds total : Nat) : gcLoop archive now rounds db.toDatabase total =
    ((gcLoopErasable archive now rounds db total).1.toDatabase, (gcLoopErasable archive now rounds db total).2) := by
  induction rounds generalizing db total with
  | zero => rfl
  | succ rounds ih =>
      unfold gcLoopErasable gcLoop
      rw [gcChunk_refines]
      cases gcChunkErasable db archive now with
      | error error => rfl
      | ok result =>
          dsimp only [Except.map]
          split_ifs
          · rfl
          · exact ih _

/-- The erasing sweep does to the tables what the plain sweep does. -/
theorem gc_refines (env : SealingEnvironment) (now : env.chrono.Instant) :
    gc env.toWriterEnvironment db.toDatabase archive now =
      ((gcErasable env db archive now).1.toDatabase, (gcErasable env db archive now).2) := by
  unfold gc gcErasable
  rw [gcLoop_refines]
  cases gcLoopErasable archive (env.chrono.toRfc3339 now) (db.memories.rows.length + 1) db 0 with
  | mk swept answer => cases answer <;> rfl

/-- A single row is archived. -/
theorem custody_archiveErasable {id : String} {reason : Option String}
    (ok : archiveErasable db id reason now = .ok left) (query : String) :
    custody left query =
      if query = id then (custody db query).handle hasKey .archive else custody db query := by
  obtain ⟨⟨archived, moved⟩, archivedOk, rfl⟩ := map_eq_ok.mp ok
  rcases archiveMemoryNoTx_eq_ok archivedOk with ⟨_, rfl, absent⟩ | ⟨row, _, found, kept, rfl⟩
  · have idle : (custody db id).handle hasKey .archive = custody db id := by
      rw [Custody.handle, custody, liveColumns, absent]
      rfl
    rw [absent]
    split_ifs with isRow
    · subst isRow
      exact idle.symm
    · rfl
  · obtain ⟨present, sameId⟩ := (db.memories.find_eq_some_iff _ _).mp found
    rw [found]
    have deleted : deleteRows { db with
        toDatabase := archivedCopy db.toDatabase row (reason.getD "archive") now
        archivedEnvelopes := copyEnvelopes db [row] } (fun other => other.id = id) = .ok _ :=
      deleteRows_eq_ok.mpr ⟨kept, rfl⟩
    have moved := @custody_moved db _ [row] _ (fun other => other.id = id) (reason.getD "archive") now deleted
      (fun other listed => (List.mem_singleton.mp listed) ▸ present) (List.nodup_singleton row.id) rfl rfl rfl rfl rfl
      rfl rfl (fun other _ => by simp [sameId, eq_comm]) query
    refine moved.trans ?_
    simp [sameId, eq_comm]

/-- An evicted victim is collected. -/
theorem custody_evictErasable {victim : Memory} (ok : evictErasable db victim archive now = .ok left) (id : String) :
    custody left id =
      if victim.id = id then (custody db id).handle hasKey (collected archive) else custody db id := by
  unfold evictErasable at ok
  split_ifs at ok with archives reads
  · rw [custody_archiveErasable ok]
    simp [collected, archives, eq_comm]
  · have evicted := custody_evicted
      (@entomb_one { db with namespaceMeta := dropStandard db.namespaceMeta victim.id } evictionActor now victim).1 ok
      (fun row _ => by simp [eq_comm] : ∀ row ∈ db.memories.rows, decide (row.id = victim.id) = _) id
    refine evicted.trans ?_
    simp [collected, archives]
    rfl

/-- An eviction with custody is an eviction of the tables. -/
theorem evictErasable_refines (victim : Memory) :
    evictVictim db.toDatabase victim archive now = (evictErasable db victim archive now).map (·.toDatabase) := by
  unfold evictErasable evictVictim archiveErasable
  split_ifs
  · cases archiveMemoryNoTx db.toDatabase victim.id (some "size_gc") now <;> rfl
  · rw [deleteRows_refines]
    have tables := (@entomb_one { db with namespaceMeta := dropStandard db.namespaceMeta victim.id }
      evictionActor now victim).1.tables
    rw [show (evictTombstoneAndErase now _ victim).toDatabase = _ from tables]
  · rfl

/-- The rows that the byte cap of a namespace selects, up to the first that cannot be evicted. -/
def sizeGcVictims (env : WriterEnvironment) («namespace» : String) (maxCorpusBytes : Int) (archive : Bool)
    (now : String) : Nat → Database → Int → List Memory
  | 0, _, _ => []
  | rounds + 1, db, corpus =>
      if corpus ≤ maxCorpusBytes then []
      else
        match nextVictim db «namespace» with
        | none => []
        | some victim =>
            match evictVictim db victim archive now with
            | .error _ => []
            | .ok next =>
                victim :: sizeGcVictims env «namespace» maxCorpusBytes archive now rounds next
                  (corpus - rowBytes env victim)

/-- The loop collects exactly these rows. -/
theorem custody_sizeGcLoop {env : SealingEnvironment} {«namespace» : String} {maxCorpusBytes : Int}
    (rounds : Nat) (corpus : Int) (evicted : Nat) (id : String) :
    custody (sizeGcLoopErasable env «namespace» maxCorpusBytes archive now rounds db corpus evicted).1 id =
      if (sizeGcVictims env.toWriterEnvironment «namespace» maxCorpusBytes archive now rounds db.toDatabase
          corpus).any fun row => row.id = id then
        (custody db id).handle hasKey (collected archive)
      else custody db id := by
  induction rounds generalizing db corpus evicted with
  | zero => rfl
  | succ rounds ih =>
      unfold sizeGcLoopErasable sizeGcVictims
      by_cases under : corpus ≤ maxCorpusBytes
      · rw [if_pos under, if_pos under]
        rfl
      · rw [if_neg under, if_neg under]
        cases nextVictim db.toDatabase «namespace» with
        | none => rfl
        | some victim =>
            dsimp only
            have plain := @evictErasable_refines db archive now victim
            cases ok : evictErasable db victim archive now with
            | error error =>
                rw [ok] at plain
                simp only [plain, Except.map]
                rfl
            | ok next =>
                rw [ok] at plain
                simp only [plain, Except.map]
                rw [ih, custody_evictErasable ok, List.any_cons]
                by_cases isVictim : victim.id = id
                · rw [if_pos isVictim, handle_collected (live_collected _), ite_self, decide_eq_true isVictim,
                    Bool.true_or, if_pos rfl]
                · rw [if_neg isVictim, decide_eq_false isVictim, Bool.false_or]

theorem sizeGcLoop_refines {env : SealingEnvironment} {«namespace» : String} {maxCorpusBytes : Int} (rounds : Nat)
    (corpus : Int) (evicted : Nat) :
    sizeGcLoop env.toWriterEnvironment «namespace» maxCorpusBytes archive now rounds db.toDatabase corpus evicted =
      ((sizeGcLoopErasable env «namespace» maxCorpusBytes archive now rounds db corpus evicted).1.toDatabase,
        (sizeGcLoopErasable env «namespace» maxCorpusBytes archive now rounds db corpus evicted).2) := by
  induction rounds generalizing db corpus evicted with
  | zero => rfl
  | succ rounds ih =>
      unfold sizeGcLoopErasable sizeGcLoop
      split_ifs
      · rfl
      · cases nextVictim db.toDatabase «namespace» with
        | none => rfl
        | some victim =>
            dsimp only
            rw [evictErasable_refines]
            cases evictErasable db victim archive now with
            | error error => rfl
            | ok next => exact ih _ _

/-- The erasing byte cap does to the tables what the plain one does. -/
theorem sizeGc_refines (env : SealingEnvironment) («namespace» : String) (maxCorpusBytes : Int)
    (now : env.chrono.Instant) :
    sizeGc env.toWriterEnvironment db.toDatabase «namespace» maxCorpusBytes archive now =
      ((sizeGcErasable env db «namespace» maxCorpusBytes archive now).1.toDatabase,
        (sizeGcErasable env db «namespace» maxCorpusBytes archive now).2) := by
  unfold sizeGc sizeGcErasable
  split_ifs
  · rfl
  · exact sizeGcLoop_refines _ _ _

end Collect

section Forget

variable {env : SealingEnvironment} {db left : ErasureDatabase} {«namespace» pattern : Option String}
  {tier : Option Tier} {archive : Bool} {caller : Option String} {now : env.chrono.Instant} {count : Nat}

/-- The filter of a forget selects exactly the identifiers of its victims. -/
theorem any_filter_rows (doomed : Memory → Bool) {row : Memory} (present : row ∈ db.memories.rows) :
    doomed row = (db.memories.rows.filter doomed).any fun other => other.id = row.id := by
  apply Bool.eq_iff_iff.mpr
  rw [List.any_eq_true]
  constructor
  · exact fun selected => ⟨row, List.mem_filter.mpr ⟨present, selected⟩, decide_eq_true rfl⟩
  · rintro ⟨other, listed, same⟩
    obtain ⟨stored, selected⟩ := List.mem_filter.mp listed
    have isOther := (db.memories.find_eq_some_iff row.id other).mpr ⟨stored, of_decide_eq_true same⟩
    have isRow := (db.memories.find_eq_some_iff row.id row).mpr ⟨present, rfl⟩
    rw [← Option.some.inj (isOther.symm.trans isRow)]
    exact selected

/-- The copies before the erasures of a forget. -/
structure CopiedForForget (db copied : ErasureDatabase) (victims : List Memory) (archive : Bool) : Prop where
  memories : copied.memories = db.memories
  envelopes : copied.envelopes = db.envelopes
  queue : copied.federationPushDlq = db.federationPushDlq
  keyDestroyed : copied.keyDestroyed = db.keyDestroyed
  forgotten : copied.forgotten = db.forgotten
  copies : ∀ id, archivedColumns copied id =
    if archive && victims.any fun row => row.id = id then (liveColumns db id).or (archivedColumns db id)
    else archivedColumns db id

/-- The queue without the pushes of the victims holds a push of a record that is none of them. -/
theorem any_unqueued (queue : List PushDlqRow) (victims : List Memory) (id : String) :
    ((queue.filter fun push => !victims.any fun row => row.id = push.memoryId).any fun push => push.memoryId = id) =
      (!(victims.any fun row => row.id = id) && queue.any fun push => push.memoryId = id) := by
  have ofId (push : PushDlqRow) :
      (!(victims.any fun row => row.id = push.memoryId) && decide (push.memoryId = id)) =
        (!(victims.any fun row => row.id = id) && decide (push.memoryId = id)) := by
    by_cases same : push.memoryId = id
    · rw [same]
    · simp [same]
  rw [List.any_filter, funext ofId, List.and_any_distrib_left]

/-- A forget erases the copied rows with their queued pushes. -/
theorem custody_forgotten {copied purged : ErasureDatabase} {doomed : Memory → Bool} {victims : List Memory}
    (copies : CopiedForForget db copied victims archive)
    (entombed : Entombed { copied with
      federationPushDlq := copied.federationPushDlq.filter fun push =>
        !victims.any fun row => row.id = push.memoryId } purged victims)
    (ok : deleteRows { purged with
      forgotten := fun id => purged.forgotten id || !archive && victims.any fun row => row.id = id } doomed = .ok left)
    (stored : ∀ row ∈ victims, row ∈ db.memories.rows)
    (exact : ∀ row ∈ db.memories.rows, doomed row = victims.any fun other => other.id = row.id) (id : String) :
    custody left id =
      if victims.any fun row => row.id = id then
          (custody db id).handle hasKey (.forget archive) else custody db id := by
  have sameRows : purged.memories = db.memories :=
    (congrArg (·.memories) entombed.tables).trans copies.memories
  have copy : archivedColumns purged id = archivedColumns copied id := by
    unfold archivedColumns
    rw [entombed.copies, entombed.tables]
  have live : liveColumns copied id = liveColumns db id :=
    liveColumns_congr (by rw [copies.memories]) (by rw [copies.envelopes])
  have marked : purged.keyDestroyed id =
      (db.keyDestroyed id || (victims.any fun row => row.id = id) && (liveColumns db id).any hasKey) := by
    rw [← live, ← copies.keyDestroyed]
    exact entombed.keyDestroyed id
  have queued : (purged.federationPushDlq.any fun push => push.memoryId = id) =
      (!(victims.any fun row => row.id = id) && db.federationPushDlq.any fun push => push.memoryId = id) := by
    rw [entombed.queue, copies.queue, any_unqueued]
  have remembered : purged.forgotten = db.forgotten := entombed.forgotten.trans copies.forgotten
  refine (custody_deleteRows ok (fun row present => exact row (sameRows ▸ present)) id).trans ?_
  cases listed : victims.any fun row => row.id = id with
  | true =>
      obtain ⟨row, present, same⟩ := List.any_eq_true.mp listed
      have found := (db.memories.find_eq_some_iff id row).mpr ⟨stored row present, of_decide_eq_true same⟩
      have held : liveColumns db id = some ⟨row.content, db.envelopes id⟩ := by
        rw [liveColumns, found]
        rfl
      rw [if_pos rfl, if_pos rfl, Custody.handle]
      show Custody.mk none (archivedColumns purged id) (purged.federationPushDlq.any fun push => push.memoryId = id)
        (purged.keyDestroyed id) (purged.forgotten id || !archive && victims.any fun row => row.id = id) = _
      rw [copy, copies.copies, queued, marked, remembered, listed]
      unfold custody
      rw [held]
      cases archive <;> simp
  | false =>
      have kept : liveColumns purged id = liveColumns db id :=
        liveColumns_congr (by rw [sameRows]) ((entombed.envelopes id listed).trans (congrFun copies.envelopes id))
      rw [if_neg Bool.false_ne_true, if_neg Bool.false_ne_true]
      show Custody.mk (liveColumns purged id) (archivedColumns purged id)
        (purged.federationPushDlq.any fun push => push.memoryId = id)
        (purged.keyDestroyed id) (purged.forgotten id || !archive && victims.any fun row => row.id = id) = _
      rw [kept, copy, copies.copies, queued, marked, remembered, listed]
      simp [custody]

/-- A forget that succeeds erases the rows that it selects. -/
theorem custody_forgetRows {doomed : Memory → Bool} {stamp : String}
    (ok : forgetRows db doomed archive caller stamp = .ok left) (id : String) :
    custody left id =
      if (db.memories.rows.filter doomed).any fun row => row.id = id then
        (custody db id).handle hasKey (.forget archive)
      else custody db id := by
  have exact := fun row present => @any_filter_rows db doomed row present
  have stored : ∀ row ∈ db.memories.rows.filter doomed, row ∈ db.memories.rows :=
    fun row listed => (List.mem_filter.mp listed).1
  have distinct : ((db.memories.rows.filter doomed).map (·.id)).Nodup :=
    db.memories.uniqueId.sublist (List.filter_sublist.map _)
  unfold forgetRows at ok
  dsimp only at ok
  generalize db.memories.rows.filter doomed = victims at exact stored distinct ok
  refine custody_forgotten ?_ entomb_all ok stored exact id
  cases archive with
  | true => exact ⟨rfl, rfl, rfl, rfl, rfl, fun id => archivedColumns_copied stored distinct rfl rfl id⟩
  | false => exact ⟨rfl, rfl, rfl, rfl, rfl, fun id => rfl⟩

/-- Forgetting with custody is forgetting in the tables. -/
theorem forgetRows_refines (doomed : Memory → Bool) (stamp : String) :
    (forgetRows db doomed archive caller stamp).map (·.toDatabase) =
      deleteFromMemories { forgetArchived db.toDatabase (db.memories.rows.filter doomed) archive stamp with
        forgetTombstones := addTombstones db.forgetTombstones (db.memories.rows.filter doomed) } doomed := by
  unfold forgetRows
  dsimp only
  rw [deleteRows_refines]
  generalize db.memories.rows.filter doomed = victims
  show deleteFromMemories (purgeAndTombstoneForget _ victims caller stamp).toDatabase doomed = _
  rw [show (purgeAndTombstoneForget _ victims caller stamp).toDatabase = _ from entomb_all.tables]
  cases archive <;> rfl

/-- The erasures of a forget fail exactly at an atom that stays. -/
theorem isOk_forgetRows (doomed : Memory → Bool) (stamp : String) :
    (forgetRows db doomed archive caller stamp).isOk = !orphansAtom db.toDatabase doomed := by
  have plain := @forgetRows_refines db archive caller doomed stamp
  have same : orphansAtom { forgetArchived db.toDatabase (db.memories.rows.filter doomed) archive stamp with
      forgetTombstones := addTombstones db.forgetTombstones (db.memories.rows.filter doomed) } doomed =
      orphansAtom db.toDatabase doomed := by cases archive <;> rfl
  cases erased : forgetRows db doomed archive caller stamp with
  | ok left =>
      rw [erased] at plain
      rw [← same, (deleteFromMemories_eq_ok.mp plain.symm).1]
      rfl
  | error error =>
      rw [erased] at plain
      cases orphans : orphansAtom db.toDatabase doomed with
      | true => rfl
      | false => cases plain.trans (deleteFromMemories_eq_ok.mpr ⟨same.trans orphans, rfl⟩)

/-- Without a caller the erasing forget does to the tables what the plain one does. -/
theorem forget_refines :
    (forgetErasable env db «namespace» pattern tier archive none now).map (fun result =>
        (result.1.toDatabase, result.2)) =
      forget env.toWriterEnvironment db.toDatabase «namespace» pattern tier archive now := by
  have reaches : forgetReaches env «namespace» pattern tier none =
      forgetMatches env.toWriterEnvironment «namespace» pattern tier := by
    funext row
    exact Bool.and_true _
  unfold forgetErasable forget
  rw [reaches]
  split_ifs with unfiltered
  · rfl
  · generalize forgetMatches env.toWriterEnvironment «namespace» pattern tier = doomed
    dsimp only
    cases forgetFailure pattern (db.memories.rows.filter doomed) with
    | some error => rfl
    | none =>
        dsimp only
        rw [← @forgetRows_refines db archive none doomed (env.chrono.toRfc3339 now)]
        cases forgetRows db doomed archive none (env.chrono.toRfc3339 now) <;> rfl

end Forget

end AiMemory.Storage
