import AiMemory.Storage.PlaintextAtRest

/-
This file proves exactly when the calls of some tenants leave the rows of the others as they are.
-/

namespace AiMemory.Storage
open AiMemory.Crdt AiMemory.Library AiMemory.Machine

section Calls

variable (env : SealingEnvironment) (db : ErasureDatabase)

def sentTo (caller : String) (row : Memory) : Bool :=
  (row.metadata.get "target_agent_id").any fun target => target.asStr = some caller

/-- A caller moves its own rows, those that were sent to it and those that name no owner. -/
def movableBy (caller : String) (row : Memory) : Bool := ownedBy (some caller) row || sentTo caller row

/-- A purge leaves the rows that name no owner. -/
def purgeableBy (caller : String) (row : Memory) : Bool :=
  (row.metadata.get "agent_id").any (fun owner => owner.asStr = some caller) || sentTo caller row

/-- This archive takes no snapshot of the links. -/
def archiveMemoryForCaller (id : String) (reason : Option String) (caller now : String) :
    Except StorageError (ErasureDatabase × Bool) :=
  match (db.memories.find id).filter (movableBy caller) with
  | none => .ok (db, false)
  | some row =>
      let archived := { db with
        archivedMemories := archiveRow db.archivedMemories row (reason.getD "archive") now
        archivedAtomOf := copyAtoms db.toDatabase [row]
        archivedEnvelopes := copyEnvelopes db [row]
        namespaceMeta := dropStandard db.namespaceMeta id }
      (deleteRows archived fun row => row.id = id).map fun deleted => (deleted, true)

def restoreArchivedForCaller (id caller : String) (now : env.chrono.Instant) :
    Except StorageError (ErasureDatabase × Bool) :=
  match (db.archivedMemories.find? fun entry => entry.row.id = id).filter fun entry => movableBy caller entry.row with
  | none => .ok (db, false)
  | some _ => (restoreErasable env db id now).map fun restored => (restored, true)

/-- The age is counted in days. -/
def purgeArchiveForCaller (caller : String) (olderThanDays : Option Int) (now : env.chrono.Instant) :
    Except StorageError (ErasureDatabase × Nat) :=
  match olderThanDays.filter (· < 0) with
  | some days => .error (.invalidArgument s!"older_than_days must be non-negative (got {days})")
  | none =>
      let cutoff := fun days : Int => env.chrono.toRfc3339 (env.chrono.addSeconds now (-days * 86400))
      let purged := fun entry : ArchivedMemory =>
        olderThanDays.all (fun days => entry.archivedAt < cutoff days) && purgeableBy caller entry.row
      .ok ({ db with archivedMemories := db.archivedMemories.filter fun entry => !purged entry },
        (db.archivedMemories.filter purged).length)

inductive TenantAction where
  | archive (id : String) (reason : Option String)
  | forget («namespace» pattern : Option String) (tier : Option Tier) (archive : Bool)
  | restore (id : String)
  | purgeArchive (olderThanDays : Option Int)

structure TenantCall (env : SealingEnvironment) where
  caller : String
  action : TenantAction
  now : env.chrono.Instant

/-- A call that is refused leaves the database. -/
def tenantStep (call : TenantCall env) : ErasureDatabase :=
  match call.action with
  | .archive id reason =>
      let archived := archiveMemoryForCaller db id reason call.caller (env.chrono.toRfc3339 call.now)
      (archived.map Prod.fst).toOption.getD db
  | .forget «namespace» pattern tier archive =>
      let forgotten := forgetErasable env db «namespace» pattern tier archive (some call.caller) call.now
      (forgotten.map Prod.fst).toOption.getD db
  | .restore id => ((restoreArchivedForCaller env db id call.caller call.now).map Prod.fst).toOption.getD db
  | .purgeArchive olderThanDays =>
      ((purgeArchiveForCaller env db call.caller olderThanDays call.now).map Prod.fst).toOption.getD db

end Calls

section Shield

variable (tenants : String → Prop)

/-- The row belongs to none of the tenants and was sent to none of them. -/
def Shielded (row : Memory) : Prop := ∀ caller, tenants caller → movableBy caller row = false

def ShieldedId (db : ErasureDatabase) (id : String) : Prop :=
  ∃ row ∈ db.memories.rows, row.id = id ∧ Shielded tenants row

/-- The shielded rows stay where they are, with their parents, their envelopes, their links, their standards and their
pushes. -/
structure LeftAlone (before after : ErasureDatabase) : Prop where
  live : SameRows (Shielded tenants) before.memories.rows after.memories.rows
  archived : SameRows (fun entry => Shielded tenants entry.row) before.archivedMemories after.archivedMemories
  atoms : ∀ id, ShieldedId tenants before id → after.atomOf id = before.atomOf id
  archivedAtoms : ∀ entry ∈ before.archivedMemories, Shielded tenants entry.row →
    after.archivedAtomOf entry.row.id = before.archivedAtomOf entry.row.id
  envelopes : ∀ id, ShieldedId tenants before id → after.envelopes id = before.envelopes id
  archivedEnvelopes : ∀ entry ∈ before.archivedMemories, Shielded tenants entry.row →
    after.archivedEnvelopes entry.row.id = before.archivedEnvelopes entry.row.id
  links : SameRows (fun link => ShieldedId tenants before link.sourceId ∧ ShieldedId tenants before link.targetId)
    before.memoryLinks after.memoryLinks
  standards : SameRows (fun entry => ∃ id ∈ entry.standardId, ShieldedId tenants before id)
    before.namespaceMeta after.namespaceMeta
  pushes : SameRows (fun push => ShieldedId tenants before push.memoryId)
    before.federationPushDlq after.federationPushDlq

variable {tenants} {before middle after : ErasureDatabase}

theorem Shielded.not_movable {row : Memory} (shielded : Shielded tenants row) {caller : String}
    (tenant : tenants caller) : movableBy caller row ≠ true := Bool.eq_false_iff.mp (shielded caller tenant)

/-- A row that the caller can move is not shielded. -/
theorem not_shielded_of_movable {row : Memory} {caller : String} (tenant : tenants caller)
    (movable : movableBy caller row = true) : ¬ Shielded tenants row :=
  fun shielded => shielded.not_movable tenant movable

namespace LeftAlone

theorem refl (before : ErasureDatabase) : LeftAlone tenants before before :=
  ⟨.refl _ _, .refl _ _, fun _ _ => rfl, fun _ _ _ => rfl, fun _ _ => rfl, fun _ _ _ => rfl, .refl _ _, .refl _ _,
    .refl _ _⟩

theorem shieldedId_iff (alone : LeftAlone tenants before after) (id : String) :
    ShieldedId tenants after id ↔ ShieldedId tenants before id := by
  refine exists_congr fun row => ?_
  constructor
  · rintro ⟨present, same, shielded⟩
    exact ⟨(alone.live row shielded).mp present, same, shielded⟩
  · rintro ⟨present, same, shielded⟩
    exact ⟨(alone.live row shielded).mpr present, same, shielded⟩

theorem trans (first : LeftAlone tenants before middle) (second : LeftAlone tenants middle after) :
    LeftAlone tenants before after where
  live := first.live.trans second.live
  archived := first.archived.trans second.archived
  atoms id shielded := (second.atoms id ((first.shieldedId_iff id).mpr shielded)).trans (first.atoms id shielded)
  archivedAtoms entry present shielded :=
    (second.archivedAtoms entry ((first.archived entry shielded).mpr present) shielded).trans
      (first.archivedAtoms entry present shielded)
  envelopes id shielded :=
    (second.envelopes id ((first.shieldedId_iff id).mpr shielded)).trans (first.envelopes id shielded)
  archivedEnvelopes entry present shielded :=
    (second.archivedEnvelopes entry ((first.archived entry shielded).mpr present) shielded).trans
      (first.archivedEnvelopes entry present shielded)
  links := by
    have links := second.links
    simp only [first.shieldedId_iff] at links
    exact first.links.trans links
  standards := by
    have standards := second.standards
    simp only [first.shieldedId_iff] at standards
    exact first.standards.trans standards
  pushes := by
    have pushes := second.pushes
    simp only [first.shieldedId_iff] at pushes
    exact first.pushes.trans pushes

end LeftAlone

theorem shieldedId_iff {db : ErasureDatabase} {row : Memory} (present : row ∈ db.memories.rows) :
    ShieldedId tenants db row.id ↔ Shielded tenants row := by
  constructor
  · rintro ⟨other, stored, same, shielded⟩
    exact List.inj_on_of_nodup_map db.memories.uniqueId stored present same ▸ shielded
  · exact fun shielded => ⟨row, present, rfl, shielded⟩

/-- A deletion that spares the shielded rows takes nothing that hangs on them. -/
theorem leftAlone_deleteRows {db left : ErasureDatabase} {doomed : Memory → Bool} (ok : deleteRows db doomed = .ok left)
    (spared : ∀ row ∈ db.memories.rows, Shielded tenants row → doomed row = false) : LeftAlone tenants db left := by
  obtain ⟨_, rfl⟩ := deleteRows_eq_ok.mp ok
  have kept : ∀ id, ShieldedId tenants db id → id ∉ (db.memories.rows.filter doomed).map (·.id) := by
    intro id shielded listed
    obtain ⟨row, chosen, rfl⟩ := List.mem_map.mp listed
    obtain ⟨present, selected⟩ := List.mem_filter.mp chosen
    rw [spared row present ((shieldedId_iff present).mp shielded)] at selected
    cases selected
  exact {
    live := .filter fun row present shielded => by rw [spared row present shielded]; rfl
    archived := .refl _ _
    atoms := fun id shielded => if_neg (kept id shielded)
    archivedAtoms := fun _ _ _ => rfl
    envelopes := fun _ _ => rfl
    archivedEnvelopes := fun _ _ _ => rfl
    links := .filter fun link _ ends => decide_eq_true ⟨kept _ ends.1, kept _ ends.2⟩
    standards := .refl _ _
    pushes := .refl _ _ }

/-- The copies of rows that no shielded entry of the archive shares its identifier with. -/
theorem sameRows_archiveAll {archived : List ArchivedMemory} {victims : List Memory} {reason stamp : String}
    (exposed : ∀ row ∈ victims, ¬ Shielded tenants row)
    (apart : ∀ row ∈ victims, ∀ entry ∈ archived, Shielded tenants entry.row → entry.row.id ≠ row.id) :
    SameRows (fun entry => Shielded tenants entry.row) archived (archiveAll archived victims reason stamp) := by
  induction victims generalizing archived with
  | nil => exact .refl _ _
  | cons victim victims ih =>
      have one : SameRows (fun entry => Shielded tenants entry.row) archived
          (archiveRow archived victim reason stamp) := by
        refine SameRows.trans (.filter fun entry present shielded => ?_) (.append (exposed victim List.mem_cons_self))
        exact decide_eq_true (apart victim List.mem_cons_self entry present shielded)
      refine one.trans (ih (fun row present => exposed row (List.mem_cons_of_mem _ present)) ?_)
      intro row present entry copied shielded
      exact apart row (List.mem_cons_of_mem _ present) entry ((one entry shielded).mp copied) shielded

theorem unlisted_of_shieldedId {db : ErasureDatabase} {victims : List Memory}
    (exposed : ∀ row ∈ victims, row ∈ db.memories.rows ∧ ¬ Shielded tenants row) {id : String}
    (shielded : ShieldedId tenants db id) : (victims.any fun row => row.id = id) = false := by
  rw [List.any_eq_false]
  intro victim listed
  rw [decide_eq_true_eq]
  rintro rfl
  obtain ⟨stored, bare⟩ := exposed victim listed
  exact bare ((shieldedId_iff stored).mp shielded)

/-- The erasures of exposed rows overwrite no other envelope. -/
theorem leftAlone_entombed {db erased : ErasureDatabase} {victims : List Memory}
    (entombed : Entombed db erased victims)
    (exposed : ∀ row ∈ victims, row ∈ db.memories.rows ∧ ¬ Shielded tenants row) :
    LeftAlone tenants db erased where
  live := by
    rw [entombed.tables]
    exact .refl _ _
  archived := by
    rw [entombed.tables]
    exact .refl _ _
  atoms _ _ := by rw [entombed.tables]
  archivedAtoms _ _ _ := by rw [entombed.tables]
  envelopes id shielded := entombed.envelopes id (unlisted_of_shieldedId exposed shielded)
  archivedEnvelopes entry _ _ := congrFun entombed.copies entry.row.id
  links := by
    rw [entombed.tables]
    exact .refl _ _
  standards := by
    rw [entombed.tables]
    exact .refl _ _
  pushes := by
    rw [entombed.queue]
    exact .refl _ _

variable (tenants) in
/-- The identifiers of the archive are unique, and no exposed live row has the identifier of a shielded archived
one. -/
structure Parted (db : ErasureDatabase) : Prop where
  unique : (db.archivedMemories.map fun entry => entry.row.id).Nodup
  apart : ∀ row ∈ db.memories.rows, ∀ entry ∈ db.archivedMemories, entry.row.id = row.id →
    Shielded tenants entry.row → Shielded tenants row

/-- Copies of exposed rows replace no shielded entry. -/
theorem leftAlone_copied {db copied : ErasureDatabase} {victims : List Memory} {reason stamp : String}
    (parted : Parted tenants db) (exposed : ∀ row ∈ victims, row ∈ db.memories.rows ∧ ¬ Shielded tenants row)
    (copies : copied = { db with
      archivedMemories := archiveAll db.archivedMemories victims reason stamp
      archivedAtomOf := copyAtoms db.toDatabase victims
      archivedMemoryLinks := copied.archivedMemoryLinks
      archivedEnvelopes := copyEnvelopes db victims }) : LeftAlone tenants db copied := by
  have apart : ∀ row ∈ victims, ∀ entry ∈ db.archivedMemories, Shielded tenants entry.row →
      entry.row.id ≠ row.id :=
    fun row listed entry present shielded same =>
      (exposed row listed).2 (parted.apart row (exposed row listed).1 entry present same shielded)
  have unlisted : ∀ entry ∈ db.archivedMemories, Shielded tenants entry.row →
      ¬ (victims.any fun row => row.id = entry.row.id) = true := by
    intro entry present shielded
    rw [Bool.not_eq_true, List.any_eq_false]
    intro row listed
    rw [decide_eq_true_eq]
    exact (apart row listed entry present shielded).symm
  rw [copies]
  exact {
    live := .refl _ _
    archived := sameRows_archiveAll (fun row listed => (exposed row listed).2) apart
    atoms := fun _ _ => rfl
    archivedAtoms := fun entry present shielded => if_neg (unlisted entry present shielded)
    envelopes := fun _ _ => rfl
    archivedEnvelopes := fun entry present shielded => if_neg (unlisted entry present shielded)
    links := .refl _ _
    standards := .refl _ _
    pushes := .refl _ _ }

/-- A row that comes out of the archive leaves no entry there. -/
theorem Parted.next (parted : Parted tenants before) (alone : LeftAlone tenants before after)
    (unique : (after.archivedMemories.map fun entry => entry.row.id).Nodup)
    (known : ∀ row ∈ after.memories.rows, row ∈ before.memories.rows ∨
      ∀ entry ∈ after.archivedMemories, entry.row.id ≠ row.id) : Parted tenants after where
  unique := unique
  apart row present entry archived same shielded := by
    rcases known row present with kept | fresh
    · exact parted.apart row kept entry ((alone.archived entry shielded).mp archived) same shielded
    · exact absurd same (fresh entry archived)

end Shield

section Steps

variable {env : SealingEnvironment} {db : ErasureDatabase} {tenants : String → Prop} {caller : String}

/-- A step leaves the shielded rows alone, and the archive parted from the exposed rows. -/
def Safe (tenants : String → Prop) (db after : ErasureDatabase) : Prop :=
  LeftAlone tenants db after ∧ Parted tenants after

/-- The copies, the erasures and the deletion of exposed rows are safe together. -/
theorem safe_removal {erased left : ErasureDatabase} {doomed : Memory → Bool} (parted : Parted tenants db)
    (alone : LeftAlone tenants db erased) (sameRows : erased.memories = db.memories)
    (unique : (erased.archivedMemories.map fun entry => entry.row.id).Nodup)
    (spared : ∀ row ∈ db.memories.rows, Shielded tenants row → doomed row = false)
    (ok : deleteRows erased doomed = .ok left) : Safe tenants db left := by
  have deleted : LeftAlone tenants erased left :=
    leftAlone_deleteRows ok fun row present => spared row (sameRows ▸ present)
  obtain ⟨_, rfl⟩ := deleteRows_eq_ok.mp ok
  refine ⟨alone.trans deleted, parted.next (alone.trans deleted) unique fun row present => .inl ?_⟩
  rw [← sameRows]
  exact (List.mem_filter.mp present).1

/-- An archival by a tenant is safe. -/
theorem safe_archive {archived : ErasureDatabase} {moved : Bool} (parted : Parted tenants db) (tenant : tenants caller)
    {id : String} {reason : Option String} {now : String}
    (ok : archiveMemoryForCaller db id reason caller now = .ok (archived, moved)) : Safe tenants db archived := by
  unfold archiveMemoryForCaller at ok
  cases reached : (db.memories.find id).filter (movableBy caller) with
  | none =>
      rw [reached] at ok
      obtain ⟨rfl, _⟩ := Prod.mk.inj (Except.ok.inj ok)
      exact ⟨.refl db, parted⟩
  | some row =>
      rw [reached] at ok
      obtain ⟨deleted, deletedOk, done⟩ := map_eq_ok.mp ok
      obtain ⟨rfl, _⟩ := Prod.mk.inj done
      obtain ⟨found, movable⟩ := Option.filter_eq_some_iff.mp reached
      obtain ⟨present, rfl⟩ := (db.memories.find_eq_some_iff _ _).mp found
      have bare := not_shielded_of_movable tenant movable
      have exposed : ∀ victim ∈ [row], victim ∈ db.memories.rows ∧ ¬ Shielded tenants victim := by
        intro victim listed
        obtain rfl := List.mem_singleton.mp listed
        exact ⟨present, bare⟩
      have dropped : LeftAlone tenants db { db with namespaceMeta := dropStandard db.namespaceMeta row.id } := by
        refine { LeftAlone.refl db with standards := .filter ?_ }
        rintro entry _ ⟨id, named, shielded⟩
        rw [decide_eq_true_eq, named]
        intro standing
        obtain rfl := Option.some.inj standing
        exact bare ((shieldedId_iff present).mp shielded)
      have copied : LeftAlone tenants { db with namespaceMeta := dropStandard db.namespaceMeta row.id }
          { db with
            archivedMemories := archiveRow db.archivedMemories row (reason.getD "archive") now
            archivedAtomOf := copyAtoms db.toDatabase [row]
            archivedEnvelopes := copyEnvelopes db [row]
            namespaceMeta := dropStandard db.namespaceMeta row.id } :=
        leftAlone_copied ⟨parted.unique, parted.apart⟩ exposed rfl
      refine safe_removal parted (dropped.trans copied) rfl (nodup_archiveAll parted.unique [row] _ _) ?_ deletedOk
      intro other stored shielded
      rw [decide_eq_false_iff_not]
      intro same
      exact bare (List.inj_on_of_nodup_map db.memories.uniqueId stored present same ▸ shielded)

/-- A forget of a tenant reaches no shielded row. -/
theorem forgetReaches_eq_false {«namespace» pattern : Option String} {tier : Option Tier} (tenant : tenants caller)
    {row : Memory} (shielded : Shielded tenants row) :
    forgetReaches env «namespace» pattern tier (some caller) row = false := by
  have apart := (Bool.or_eq_false_iff.mp (shielded caller tenant)).1
  rw [forgetReaches, apart, Bool.and_false]

section ForgetRows

variable {victims : List Memory} {archive : Bool} {names : Option String} {stamp : String}

/-- The copies of a forget leave the live rows. -/
theorem memories_forgetCopies : (forgetCopies db victims archive stamp).memories = db.memories := by
  cases archive <;> rfl

/-- The copies of a forget replace the entries of their identifiers. -/
theorem nodup_forgetCopies (parted : Parted tenants db) :
    ((forgetCopies db victims archive stamp).archivedMemories.map fun entry => entry.row.id).Nodup := by
  cases archive with
  | true => exact nodup_archiveAll parted.unique victims _ _
  | false => exact parted.unique

/-- Exposed rows are copied without a change to the shielded ones. -/
theorem leftAlone_forgetCopies (parted : Parted tenants db)
    (exposed : ∀ row ∈ victims, row ∈ db.memories.rows ∧ ¬ Shielded tenants row) :
    LeftAlone tenants db (forgetCopies db victims archive stamp) := by
  cases archive with
  | true => exact leftAlone_copied parted exposed rfl
  | false => exact .refl db

/-- The erasures of a forget bury the rows and leave the other tables. -/
theorem tables_purged : (purgeAndTombstoneForget db victims names stamp).toDatabase =
    { db.toDatabase with forgetTombstones := addTombstones db.forgetTombstones victims } := entomb_all.tables

/-- Exposed rows are erased with their pushes and without a change to the shielded ones. -/
theorem leftAlone_purged (exposed : ∀ row ∈ victims, row ∈ db.memories.rows ∧ ¬ Shielded tenants row) :
    LeftAlone tenants db (purgeAndTombstoneForget db victims names stamp) := by
  have unqueued : LeftAlone tenants db { db with
      federationPushDlq := db.federationPushDlq.filter fun push =>
        !victims.any fun row => row.id = push.memoryId } := by
    refine { LeftAlone.refl db with pushes := .filter ?_ }
    intro push _ shielded
    rw [unlisted_of_shieldedId exposed shielded]
    rfl
  exact unqueued.trans (leftAlone_entombed entomb_all exposed)

/-- Rows that are forgotten without a shielded one are forgotten safely. -/
theorem safe_forgetRows {left : ErasureDatabase} (parted : Parted tenants db) {doomed : Memory → Bool}
    (spared : ∀ row ∈ db.memories.rows, Shielded tenants row → doomed row = false)
    (ok : forgetRows db doomed archive names stamp = .ok left) : Safe tenants db left := by
  have exposed : ∀ row ∈ db.memories.rows.filter doomed, row ∈ db.memories.rows ∧ ¬ Shielded tenants row := by
    intro row listed
    obtain ⟨present, selected⟩ := List.mem_filter.mp listed
    refine ⟨present, fun shielded => ?_⟩
    rw [spared row present shielded] at selected
    cases selected
  unfold forgetRows at ok
  dsimp only at ok
  generalize db.memories.rows.filter doomed = victims at exposed ok
  have stillExposed : ∀ row ∈ victims, row ∈ (forgetCopies db victims archive stamp).memories.rows ∧
      ¬ Shielded tenants row := by
    rw [memories_forgetCopies]
    exact exposed
  have alone := (leftAlone_forgetCopies parted exposed).trans (@leftAlone_purged _ _ _ names stamp stillExposed)
  have kept : (purgeAndTombstoneForget (forgetCopies db victims archive stamp) victims names stamp).memories =
      db.memories := by
    rw [tables_purged]
    exact memories_forgetCopies
  have unique : ((purgeAndTombstoneForget (forgetCopies db victims archive stamp) victims names
      stamp).archivedMemories.map fun entry => entry.row.id).Nodup := by
    rw [tables_purged]
    exact nodup_forgetCopies parted
  generalize purgeAndTombstoneForget (forgetCopies db victims archive stamp) victims names stamp = purged
    at alone kept unique ok
  have marked : LeftAlone tenants db { purged with
      forgotten := fun id => purged.forgotten id || !archive && victims.any fun row => row.id = id } :=
    ⟨alone.live, alone.archived, alone.atoms, alone.archivedAtoms, alone.envelopes, alone.archivedEnvelopes,
      alone.links, alone.standards, alone.pushes⟩
  exact safe_removal parted marked kept unique spared ok

end ForgetRows

/-- A row whose metadata is reset names no owner. -/
theorem movableBy_restoredRow {writer : WriterEnvironment} {row : Memory} {now : writer.chrono.Instant}
    (movable : movableBy caller row = true) : movableBy caller (restoredRow writer row now) = true := by
  have metadata : (restoredRow writer row now).metadata =
      if writer.metadataIsValid row.metadata then row.metadata else Json.empty := rfl
  by_cases valid : writer.metadataIsValid row.metadata = true
  · rw [if_pos valid] at metadata
    unfold movableBy ownedBy sentTo at movable ⊢
    rw [metadata]
    exact movable
  · rw [if_neg valid] at metadata
    unfold movableBy ownedBy
    rw [metadata]
    rfl

/-- An exposed entry leaves the archive without a shielded one. -/
theorem sameRows_without {entry : ArchivedMemory} {id : String} (parted : Parted tenants db)
    (found : db.archivedMemories.find? (fun other => other.row.id = id) = some entry)
    (bare : ¬ Shielded tenants entry.row) :
    SameRows (fun other => Shielded tenants other.row) db.archivedMemories
      (db.archivedMemories.filter fun other => other.row.id ≠ id) := by
  refine .filter fun other present shielded => ?_
  rw [decide_eq_true_eq]
  intro same
  obtain ⟨stored, own⟩ := (KeyedTable.find?_key_iff parted.unique _ _).mp found
  exact bare (List.inj_on_of_nodup_map parted.unique present stored (same.trans own.symm) ▸ shielded)

/-- The links that come back with a row have it at one end. -/
theorem sameRows_links_back {id : String} (gone : ¬ ShieldedId tenants db id) {returned : List MemoryLink}
    (touching : ∀ link ∈ returned, link.touches id = true) :
    SameRows (fun link => ShieldedId tenants db link.sourceId ∧ ShieldedId tenants db link.targetId)
      db.memoryLinks (db.memoryLinks ++ returned) := by
  intro link ends
  refine ⟨fun present => (List.mem_append.mp present).resolve_right fun added => ?_, List.mem_append_left _⟩
  rcases Bool.or_eq_true_iff.mp (touching link added) with source | target
  · exact gone (of_decide_eq_true source ▸ ends.1)
  · exact gone (of_decide_eq_true target ▸ ends.2)

/-- A restoration by a tenant is safe. -/
theorem safe_restore {restored : ErasureDatabase} {moved : Bool} (parted : Parted tenants db)
    (tenant : tenants caller) {id : String} {now : env.chrono.Instant}
    (ok : restoreArchivedForCaller env db id caller now = .ok (restored, moved)) : Safe tenants db restored := by
  unfold restoreArchivedForCaller at ok
  split at ok
  · obtain ⟨rfl, _⟩ := Prod.mk.inj (Except.ok.inj ok)
    exact ⟨.refl _, parted⟩
  · rename_i entry reached
    obtain ⟨found, movable⟩ := Option.filter_eq_some_iff.mp reached
    have bare := not_shielded_of_movable tenant movable
    obtain ⟨next, restoredOk, same⟩ := map_eq_ok.mp ok
    obtain ⟨rfl, _⟩ := Prod.mk.inj same
    unfold restoreErasable at restoredOk
    obtain ⟨⟨tables, back⟩, archivedOk, done⟩ := map_eq_ok.mp restoredOk
    rcases restoreArchived_eq_ok archivedOk with ⟨rfl, _, _⟩ |
      ⟨held, inserted, actualId, rfl, again, named, absent, _, insertedOk, _, moved⟩
    · obtain rfl : _ = db := done.symm
      exact ⟨.refl _, parted⟩
    obtain rfl := Option.some.inj (again.symm.trans found)
    obtain ⟨_, freshId, freshSlot, _, rfl⟩ := plainInsert_written insertedOk
    have gone : ¬ ShieldedId tenants db id := by
      rintro ⟨row, present, same, _⟩
      rw [(db.memories.find_eq_some_iff _ _).mpr ⟨present, same⟩] at absent
      cases absent
    have alone : LeftAlone tenants db next := by
      have elsewhere : ∀ other, ShieldedId tenants db other → other ≠ id := by
        rintro _ shielded rfl
        exact gone shielded
      rw [← done, moved]
      refine {
        live := .append (not_shielded_of_movable tenant (movableBy_restoredRow movable))
        archived := sameRows_without parted found bare
        atoms := fun other shielded => Function.update_of_ne (elsewhere other shielded) _ _
        archivedAtoms := fun _ _ _ => rfl
        envelopes := fun other shielded => Function.update_of_ne (elsewhere other shielded) _ _
        archivedEnvelopes := fun _ _ _ => rfl
        links := sameRows_links_back gone fun link returned => ?_
        standards := .refl _ _
        pushes := .refl _ _ }
      exact (of_decide_eq_true (List.mem_filter.mp returned).2).1
    refine ⟨alone, parted.next alone ?_ ?_⟩
    · rw [← done, moved]
      exact parted.unique.sublist (List.filter_sublist.map _)
    · rw [← done, moved]
      intro row present
      rcases List.mem_append.mp present with kept | added
      · exact .inl kept
      · obtain rfl := List.mem_singleton.mp added
        exact .inr fun entry left same => of_decide_eq_true (List.mem_filter.mp left).2 (same.trans named)

/-- No tenant can purge a shielded row. -/
theorem purgeableBy_eq_false (tenant : tenants caller) {row : Memory} (shielded : Shielded tenants row) :
    purgeableBy caller row = false := by
  obtain ⟨apart, unsent⟩ := Bool.or_eq_false_iff.mp (shielded caller tenant)
  rw [purgeableBy, unsent, Bool.or_false]
  rw [ownedBy, Option.all_some] at apart
  cases named : row.metadata.get "agent_id" with
  | none => rfl
  | some owner =>
      rw [named, Bool.or_eq_false_iff, Bool.or_eq_false_iff] at apart
      exact apart.1.2

/-- A purge by a tenant is safe. -/
theorem safe_purge {purged : ErasureDatabase} {count : Nat} (parted : Parted tenants db) (tenant : tenants caller)
    {olderThanDays : Option Int} {now : env.chrono.Instant}
    (ok : purgeArchiveForCaller env db caller olderThanDays now = .ok (purged, count)) : Safe tenants db purged := by
  unfold purgeArchiveForCaller at ok
  split at ok
  · cases ok
  · obtain ⟨rfl, _⟩ := Prod.mk.inj (Except.ok.inj ok)
    have alone : LeftAlone tenants db { db with
        archivedMemories := db.archivedMemories.filter fun entry =>
          !(olderThanDays.all (fun days => entry.archivedAt < env.chrono.toRfc3339
            (env.chrono.addSeconds now (-days * 86400))) && purgeableBy caller entry.row) } := by
      refine { LeftAlone.refl db with archived := .filter ?_ }
      intro entry _ shielded
      rw [purgeableBy_eq_false tenant shielded, Bool.and_false]
      rfl
    refine ⟨alone, parted.next alone ?_ fun row present => .inl present⟩
    exact parted.unique.sublist (List.filter_sublist.map _)

/-- Every call of a tenant is safe. -/
theorem safe_step (parted : Parted tenants db) (call : TenantCall env) (tenant : tenants call.caller) :
    Safe tenants db (tenantStep env db call) := by
  have refused : Safe tenants db db := ⟨.refl db, parted⟩
  unfold tenantStep
  split
  · rename_i id reason _
    dsimp only
    cases answered : archiveMemoryForCaller db id reason call.caller (env.chrono.toRfc3339 call.now) with
    | error _ => exact refused
    | ok result => exact safe_archive parted tenant answered
  · rename_i «namespace» pattern tier archive _
    cases answered : forgetErasable env db «namespace» pattern tier archive (some call.caller) call.now with
    | error _ => exact refused
    | ok result =>
        unfold forgetErasable at answered
        split at answered
        · cases answered
        dsimp only at answered
        split at answered
        · cases answered
        obtain ⟨erased, erasedOk, done⟩ := map_eq_ok.mp answered
        subst done
        exact safe_forgetRows parted (fun row _ shielded => forgetReaches_eq_false tenant shielded) erasedOk
  · rename_i id _
    cases answered : restoreArchivedForCaller env db id call.caller call.now with
    | error _ => exact refused
    | ok result => exact safe_restore parted tenant answered
  · rename_i olderThanDays _
    cases answered : purgeArchiveForCaller env db call.caller olderThanDays call.now with
    | error _ => exact refused
    | ok result => exact safe_purge parted tenant answered

/-- A run of the tenants is a safe step. -/
theorem safe_run (parted : Parted tenants db) {calls : List (TenantCall env)}
    (own : ∀ call ∈ calls, tenants call.caller) : Safe tenants db (run (tenantStep env) db calls) := by
  have preserved : ∀ state (call : TenantCall env), tenants call.caller → Safe tenants db state →
      Safe tenants db (tenantStep env state call) := by
    intro state call tenant before
    obtain ⟨alone, parted⟩ := safe_step before.2 call tenant
    exact ⟨before.1.trans alone, parted⟩
  exact run_invariant preserved (.of_labels own db) ⟨.refl db, parted⟩

/-- An archived copy of an exposed row replaces the shielded entry of its identifier. -/
theorem not_leftAlone_of_archive {archived : ErasureDatabase} {moved : Bool} {row : Memory} {entry : ArchivedMemory}
    (present : row ∈ db.memories.rows) (stored : entry ∈ db.archivedMemories) (same : entry.row.id = row.id)
    (shielded : Shielded tenants entry.row) (movable : movableBy caller row = true) (tenant : tenants caller)
    {reason : Option String} {now : String}
    (ok : archiveMemoryForCaller db row.id reason caller now = .ok (archived, moved)) :
    ¬ LeftAlone tenants db archived := by
  intro alone
  have reached : (db.memories.find row.id).filter (movableBy caller) = some row :=
    Option.filter_eq_some_iff.mpr ⟨(db.memories.find_eq_some_iff _ _).mpr ⟨present, rfl⟩, movable⟩
  have kept := (alone.archived entry shielded).mpr stored
  unfold archiveMemoryForCaller at ok
  rw [reached] at ok
  obtain ⟨deleted, deletedOk, done⟩ := map_eq_ok.mp ok
  obtain ⟨rfl, _⟩ := Prod.mk.inj done
  obtain ⟨_, rfl⟩ := deleteRows_eq_ok.mp deletedOk
  rcases List.mem_append.mp kept with older | copy
  · exact of_decide_eq_true (List.mem_filter.mp older).2 same
  · rw [List.mem_singleton.mp copy] at shielded
    exact shielded.not_movable tenant movable

/-- Where no live row is an atom, no deletion fails. -/
theorem archiveMemoryForCaller_ok (atomless : ∀ row ∈ db.memories.rows, db.atomOf row.id = none) (id : String)
    (reason : Option String) (caller now : String) :
    ∃ answer, archiveMemoryForCaller db id reason caller now = .ok answer := by
  unfold archiveMemoryForCaller
  cases (db.memories.find id).filter (movableBy caller) with
  | none => exact ⟨_, rfl⟩
  | some row =>
      refine ⟨_, map_eq_ok.mpr ⟨_, deleteRows_eq_ok.mpr ⟨?_, rfl⟩, rfl⟩⟩
      refine List.any_eq_false.mpr fun atom present => ?_
      rw [show db.atomOf atom.id = none from atomless atom present, Option.any_none, Bool.and_false]
      exact Bool.false_ne_true

end Steps

/-- Whatever the tenants call, in any order, the rows of the other agents stay as they are where none of their archived
rows has the identifier of a live row that a tenant can move, and exactly there while no live row is an atom. -/
theorem tenants_leaveAlone (env : SealingEnvironment) (now : env.chrono.Instant) (tenants : String → Prop)
    (db : ErasureDatabase) (unique : (db.archivedMemories.map fun entry => entry.row.id).Nodup) :
    let apart := ∀ row ∈ db.memories.rows, ∀ entry ∈ db.archivedMemories, entry.row.id = row.id →
      Shielded tenants entry.row → Shielded tenants row
    let always := ∀ calls : List (TenantCall env), (∀ call ∈ calls, tenants call.caller) →
      LeftAlone tenants db (run (tenantStep env) db calls)
    (apart → always) ∧ ((∀ row ∈ db.memories.rows, db.atomOf row.id = none) → always → apart) := by
  constructor
  · exact fun apart calls own => (safe_run ⟨unique, apart⟩ own).1
  · intro atomless always row present entry stored same shielded caller tenant
    by_contra movable
    rw [Bool.not_eq_false] at movable
    obtain ⟨⟨archived, moved⟩, ok⟩ :=
      archiveMemoryForCaller_ok atomless row.id none caller (env.chrono.toRfc3339 now)
    refine not_leftAlone_of_archive present stored same shielded movable tenant ok ?_
    have alone := always [⟨caller, .archive row.id none, now⟩] (by simpa using tenant)
    simpa [run, tenantStep, ok, Except.map, Except.toOption] using alone

/-- Bob tries what he can on his own rows and on those of Alice. -/
def bobsCalls : List (TenantCall sealingEnvironment) :=
  [⟨"ai:bob", .archive "a-id" none, (0 : Int)⟩, ⟨"ai:bob", .restore "c-id", (0 : Int)⟩,
    ⟨"ai:bob", .restore "d-id", (0 : Int)⟩, ⟨"ai:bob", .archive "b-id" (some "tidy"), (0 : Int)⟩,
    ⟨"ai:bob", .forget (some "ns") none none true, (0 : Int)⟩, ⟨"ai:bob", .purgeArchive none, (0 : Int)⟩]

/-- Both agents keep a live row and an archived one in the same namespace. -/
def sharedDatabase : ErasureDatabase :=
  run (erasureStep sealingEnvironment) (.fresh []) [.insert (agentRow "a-id" "ai:alice" "alpha") (0 : Int) firstCoins,
    .insert { agentRow "b-id" "ai:bob" "beta" with title := "second" } (0 : Int) secondCoins,
    .insert { agentRow "c-id" "ai:alice" "alpha" with title := "third" } (0 : Int) firstCoins,
    .insert { agentRow "d-id" "ai:bob" "beta" with title := "fourth" } (0 : Int) secondCoins,
    .archive "c-id" none (0 : Int), .archive "d-id" none (0 : Int)]

/-- Bob's archived row comes back before he forgets it, and in the end he has no row left. -/
theorem tenants_leaveAlone_shared :
    sharedDatabase.memories.rows.map (·.id) = ["a-id", "b-id"] ∧
      sharedDatabase.archivedMemories.map (·.row.id) = ["c-id", "d-id"] ∧
      (run (tenantStep sealingEnvironment) sharedDatabase (bobsCalls.take 3)).memories.rows.map (·.id) =
        ["a-id", "b-id", "d-id"] ∧
      (run (tenantStep sealingEnvironment) sharedDatabase bobsCalls).memories.rows.map (·.id) = ["a-id"] ∧
      (run (tenantStep sealingEnvironment) sharedDatabase bobsCalls).archivedMemories.map (·.row.id) = ["c-id"] ∧
      LeftAlone (· = "ai:bob") sharedDatabase (run (tenantStep sealingEnvironment) sharedDatabase bobsCalls) := by
  have elsewhere : ∀ row ∈ sharedDatabase.memories.rows, ∀ entry ∈ sharedDatabase.archivedMemories,
      entry.row.id ≠ row.id := by decide +kernel
  refine ⟨by decide +kernel, by decide +kernel, by decide +kernel, by decide +kernel, by decide +kernel, ?_⟩
  refine (tenants_leaveAlone sealingEnvironment (0 : Int) (· = "ai:bob") sharedDatabase (by decide +kernel)).1 ?_ _ ?_
  · exact fun row present entry stored same _ => absurd same (elsewhere row present entry stored)
  · decide

end AiMemory.Storage
