import AiMemory.Storage.Insert

/-
This file embeds the writers that change one stored row.
-/

namespace AiMemory.Storage
open AiMemory.Crdt AiMemory.Library AiMemory.Machine

/-- A caller names only the fields that it changes. -/
structure Patch where
  title : Option String
  content : Option String
  tier : Option Tier
  «namespace» : Option String
  tags : Option (List String)
  priority : Option Int
  confidence : Option F64
  expiresAt : Option String
  metadata : Option Json
  sourceUri : Option String

section Compose

/-- A patch never lowers the tier. -/
def effectiveTier (requested : Option Tier) (existing : Tier) : Tier :=
  match requested with
  | none => existing
  | some requested =>
      match existing, requested with
      | .long, _ => .long
      | .mid, .short => .mid
      | _, requested => requested

/-- The empty text clears the expiry. -/
def patchedExpiresAt (requested existing : Option String) : Option String :=
  match requested with
  | some "" => none
  | some "null" => none
  | some expiresAt => some expiresAt
  | none => existing

/-- The row that the hook sees is the patch over the row that the call read. -/
def governedRow (patch : Patch) (existing : Memory) : Memory :=
  { existing with
    tier := effectiveTier patch.tier existing.tier
    «namespace» := patch.namespace.getD existing.namespace
    title := patch.title.getD existing.title
    content := patch.content.getD existing.content
    tags := patch.tags.getD existing.tags
    priority := patch.priority.getD existing.priority
    confidence := patch.confidence.getD existing.confidence
    expiresAt := patchedExpiresAt patch.expiresAt existing.expiresAt
    metadata := patch.metadata.getD existing.metadata
    sourceUri := patch.sourceUri.or existing.sourceUri }

/-- The statement writes the composed columns over the row that it finds. -/
def updatedRow (patch : Patch) (governed current : Memory) (now : String) : Memory :=
  { current with
    tier := governed.tier
    «namespace» := governed.namespace
    title := governed.title
    content := governed.content
    tags := governed.tags
    priority := governed.priority
    confidence := governed.confidence
    updatedAt := now
    expiresAt := governed.expiresAt
    metadata := governed.metadata
    sourceUri := patch.sourceUri.or current.sourceUri
    version := current.version + 1 }

def contentChanged (governed existing : Memory) : Bool :=
  governed.title ≠ existing.title || governed.content ≠ existing.content

end Compose

section Update

variable (env : WriterEnvironment)

/-- The call reads the row before its transaction, and every later column comes from this copy. -/
def readForUpdate (store : Store) (id : String) (patch : Patch) (expectedVersion : Option Int) :
    Except StorageError (Option Memory) := do
  gateStorageConn store
  match store.memories.find id with
  | none => .ok none
  | some existing =>
      match expectedVersion.filter fun expected => existing.version ≠ expected with
      | some expected => .error (.versionConflict id expected existing.version)
      | none =>
          consultGovernancePreWrite env.toEnvironment (governedRow patch existing)
          .ok (some existing)

/-- The violated constraint names the row that already holds the slot, if there is one. -/
def constraintError (store : Store) (id : String) (written : Memory) : StorageError :=
  match (store.memories.findSlot (slotOf written)).filter fun other => other.id ≠ id with
  | some other => .uniqueConflict ("title '" ++ written.title ++ "' already exists in namespace '" ++
      written.namespace ++ "' (memory " ++ other.id ++ ")")
  | none => .updateConstraint

/-- The transaction archives the stored row if the early copy says that the content changes, and then writes. -/
def commitUpdate (store : Store) (id : String) (patch : Patch) (existing : Memory) (expectedVersion : Option Int)
    (now : env.chrono.Instant) : Except StorageError (Store × Bool × Bool) :=
  let governed := governedRow patch existing
  let changed := contentChanged governed existing
  match store.memories.find id with
  | none => .ok (store, false, false)
  | some current =>
      match expectedVersion.filter fun expected => current.version ≠ expected with
      | some expected => .error (.versionConflict id expected current.version)
      | none =>
          let written := updatedRow patch governed current (env.chrono.toRfc3339 now)
          let archived :=
            if changed then
              archiveRow store.archivedMemories current "in_place_edit" (env.chrono.toRfc3339 now)
            else store.archivedMemories
          match checkConstraints written with
          | some _ => .error (constraintError store id written)
          | none =>
              if noClash : ∀ other ∈ store.memories.findSlot (slotOf written), other.id = written.id then
                .ok ({ store with
                  memories := store.memories.replace written noClash
                  archivedMemories := archived }, true, changed)
              else .error (constraintError store id written)

def updateWithExpectedVersion (store : Store) (id : String) (patch : Patch) (expectedVersion : Option Int)
    (now : env.chrono.Instant) : Except StorageError (Store × Bool × Bool) := do
  match ← readForUpdate env store id patch expectedVersion with
  | none => .ok (store, false, false)
  | some existing => commitUpdate env store id patch existing expectedVersion now

variable {env}

/-- A successful transaction finds no row, or replaces it and archives it where its copy says that the content
changes. -/
theorem commitUpdate_written {store written : Store} {id : String} {patch : Patch} {existing : Memory}
    {expectedVersion : Option Int} {now : env.chrono.Instant} {answer : Bool × Bool}
    (ok : commitUpdate env store id patch existing expectedVersion now = .ok (written, answer)) :
    let changed := contentChanged (governedRow patch existing) existing
    (store.memories.find id = none ∧ written = store ∧ answer = (false, false)) ∨
      ∃ current noClash, store.memories.find id = some current ∧ answer = (true, changed) ∧
        checkConstraints (updatedRow patch (governedRow patch existing) current (env.chrono.toRfc3339 now)) = none ∧
        written = { store with
          memories := store.memories.replace
            (updatedRow patch (governedRow patch existing) current (env.chrono.toRfc3339 now)) noClash
          archivedMemories :=
            if changed then archiveRow store.archivedMemories current "in_place_edit" (env.chrono.toRfc3339 now)
            else store.archivedMemories } := by
  unfold commitUpdate at ok
  dsimp only at ok
  split at ok
  · rename_i absent
    obtain ⟨rfl, rfl⟩ := Prod.mk.inj (Except.ok.inj ok)
    exact .inl ⟨absent, rfl, rfl⟩
  · rename_i current found
    split at ok
    · contradiction
    · split at ok
      · contradiction
      · rename_i checked
        split at ok
        · rename_i noClash
          obtain ⟨rfl, rfl⟩ := Prod.mk.inj (Except.ok.inj ok)
          exact .inr ⟨current, noClash, found, rfl, checked, rfl⟩
        · contradiction

end Update

section Lifecycle

/-- A terminal state goes nowhere. -/
def lifecycleCanTransitionTo : LifecycleState → LifecycleState → Bool
  | .open, .active => true
  | .open, .abandoned => true
  | .active, .blocked => true
  | .active, .done => true
  | .active, .abandoned => true
  | .blocked, .active => true
  | .blocked, .abandoned => true
  | _, _ => false

def advanceLifecycle (target : LifecycleState) (now : String) (row : Memory) : Memory :=
  { row with lifecycleState := target, updatedAt := now, version := row.version + 1 }

/-- The request for the current state succeeds without a write. -/
def setLifecycleState (chrono : Chrono) (store : Store) (id : String) (target : LifecycleState)
    (now : chrono.Instant) : Except StorageError (Store × Bool) :=
  match store.memories.find id with
  | none => .ok (store, false)
  | some row =>
      if row.lifecycleState = target then .ok (store, true)
      else if lifecycleCanTransitionTo row.lifecycleState target then
        .ok (rewriteRow store id (advanceLifecycle target (chrono.toRfc3339 now)) (fun _ => rfl) fun _ => rfl, true)
      else .error (.invalidTransition id row.lifecycleState target)

end Lifecycle

section Touch

variable (chrono : Chrono) (shortExtend midExtend : Int) (now : chrono.Instant)

/-- An access extends the expiry and never shortens it. -/
def bumpAccess (row : Memory) : Memory :=
  { row with
    accessCount := min (row.accessCount + 1) 1000000
    lastAccessedAt := some (chrono.toRfc3339 now)
    expiresAt :=
      match row.tier with
      | .long => row.expiresAt
      | .short => row.expiresAt.map fun expiry =>
          larger expiry (chrono.toRfc3339 (chrono.addSeconds now shortExtend))
      | .mid => row.expiresAt.map fun expiry =>
          larger expiry (chrono.toRfc3339 (chrono.addSeconds now midExtend)) }

def promotionThreshold : Int := 5

def promote (row : Memory) : Memory :=
  if row.tier = .mid ∧ promotionThreshold ≤ row.accessCount then
    { row with tier := .long, expiresAt := none, updatedAt := chrono.toRfc3339 now }
  else row

/-- Every tenth access raises the priority. -/
def raisePriority (row : Memory) : Memory :=
  if 0 < row.accessCount ∧ row.accessCount % 10 = 0 ∧ row.priority < 10 then
    { row with priority := min (row.priority + 1) 10 }
  else row

def touchRow (row : Memory) : Memory :=
  raisePriority (promote chrono now (bumpAccess chrono shortExtend midExtend now row))

@[simp] theorem id_touchRow (row : Memory) : (touchRow chrono shortExtend midExtend now row).id = row.id := by
  unfold touchRow raisePriority promote
  split_ifs <;> rfl

theorem slotOf_touchRow (row : Memory) :
    slotOf (touchRow chrono shortExtend midExtend now row) = slotOf row := by
  unfold touchRow raisePriority promote
  split_ifs <;> rfl

def touch (store : Store) (id : String) : Store :=
  rewriteRow store id (touchRow chrono shortExtend midExtend now) (id_touchRow chrono shortExtend midExtend now)
    (slotOf_touchRow chrono shortExtend midExtend now)

/-- The batch touches its rows one after the other in one transaction. -/
def touchMany (store : Store) (ids : List String) : Store := ids.foldl (touch chrono shortExtend midExtend now) store

end Touch

section Contradiction

variable (env : WriterEnvironment)

def canonicalContradictionPair (first second : String) : String × String :=
  if first ≤ second then (first, second) else (second, first)

def contradictionKey (first second : String) : String × String × String :=
  ((canonicalContradictionPair first second).1, (canonicalContradictionPair first second).2, "contradicts")

/-- The link funnel has the gate, checks both ends and ignores a link that is already there. -/
def createLinkSigned (db : Database) (sourceId targetId relation : String) (now : env.chrono.Instant) :
    Except StorageError Database := do
  gateStorageConn db.toStore
  let stamp := env.chrono.toRfc3339 now
  let link : MemoryLink := ⟨sourceId, targetId, relation, stamp, some stamp, none, none, none, "unsigned"⟩
  match env.validateLinkPreCreate db.toStore db.memoryLinks link with
  | some reason => .error (.linkRefused reason)
  | none =>
      if db.memories.find sourceId = none then .error (.memoryNotFound sourceId (some .source))
      else if db.memories.find targetId = none then .error (.memoryNotFound targetId (some .target))
      else
        let signed := match env.signLink link with
          | some (agentId, signature) =>
              { link with observedBy := some agentId, signature := some signature, attestLevel := "self_signed" }
          | none => link
        .ok { db with memoryLinks :=
          if db.memoryLinks.any fun other => other.key = link.key then db.memoryLinks
          else db.memoryLinks ++ [signed] }

/-- The loser carries three marks until the contradiction is reversed. -/
def contradictionMarked (metadata : Json) (winnerId : String) : Json :=
  ((metadata.insert "contradiction_conserved" (.bool true)).insert "contradiction_soft_loser" (.bool true)).insert
    "contradiction_winner_id" (.string winnerId)

/-- The marks go over the metadata that the transaction read. -/
def markLoser (metadata : Json) (winnerId : String) (row : Memory) : Memory :=
  { row with metadata := contradictionMarked metadata winnerId }

theorem id_markLoser (metadata : Json) (winnerId : String) (row : Memory) :
    (markLoser metadata winnerId row).id = row.id := rfl

theorem slotOf_markLoser (metadata : Json) (winnerId : String) (row : Memory) :
    slotOf (markLoser metadata winnerId row) = slotOf row := rfl

def markedStore (store : Store) (loserId : String) (metadata : Json) (winnerId : String) : Store :=
  rewriteRow store loserId (markLoser metadata winnerId) (id_markLoser metadata winnerId)
    (slotOf_markLoser metadata winnerId)

/-- A vanished loser makes the call a success without a write. -/
def conserveContradiction (db : Database) (loserId winnerId : String) (now : env.chrono.Instant) :
    Except StorageError Database :=
  match db.memories.find loserId with
  | none => .ok db
  | some current => do
      let (source, target) := canonicalContradictionPair loserId winnerId
      let linked ←
        if db.memoryLinks.any fun link => link.key = contradictionKey loserId winnerId then .ok db
        else createLinkSigned env db source target "contradicts" now
      if current.metadata.isObject then
        .ok { linked with toStore := markedStore linked.toStore loserId current.metadata winnerId }
      else .error (.metadataNotObject loserId)

end Contradiction
end AiMemory.Storage
