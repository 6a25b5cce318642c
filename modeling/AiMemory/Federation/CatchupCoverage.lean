import AiMemory.Federation.CountedAck
import AiMemory.Federation.Watermark

/-
This file follows the watermark of a peer over pulls, pushes and bookkeeping, and decides when it passes no row.
-/

namespace AiMemory.Federation
open AiMemory.Crdt AiMemory.Library AiMemory.Machine AiMemory.Storage

section Handed

variable (env : ReceiverEnvironment)

/-- The list has the row in its version or in a later one. -/
def Handed (given : List Memory) (row : Memory) : Prop :=
  ∃ other ∈ given, other.id = row.id ∧ row.updatedAt ≤ other.updatedAt

instance (given : List Memory) (row : Memory) : Decidable (Handed given row) :=
  inferInstanceAs (Decidable (∃ other ∈ given, other.id = row.id ∧ row.updatedAt ≤ other.updatedAt))

theorem Handed.mono {given more : List Memory} {row : Memory} (handed : Handed given row)
    (sub : ∀ other ∈ given, other ∈ more) : Handed more row := by
  obtain ⟨other, present, same⟩ := handed
  exact ⟨other, sub other present, same⟩

/-- The row passes the attribution, the attestation and the ledger. -/
def reachesMerge (peerHeader : Option String) (senderAgentId : String) (receiver : Receiver env) (row : Memory) :
    Bool :=
  match receiveRow env.lineage (receivePolicy env receiver.toDatabase) peerHeader senderAgentId row with
  | .error _ => false
  | .ok (received, agent) =>
      match env.checkAndRecordStorageOnly receiver.ledger agent row.namespace (bytesEstimate env received) with
      | .ok _ => true
      | .exceeded | .unreadable => false

/-- The rows that one element of a push brings to the merge. -/
def handedElement (peerHeader : Option String) (body : SyncPushBody) (progress : PushProgress env)
    (taken : Element × Stamp env.chrono) : List Memory :=
  if progress.refused || !wellFormed env taken.1 || body.dryRun then []
  else
    match taken.1 with
    | .memory row =>
        if reachesMerge env peerHeader body.senderAgentId progress.receiver row then [row] else []
    | _ => []

def handedAlong (peerHeader : Option String) (body : SyncPushBody) :
    PushProgress env → List (Element × Stamp env.chrono) → List Memory
  | _, [] => []
  | progress, taken :: rest =>
      handedElement env peerHeader body progress taken ++
        handedAlong peerHeader body (takeElement env peerHeader body progress taken) rest

/-- The rows that a push brings to the merge. -/
def handedByPush (request : PushRequest) (stamps : Nat → Stamp env.chrono) (receiver : Receiver env) :
    List Memory :=
  match preflight env request with
  | .error _ => []
  | .ok body => handedAlong env request.peerHeader body ⟨receiver, []⟩ (stampedElements env stamps body)

/-- The rows of a page that the loop brings to the merge. -/
def handedByPage (page : List Memory) : List Memory :=
  page.filter fun row => (validateMemory env.toValidators env.chrono row).isNone

/-- The watermark of a page is the stamp of one of its valid rows. -/
theorem latestTs_applyPage {store : Store} {page : List (Option Memory × env.chrono.Instant)} {latestTs : String}
    (found : (applyPage env store page).latestTs = some latestTs) :
    ∃ pulled ∈ page, ∃ row, pulled.1 = some row ∧
      (validateMemory env.toValidators env.chrono row).isNone ∧ row.updatedAt = latestTs := by
  have step (progress : CatchupProgress) (pulled : Option Memory × env.chrono.Instant) (present : pulled ∈ page)
      (before : ∀ ts ∈ progress.latestTs, ∃ pulled ∈ page, ∃ row, pulled.1 = some row ∧
        (validateMemory env.toValidators env.chrono row).isNone ∧ row.updatedAt = ts) :
      ∀ ts ∈ (applyPulled env progress pulled).latestTs, ∃ pulled ∈ page, ∃ row, pulled.1 = some row ∧
        (validateMemory env.toValidators env.chrono row).isNone ∧ row.updatedAt = ts := by
    intro ts
    unfold applyPulled
    split
    · exact before ts
    · rename_i row parsed
      split_ifs with invalid
      · exact before ts
      · split
        · dsimp only
          unfold advanceCatchupWatermark
          split_ifs
          · rintro ⟨⟩
            exact ⟨pulled, present, row, parsed, by simpa using invalid, rfl⟩
          · exact before ts
        · exact before ts
  have started : ∀ ts ∈ (none : Option String), ∃ pulled ∈ page, ∃ row, pulled.1 = some row ∧
      (validateMemory env.toValidators env.chrono row).isNone ∧ row.updatedAt = ts := by
    rintro ts ⟨⟩
  exact run_invariant step (.of_labels (fun pulled present => present) _) started latestTs found

end Handed

section Mesh

/-- A pull that was asked for, with its page once the peer has answered. -/
structure Pull where
  peerId : String
  since : Option String
  page : Option (List Memory)

/-- The tables of the peers, and the node that pulls from them. -/
structure Mesh (env : ReceiverEnvironment) where
  tables : String → MemoryTable
  receiver : Receiver env
  syncState : SyncState
  pull : Option Pull
  handed : List Memory

/-- What happens between the peers and the node; a request that is lost is asked again. -/
inductive MeshStep (env : ReceiverEnvironment) where
  | write (peerId : String) (table : MemoryTable)
  | ask (peerId : String)
  | answer (limit : Nat)
  | apply (instants : Nat → env.chrono.Instant) (pulledAt : String)
  | push (request : PushRequest) (senderClock : VectorClock) (stamps : Nat → Stamp env.chrono) (seenAt : String)
  | recordPush (agentId peerId pushedAt now : String)

variable (env : ReceiverEnvironment) (localId : String)

def stampedPage (page : List Memory) (instants : Nat → env.chrono.Instant) :
    List (Option Memory × env.chrono.Instant) :=
  page.zipIdx.map fun (row, index) => (some row, instants index)

def meshStep (mesh : Mesh env) : MeshStep env → Mesh env
  | .write peerId table => { mesh with tables := fun other => if other = peerId then table else mesh.tables other }
  | .ask peerId => { mesh with pull := some ⟨peerId, syncStateLoad mesh.syncState localId peerId, none⟩ }
  | .answer limit =>
      match mesh.pull with
      | some ⟨peerId, since, none⟩ =>
          { mesh with pull := some ⟨peerId, since, some (memoriesUpdatedSince (mesh.tables peerId) since limit)⟩ }
      | _ => mesh
  | .apply instants pulledAt =>
      match mesh.pull with
      | some ⟨peerId, _, some page⟩ =>
          let applied := applyPage env mesh.receiver.toStore (stampedPage env page instants)
          { mesh with
            receiver := { mesh.receiver with toStore := applied.store }
            syncState := match applied.latestTs with
              | none => mesh.syncState
              | some ts => syncStateObserve mesh.syncState localId peerId ts pulledAt
            pull := none
            handed := mesh.handed ++ handedByPage env page }
      | _ => mesh
  | .push request senderClock stamps seenAt =>
      { mesh with
        receiver := (syncPush env request stamps mesh.receiver).1
        syncState := syncPushClock env request senderClock stamps mesh.receiver mesh.syncState seenAt
        handed := mesh.handed ++ handedByPush env request stamps mesh.receiver }
  | .recordPush agentId peerId pushedAt now =>
      { mesh with syncState := syncStateRecordPush mesh.syncState agentId peerId pushedAt now }

end Mesh

section Coverage

variable (env : ReceiverEnvironment) (localId : String) (accepted : Memory → Prop)

/-- The rows that the pull owes: they are visible, valid as they are served, and accepted. -/
def Owed (row : Memory) : Prop :=
  isRecallVisible row.lifecycleState = true ∧
    (validateMemory env.toValidators env.chrono (servedRow row)).isNone ∧ accepted row

/-- Every owed row up to the watermark of its peer has been handed to the merge. -/
def CatchupComplete (mesh : Mesh env) : Prop :=
  ∀ peerId watermark, syncStateLoad mesh.syncState localId peerId = some watermark →
    ∀ row ∈ (mesh.tables peerId).rows, Owed env accepted row → row.updatedAt ≤ watermark → Handed mesh.handed row

/-- An owed row of the peer that the merge has not been given. -/
def Missing (mesh : Mesh env) (peerId : String) (row : Memory) : Prop :=
  row ∈ (mesh.tables peerId).rows ∧ Owed env accepted row ∧ ¬ Handed mesh.handed row

/-- The steps that pass no row: a peer stamps its writes after everything that the node has seen of it, a page does
not end inside a run of equal stamps, a push brings no mark beyond a row that is still missing after it, and a push to
a peer starts no watermark beyond one. -/
def Orderly (mesh : Mesh env) : MeshStep env → Prop
  | .write peerId table => ∀ row ∈ table.rows, row ∉ (mesh.tables peerId).rows → Owed env accepted row →
      ¬ Handed mesh.handed row →
      (∀ watermark, syncStateLoad mesh.syncState localId peerId = some watermark → watermark < row.updatedAt) ∧
        ∀ pull ∈ mesh.pull, pull.peerId = peerId → ∀ page ∈ pull.page, ∀ other ∈ page,
          other.updatedAt < row.updatedAt
  | .ask _ => True
  | .answer limit => ∀ pull ∈ mesh.pull, pull.page = none →
      ∀ row ∈ (rowsSince (mesh.tables pull.peerId) pull.since).drop limit, Owed env accepted row →
      ¬ Handed mesh.handed row →
      ∀ taken ∈ (rowsSince (mesh.tables pull.peerId) pull.since).take limit, taken.updatedAt ≠ row.updatedAt
  | .apply _ _ => True
  | .push request senderClock stamps _ => ∀ body, preflight env request = .ok body →
      request.localAgentId = some localId → (syncPush env request stamps mesh.receiver).2.status = 200 →
      body.dryRun = false → ∀ mark ∈ pushMarks env body senderClock, ∀ row, Missing env accepted mesh mark.1 row →
      row.updatedAt ≤ mark.2 → Handed (handedByPush env request stamps mesh.receiver) row
  | .recordPush agentId peerId _ now => agentId = localId → syncStateLoad mesh.syncState localId peerId = none →
      ∀ row, Missing env accepted mesh peerId row → now < row.updatedAt

/-- A pull begins at a mark that was passed, and its page has every missing row between its first and its last. -/
structure PullFits (mesh : Mesh env) (pull : Pull) : Prop where
  started : ∀ since ∈ pull.since,
    ∃ watermark, syncStateLoad mesh.syncState localId pull.peerId = some watermark ∧ since ≤ watermark
  served : ∀ page ∈ pull.page, ∀ row, Missing env accepted mesh pull.peerId row →
    (∀ since ∈ pull.since, since < row.updatedAt) → ∀ other ∈ page, row.updatedAt ≤ other.updatedAt →
    Handed (handedByPage env page) row

/-- The invariant of the orderly runs. -/
structure Covered (mesh : Mesh env) : Prop where
  complete : CatchupComplete env localId accepted mesh
  fits : ∀ pull ∈ mesh.pull, PullFits env localId accepted mesh pull

variable {env localId accepted} {mesh next : Mesh env}

theorem Missing.before {peerId : String} {row : Memory} (missing : Missing env accepted next peerId row)
    (tables : next.tables = mesh.tables) (more : ∀ given ∈ mesh.handed, given ∈ next.handed) :
    Missing env accepted mesh peerId row :=
  ⟨tables ▸ missing.1, missing.2.1, fun handed => missing.2.2 (handed.mono more)⟩

/-- A missing row below a stored watermark makes the catchup incomplete. -/
theorem incomplete_of_missing {peerId watermark : String} {row : Memory}
    (missing : Missing env accepted mesh peerId row)
    (loaded : syncStateLoad mesh.syncState localId peerId = some watermark) (below : row.updatedAt ≤ watermark) :
    ¬ CatchupComplete env localId accepted mesh :=
  fun complete => missing.2.2 (complete peerId watermark loaded row missing.1 missing.2.1 below)

/-- A clock that advances to marks before every missing row stays complete. -/
theorem complete_of_advances {marks : List Mark} (tables : next.tables = mesh.tables)
    (more : ∀ given ∈ mesh.handed, given ∈ next.handed)
    (advances : Advances localId marks mesh.syncState next.syncState)
    (passed : ∀ mark ∈ marks, ∀ row, Missing env accepted next mark.1 row → mark.2 < row.updatedAt)
    (complete : CatchupComplete env localId accepted mesh) : CatchupComplete env localId accepted next := by
  intro peerId watermark loaded row present owed below
  by_contra unhanded
  rcases advances.bounded peerId watermark loaded with old | marked
  · exact unhanded ((complete peerId watermark old row (tables ▸ present) owed below).mono more)
  · have above := passed _ marked row ⟨present, owed, unhanded⟩
    exact absurd below (not_le.mpr above)

/-- A pull that fits still fits after more rows were handed out. -/
theorem PullFits.advance {marks : List Mark} {pull : Pull} (fits : PullFits env localId accepted mesh pull)
    (tables : next.tables = mesh.tables) (more : ∀ given ∈ mesh.handed, given ∈ next.handed)
    (advances : Advances localId marks mesh.syncState next.syncState) : PullFits env localId accepted next pull where
  started since begun := by
    obtain ⟨known, loaded, below⟩ := fits.started since begun
    obtain ⟨watermark, reached, above⟩ := advances.grows pull.peerId known loaded
    exact ⟨watermark, reached, below.trans above⟩
  served page answered row missing := fits.served page answered row (missing.before tables more)

/-- An orderly write keeps every watermark covered. -/
theorem covered_write {peerId : String} {table : MemoryTable}
    (orderly : Orderly env localId accepted mesh (.write peerId table)) (covered : Covered env localId accepted mesh) :
    Covered env localId accepted (meshStep env localId mesh (.write peerId table)) where
  complete other watermark loaded row present owed below := by
    change row ∈ (if other = peerId then table else mesh.tables other).rows at present
    split_ifs at present with here
    · subst here
      by_contra unhanded
      by_cases kept : row ∈ (mesh.tables other).rows
      · exact unhanded (covered.complete other watermark loaded row kept owed below)
      · exact absurd below (not_le.mpr ((orderly row present kept owed unhanded).1 watermark loaded))
    · exact covered.complete other watermark loaded row present owed below
  fits pull pulled := by
    have fits := covered.fits pull pulled
    refine ⟨fits.started, fun page answered row missing after other present below => ?_⟩
    obtain ⟨stored, owed, unhanded⟩ := missing
    change row ∈ (if pull.peerId = peerId then table else mesh.tables pull.peerId).rows at stored
    have old (kept : row ∈ (mesh.tables pull.peerId).rows) : Handed (handedByPage env page) row :=
      fits.served page answered row ⟨kept, owed, unhanded⟩ after other present below
    split_ifs at stored with here
    · by_cases kept : row ∈ (mesh.tables pull.peerId).rows
      · exact old kept
      · -- The write is stamped after the page that is under way.
        have later := (orderly row stored (here ▸ kept) owed unhanded).2 pull pulled here page answered other present
        exact absurd below (not_le.mpr later)
    · exact old stored

/-- A request keeps every watermark covered. -/
theorem covered_ask {peerId : String} (covered : Covered env localId accepted mesh) :
    Covered env localId accepted (meshStep env localId mesh (.ask peerId)) where
  complete := covered.complete
  fits := by
    rintro pull ⟨⟩
    exact ⟨fun since begun => ⟨since, begun, le_rfl⟩, fun page none => nomatch none⟩

/-- The page offers the visible rows above the watermark. -/
theorem mem_rowsSince {table : MemoryTable} {since : Option String} {row : Memory} :
    row ∈ rowsSince table since ↔
      row ∈ table.rows ∧ isRecallVisible row.lifecycleState = true ∧ ∀ mark ∈ since, mark < row.updatedAt := by
  unfold rowsSince
  rw [(List.perm_insertionSort _ _).mem_iff, List.mem_filter]
  cases since <;> simp

/-- An answer that does not cut between equal stamps keeps every watermark covered. -/
theorem covered_answer {limit : Nat} (orderly : Orderly env localId accepted mesh (.answer limit))
    (covered : Covered env localId accepted mesh) :
    Covered env localId accepted (meshStep env localId mesh (.answer limit)) := by
  unfold meshStep
  dsimp only
  split
  · rename_i peerId since asked
    refine ⟨covered.complete, ?_⟩
    rintro pull ⟨⟩
    refine ⟨(covered.fits _ asked).started, ?_⟩
    rintro page ⟨⟩ row missing after other present below
    obtain ⟨taken, first, rfl⟩ := List.mem_map.mp present
    have listed : row ∈ rowsSince (mesh.tables peerId) since :=
      mem_rowsSince.mpr ⟨missing.1, missing.2.1.1, after⟩
    have sorted : (rowsSince (mesh.tables peerId) since).Pairwise fun left right => left.updatedAt ≤ right.updatedAt :=
      insertionSort_sorted (fun row : Memory => row.updatedAt) _
    have paged := mem_take_of_le sorted listed first below fun cut =>
      orderly _ asked rfl row cut missing.2.1 missing.2.2 taken first
    have given : servedRow row ∈ handedByPage env
        (memoriesUpdatedSince (mesh.tables peerId) since limit) :=
      List.mem_filter.mpr ⟨List.mem_map_of_mem paged, missing.2.1.2.1⟩
    exact ⟨servedRow row, given, rfl, le_rfl⟩
  · exact covered

/-- An applied page keeps every watermark covered. -/
theorem covered_apply {instants : Nat → env.chrono.Instant} {pulledAt : String}
    (covered : Covered env localId accepted mesh) :
    Covered env localId accepted (meshStep env localId mesh (.apply instants pulledAt)) := by
  unfold meshStep
  dsimp only
  split
  · rename_i peerId since page answered
    have fits := covered.fits _ answered
    refine ⟨?_, fun pull none => nomatch none⟩
    have more : ∀ given ∈ mesh.handed, given ∈ mesh.handed ++ handedByPage env page :=
      fun given present => List.mem_append_left _ present
    cases latest : (applyPage env mesh.receiver.toStore (stampedPage env page instants)).latestTs with
    | none =>
        exact @complete_of_advances env localId accepted mesh _ [] rfl more (.refl _ _) (fun _ none => nomatch none)
          covered.complete
    | some ts =>
        refine @complete_of_advances env localId accepted mesh _ _ rfl more (advances_observe ts) ?_ covered.complete
        intro mark marked row missing
        obtain rfl := List.mem_singleton.mp marked
        by_contra reached
        obtain ⟨pulled, present, other, parsed, _, stamped⟩ := latestTs_applyPage env latest
        obtain ⟨⟨served, index⟩, numbered, rfl⟩ := List.mem_map.mp present
        obtain rfl := Option.some.inj parsed
        have inPage : served ∈ page := List.fst_mem_of_mem_zipIdx numbered
        have unhanded := missing.2.2
        apply unhanded
        by_cases after : ∀ mark ∈ since, mark < row.updatedAt
        · have given := fits.served page rfl row (missing.before rfl more) after served inPage
            (stamped ▸ not_lt.mp reached)
          exact given.mono fun other present => List.mem_append_right _ present
        · -- The row lies at or before the start of the pull, which the watermark had passed.
          push Not at after
          obtain ⟨begin, begun, before⟩ := after
          obtain ⟨watermark, loaded, passed⟩ := fits.started begin begun
          exact (covered.complete peerId watermark loaded row missing.1 missing.2.1 (before.trans passed)).mono more
  · exact covered

/-- What a push does to the clock of the node: nothing, or an advance to its marks. -/
theorem advances_syncPushClock {request : PushRequest} {senderClock : VectorClock} {stamps : Nat → Stamp env.chrono}
    {receiver : Receiver env} {state : SyncState} {seenAt : String} :
    ∃ marks : List Mark, Advances localId marks state
        (syncPushClock env request senderClock stamps receiver state seenAt) ∧
      ∀ mark ∈ marks, ∃ body, preflight env request = .ok body ∧ request.localAgentId = some localId ∧
        (syncPush env request stamps receiver).2.status = 200 ∧ body.dryRun = false ∧
        mark ∈ pushMarks env body senderClock := by
  unfold syncPushClock
  split
  · rename_i body localAgentId counted checked identified answered
    rw [advanceClock_eq]
    by_cases here : localId = localAgentId
    · subst here
      have applied := dryRun_of_answered env checked answered
      exact ⟨_, advances_observeAll _, fun mark marked =>
        ⟨body, checked, identified, by rw [answered]; rfl, applied, marked⟩⟩
    · refine ⟨[], ⟨fun peerId known loaded => ?_, fun peerId watermark loaded => ?_⟩, fun _ none => nomatch none⟩
      · exact ⟨known, by rw [syncStateLoad_observeAll_other _ here, loaded], le_rfl⟩
      · rw [syncStateLoad_observeAll_other _ here] at loaded
        exact .inl loaded
  · exact ⟨[], .refl _ _, fun _ none => nomatch none⟩

/-- An orderly push keeps every watermark covered. -/
theorem covered_push {request : PushRequest} {senderClock : VectorClock} {stamps : Nat → Stamp env.chrono}
    {seenAt : String} (orderly : Orderly env localId accepted mesh (.push request senderClock stamps seenAt))
    (covered : Covered env localId accepted mesh) :
    Covered env localId accepted (meshStep env localId mesh (.push request senderClock stamps seenAt)) := by
  obtain ⟨marks, advances, brought⟩ := @advances_syncPushClock env localId request senderClock stamps mesh.receiver
    mesh.syncState seenAt
  have more : ∀ given ∈ mesh.handed, given ∈ mesh.handed ++ handedByPush env request stamps mesh.receiver :=
    fun given present => List.mem_append_left _ present
  constructor
  · refine @complete_of_advances env localId accepted mesh _ _ rfl more advances ?_ covered.complete
    intro mark marked row missing
    by_contra reached
    obtain ⟨body, checked, identified, accepted, applied, listed⟩ := brought mark marked
    have given := orderly body checked identified accepted applied mark listed row
      (missing.before rfl more) (not_lt.mp reached)
    exact missing.2.2 (given.mono fun other present => List.mem_append_right _ present)
  · exact fun pull pulled => @PullFits.advance env localId accepted mesh _ _ pull (covered.fits pull pulled) rfl more
      advances

/-- A recorded push keeps every watermark covered. -/
theorem covered_recordPush {agentId peerId pushedAt now : String}
    (orderly : Orderly env localId accepted mesh (.recordPush agentId peerId pushedAt now))
    (covered : Covered env localId accepted mesh) :
    Covered env localId accepted (meshStep env localId mesh (.recordPush agentId peerId pushedAt now)) := by
  obtain ⟨marks, advances, brought⟩ := @advances_recordPush mesh.syncState agentId peerId now localId pushedAt
  have more : ∀ given ∈ mesh.handed, given ∈ mesh.handed := fun given present => present
  constructor
  · refine @complete_of_advances env localId accepted mesh _ _ rfl more advances ?_ covered.complete
    intro mark marked row missing
    obtain ⟨rfl, own, unseen⟩ := brought mark marked
    exact orderly own unseen row missing
  · exact fun pull pulled => @PullFits.advance env localId accepted mesh _ _ pull (covered.fits pull pulled) rfl more
      advances

/-- Every orderly step keeps every watermark covered. -/
theorem covered_step {step : MeshStep env} (orderly : Orderly env localId accepted mesh step)
    (covered : Covered env localId accepted mesh) : Covered env localId accepted (meshStep env localId mesh step) := by
  cases step with
  | write peerId table => exact covered_write orderly covered
  | ask peerId => exact covered_ask covered
  | answer limit => exact covered_answer orderly covered
  | apply instants pulledAt => exact covered_apply covered
  | push request senderClock stamps seenAt => exact covered_push orderly covered
  | recordPush agentId peerId pushedAt now => exact covered_recordPush orderly covered

/-- A node that has seen no peer yet. -/
def Mesh.start (tables : String → MemoryTable) (receiver : Receiver env) : Mesh env :=
  ⟨tables, receiver, fun _ _ => none, none, []⟩

/-- Along an orderly run the watermark of a peer never passes a row that the merge has not been given. -/
theorem catchup_complete_of_orderly (accepted : Memory → Prop) (tables : String → MemoryTable)
    (receiver : Receiver env) {steps : List (MeshStep env)}
    (orderly : EveryStep (meshStep env localId) (Orderly env localId accepted) (.start tables receiver) steps) :
    ∀ taken rest, steps = taken ++ rest →
      CatchupComplete env localId accepted (run (meshStep env localId) (.start tables receiver) taken) := by
  rintro taken rest rfl
  have initially : Covered env localId accepted (.start tables receiver) :=
    ⟨fun _ _ loaded => (nomatch loaded), fun _ pulled => (nomatch pulled)⟩
  have reached := run_invariant (fun mesh step here covered => covered_step here covered)
    (EveryStep.append_iff.mp orderly).1 initially
  exact reached.complete

end Coverage

section Samples

def pulledRow (id updatedAt : String) : Memory :=
  { Memory.base id updatedAt with title := id, createdAt := "2026-06-16T10:00:00+00:00" }

/-- The peer has two rows of one time. -/
def twinTables (_ : String) : MemoryTable where
  rows := [pulledRow "first" "2026-06-16T10:00:00+00:00", pulledRow "second" "2026-06-16T10:00:00+00:00"]
  uniqueId := by decide
  uniqueSlot := by decide

abbrev twinStart : Mesh (openReceiver ⟨[]⟩) := .start twinTables freshReceiver

/-- One round of the loop, with the limit of its page. -/
def pullRound (limit : Nat) : List (MeshStep (openReceiver ⟨[]⟩)) :=
  [.ask "p", .answer limit, .apply (fun _ => (0 : Int)) "2026-06-16T10:00:00+00:00"]

/-- The row is one that the store takes now. -/
def AcceptedBy (mesh : Mesh (openReceiver ⟨[]⟩)) (row : Memory) : Prop :=
  (insertIfNewer openEnvironment mesh.receiver.toStore (servedRow row) (0 : Int)).isOk = true

instance (mesh : Mesh (openReceiver ⟨[]⟩)) (row : Memory) : Decidable (AcceptedBy mesh row) :=
  inferInstanceAs (Decidable (_ = true))

/-- A page that holds both rows brings the watermark to their time. -/
theorem widePage_complete :
    syncStateLoad (run (meshStep (openReceiver ⟨[]⟩) "receiver") twinStart (pullRound 2)).syncState "receiver" "p" =
        some "2026-06-16T10:00:00+00:00" ∧
      CatchupComplete (openReceiver ⟨[]⟩) "receiver" (fun _ => True)
        (run (meshStep (openReceiver ⟨[]⟩) "receiver") twinStart (pullRound 2)) := by
  refine ⟨by decide +kernel, @catchup_complete_of_orderly (openReceiver ⟨[]⟩) "receiver" (fun _ => True)
    twinTables freshReceiver (pullRound 2) ⟨trivial, ?_, trivial, trivial⟩ (pullRound 2) [] rfl⟩
  rintro pull ⟨⟩ _ row cut
  cases cut

/-- A push of the peer that leaves its two older rows out. -/
def newestPush : MeshStep (openReceiver ⟨[]⟩) :=
  .push (peerRequest "p" { emptyBody "p" with memories := [pulledRow "third" "2026-06-16T10:05:00+00:00"] })
    .default (fun _ => ⟨(0 : Int), "fresh"⟩) "2026-06-16T10:05:00+00:00"

/-- A push of another peer, whose clock says what it has seen of the first. -/
def hearsayPush : MeshStep (openReceiver ⟨[]⟩) :=
  .push (peerRequest "q" (emptyBody "q")) (VectorClock.default.observe "p" "2026-06-16T10:05:00+00:00")
    (fun _ => ⟨(0 : Int), "fresh"⟩) "2026-06-16T10:05:00+00:00"

def firstRecord : MeshStep (openReceiver ⟨[]⟩) :=
  .recordPush "receiver" "p" "2026-06-16T10:05:00+00:00" "2026-06-16T10:05:00+00:00"

/-- After the steps the watermark has passed a row that the store would take. -/
def PassesRow (steps : List (MeshStep (openReceiver ⟨[]⟩))) : Prop :=
  ¬ CatchupComplete (openReceiver ⟨[]⟩) "receiver"
    (AcceptedBy (run (meshStep (openReceiver ⟨[]⟩) "receiver") twinStart steps))
    (run (meshStep (openReceiver ⟨[]⟩) "receiver") twinStart steps)

theorem second_passed {steps : List (MeshStep (openReceiver ⟨[]⟩))} {watermark : String}
    (tables : (run (meshStep (openReceiver ⟨[]⟩) "receiver") twinStart steps).tables = twinTables)
    (taken : AcceptedBy (run (meshStep (openReceiver ⟨[]⟩) "receiver") twinStart steps)
      (pulledRow "second" "2026-06-16T10:00:00+00:00"))
    (unhanded : ¬ Handed (run (meshStep (openReceiver ⟨[]⟩) "receiver") twinStart steps).handed
      (pulledRow "second" "2026-06-16T10:00:00+00:00"))
    (loaded : syncStateLoad (run (meshStep (openReceiver ⟨[]⟩) "receiver") twinStart steps).syncState "receiver" "p" =
      some watermark)
    (below : "2026-06-16T10:00:00+00:00" ≤ watermark) : PassesRow steps := by
  have valid : (validateMemory (openReceiver ⟨[]⟩).toValidators (openReceiver ⟨[]⟩).chrono
      (servedRow (pulledRow "second" "2026-06-16T10:00:00+00:00"))).isNone := by decide +kernel
  refine incomplete_of_missing ⟨?_, ⟨rfl, valid, taken⟩, unhanded⟩ loaded below
  rw [tables]
  exact List.mem_cons_of_mem _ List.mem_cons_self

/-- Each of the four writers passes a row of the peer: a page that ends between equal stamps, a push of a newer row,
the clock of a third node, and the first push to the peer. -/
theorem watermark_passes_rows :
    PassesRow (pullRound 1) ∧ PassesRow [newestPush] ∧ PassesRow [hearsayPush] ∧ PassesRow [firstRecord] := by
  have later : "2026-06-16T10:00:00+00:00" ≤ "2026-06-16T10:05:00+00:00" := by decide
  exact ⟨@second_passed (pullRound 1) "2026-06-16T10:00:00+00:00" rfl (by decide +kernel) (by decide +kernel)
      (by decide +kernel) le_rfl,
    @second_passed [newestPush] _ rfl (by decide +kernel) (by decide +kernel) (by decide +kernel) later,
    @second_passed [hearsayPush] _ rfl (by decide +kernel) (by decide +kernel) (by decide +kernel) later,
    @second_passed [firstRecord] _ rfl (by decide +kernel) (by decide +kernel) (by decide +kernel) later⟩

end Samples
end AiMemory.Federation
