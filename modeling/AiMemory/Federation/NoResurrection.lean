import AiMemory.Federation.Catchup
import AiMemory.Federation.ScopedPeer
import AiMemory.Storage.Burial

/-
This file proves that neither lane of the federation brings a forgotten identifier back.
-/

namespace AiMemory.Federation
open AiMemory.Attestation AiMemory.Crdt AiMemory.Library AiMemory.Machine AiMemory.Storage

section Lanes

variable {env : ReceiverEnvironment} {peerHeader : Option String} {senderAgentId id : String}
  {receiver : Receiver env} {stamp : Stamp env.chrono}

theorem buried_dequarantine {store : Store} {other now : String} (buried : Buried id store) :
    Buried id (dequarantine store other now) :=
  buried.rewriteRow other _ _ _

/-- A pushed memory leaves a buried identifier buried. -/
theorem buried_pushMemory {row : Memory} (buried : Buried id receiver.toStore) :
    Buried id (pushMemory env peerHeader senderAgentId receiver row stamp.now).1.toStore := by
  rcases @toDatabase_pushMemory env peerHeader senderAgentId receiver row stamp.now with
    same | ⟨received, agent, ledger, written, actualId, accepted, charged, merged, same⟩
  · rw [same]
    exact buried
  · have kept := buried_mergeInbound buried merged
    rw [same]
    dsimp only
    split
    · exact buried_dequarantine kept
    · exact kept

/-- A pushed deletion leaves a buried identifier buried. -/
theorem buried_pushDeletion {other : String} (buried : Buried id receiver.toStore) :
    Buried id (pushDeletion env peerHeader receiver other).1.toStore := by
  rcases @toDatabase_pushDeletion env peerHeader receiver other with same | ⟨row, _, _, same⟩
  · rw [same]
    exact buried
  · rw [same]
    exact buried_delete buried

/-- A pushed archival leaves a buried identifier buried. -/
theorem buried_pushArchive {other : String} (buried : Buried id receiver.toStore) :
    Buried id (pushArchive env receiver other stamp.now).1.toStore := by
  rcases @toDatabase_pushArchive env receiver other stamp.now with same | ⟨moved, archived⟩
  · rw [same]
    exact buried
  · exact buried_archive buried archived

/-- A pushed restoration leaves a buried identifier buried. -/
theorem buried_pushRestore {other : String} (buried : Buried id receiver.toStore) :
    Buried id (pushRestore env receiver other stamp.now).1.toStore := by
  rcases @toDatabase_pushRestore env receiver other stamp.now with same | ⟨unforgotten, moved, restored⟩
  · rw [same]
    exact buried
  · refine buried_restore buried restored ?_
    rintro rfl
    exact unforgotten buried.forgotten

theorem buried_pushLink {link : MemoryLink} (buried : Buried id receiver.toStore) :
    Buried id (pushLink env receiver link stamp.now).1.toStore := by
  obtain ⟨links, same⟩ := @toDatabase_pushLink env receiver link stamp.now
  rw [same]
  exact buried

theorem buried_pushPending {action : PendingAction} (buried : Buried id receiver.toStore) :
    Buried id (pushPending env peerHeader senderAgentId receiver action).1.toStore := by
  rw [toDatabase_pushPending]
  exact buried

/-- A decision runs its action under the fresh identifier. -/
theorem buried_pushDecision {decision : PendingDecision} (buried : Buried id receiver.toStore)
    (fresh : stamp.freshId ≠ id) : Buried id (pushDecision env receiver decision stamp).1.toStore := by
  rcases @toDatabase_pushDecision env receiver stamp decision with same | ⟨_, approved, action, _, _, _, same⟩
  · rw [same]
    exact buried
  · rw [same]
    exact buried_performAction buried fresh

theorem buried_pushNamespaceMeta {entry : NamespaceMetaEntry} (buried : Buried id receiver.toStore) :
    Buried id (pushNamespaceMeta env receiver entry stamp.now).1.toStore := by
  rcases @toDatabase_pushNamespaceMeta env receiver entry stamp.now with same | standard
  · rw [same]
    exact buried
  · exact buried_setNamespaceStandard buried standard

theorem buried_pushNamespaceMetaClear {«namespace» : String} (buried : Buried id receiver.toStore) :
    Buried id (pushNamespaceMetaClear env receiver «namespace»).1.toStore := by
  rcases @toDatabase_pushNamespaceMetaClear env receiver «namespace» with same | same
  · rw [same]
    exact buried
  · rw [same]
    exact buried_clearNamespaceStandard buried

/-- Every pushed element leaves a buried identifier buried. -/
theorem buried_applyElement {element : Element} (buried : Buried id receiver.toStore)
    (fresh : stamp.freshId ≠ id) :
    Buried id (applyElement env peerHeader senderAgentId receiver stamp element).1.toStore := by
  cases element with
  | memory row => exact buried_pushMemory buried
  | deletion other => exact buried_pushDeletion buried
  | archive other => exact buried_pushArchive buried
  | restore other => exact buried_pushRestore buried
  | link link => exact buried_pushLink buried
  | pending action => exact buried_pushPending buried
  | decision decision => exact buried_pushDecision buried fresh
  | namespaceMeta entry => exact buried_pushNamespaceMeta buried
  | namespaceMetaClear «namespace» => exact buried_pushNamespaceMetaClear buried

/-- A rewrite of an absent row changes nothing. -/
theorem rewriteRow_absent {store : Store} {other : String} {change : Memory → Memory}
    {keepsId : ∀ row, (change row).id = row.id} {keepsSlot : ∀ row, slotOf (change row) = slotOf row}
    (absent : store.memories.find other = none) : rewriteRow store other change keepsId keepsSlot = store := by
  unfold rewriteRow
  split
  · rfl
  · rename_i existing stored
    cases stored.symm.trans absent

/-- A delivery of the forgotten identifier leaves the whole database. -/
theorem toDatabase_pushMemory_buried {row : Memory} (buried : Buried row.id receiver.toStore) :
    (pushMemory env peerHeader senderAgentId receiver row stamp.now).1.toDatabase = receiver.toDatabase := by
  rcases @toDatabase_pushMemory env peerHeader senderAgentId receiver row stamp.now with
    same | ⟨received, agent, ledger, written, actualId, accepted, charged, merged, same⟩
  · exact same
  · have sameId : received.id = row.id := by
      obtain ⟨_, _, _, shape⟩ := receiveRow_ok accepted
      rw [shape]
    obtain ⟨rfl, rfl⟩ := mergeInbound_buried (sameId ▸ buried) merged
    rw [same]
    split
    · unfold dequarantine
      rw [rewriteRow_absent (sameId ▸ buried.absent)]
    · rfl

/-- The restoration of a buried identifier changes nothing. -/
theorem toDatabase_pushRestore_buried (buried : Buried id receiver.toStore) :
    (pushRestore env receiver id stamp.now).1.toDatabase = receiver.toDatabase := by
  rcases @toDatabase_pushRestore env receiver id stamp.now with same | ⟨unforgotten, _⟩
  · exact same
  · exact absurd buried.forgotten unforgotten

end Lanes

section Later

variable {env : ReceiverEnvironment}

/-- What may happen to the receiver after the burial: both lanes of the federation, and local writes. -/
inductive LaterCall (env : ReceiverEnvironment) where
  | push (request : PushRequest) (stamps : Nat → Stamp env.chrono)
  | catchup (page : List (Option Memory × env.chrono.Instant))
  | insert (row : Memory) (now : env.chrono.Instant)
  | update (id : String) (patch : Patch) (expectedVersion : Option Int) (now : env.chrono.Instant)

/-- A local write that fails changes nothing. -/
def applyLater (receiver : Receiver env) : LaterCall env → Receiver env
  | .push request stamps => (syncPush env request stamps receiver).1
  | .catchup page => { receiver with toStore := (applyPage env receiver.toStore page).store }
  | .insert row now =>
      match insert env.toWriterEnvironment receiver.toStore row now with
      | .ok (written, _) => { receiver with toStore := written }
      | .error _ => receiver
  | .update id patch expectedVersion now =>
      match updateWithExpectedVersion env.toWriterEnvironment receiver.toStore id patch expectedVersion now with
      | .ok (written, _) => { receiver with toStore := written }
      | .error _ => receiver

/-- No local write names the identifier, and no fresh identifier repeats it. -/
def Spares (id : String) : LaterCall env → Prop
  | .push _ stamps => ∀ index, (stamps index).freshId ≠ id
  | .catchup _ => True
  | .insert row _ => row.id ≠ id
  | .update other _ _ _ => other ≠ id

/-- The element brings a row of the identifier, or asks for it. -/
def Carries (id : String) : Element → Prop
  | .memory row => row.id = id
  | .restore other => other = id
  | _ => False

/-- The number of live rows in a slot. -/
def copies (store : Store) (slot : String × String) : Nat :=
  store.memories.rows.countP fun row => slotOf row = slot

/-- The identifier stays away, and a delivery that carries it fills no slot. -/
def Quiet (id : String) (before after : Store) (carries : Prop) : Prop :=
  after.memories.find id = none ∧ (carries → ∀ slot, copies after slot ≤ copies before slot)

/-- Each element of a push and each row of a page is quiet. -/
def QuietCall (id : String) (receiver : Receiver env) : LaterCall env → Prop
  | .push request stamps => ∀ body, preflight env request = .ok body →
      EveryStep (takeElement env request.peerHeader body)
        (fun progress taken => Quiet id progress.receiver.toStore
          (takeElement env request.peerHeader body progress taken).receiver.toStore (Carries id taken.1))
        ⟨receiver, []⟩ (stampedElements env stamps body)
  | .catchup page =>
      EveryStep (applyPulled env)
        (fun progress pulled => Quiet id progress.store (applyPulled env progress pulled).store
          (∀ row ∈ pulled.1, row.id = id))
        ⟨receiver.toStore, 0, none, false⟩ page
  | .insert _ _ => True
  | .update _ _ _ _ => True

variable {id : String}

theorem quiet_of_same {before after : Store} {carries : Prop} (absent : after.memories.find id = none)
    (same : carries → after = before) : Quiet id before after carries := by
  refine ⟨absent, fun carried slot => ?_⟩
  rw [same carried]

/-- An element that is taken leaves a buried identifier buried. -/
theorem buried_takeElement {peerHeader : Option String} {body : SyncPushBody} {progress : PushProgress env}
    {taken : Element × Stamp env.chrono} (fresh : taken.2.freshId ≠ id)
    (buried : Buried id progress.receiver.toStore) :
    Buried id (takeElement env peerHeader body progress taken).receiver.toStore := by
  unfold takeElement
  split_ifs
  · exact buried
  · exact buried
  · exact buried
  · exact buried_applyElement buried fresh

/-- An element that carries a buried identifier writes nothing. -/
theorem quiet_takeElement {peerHeader : Option String} {body : SyncPushBody} {progress : PushProgress env}
    {taken : Element × Stamp env.chrono} (fresh : taken.2.freshId ≠ id)
    (buried : Buried id progress.receiver.toStore) :
    Quiet id progress.receiver.toStore (takeElement env peerHeader body progress taken).receiver.toStore
      (Carries id taken.1) := by
  refine quiet_of_same (buried_takeElement fresh buried).absent fun carried => ?_
  unfold takeElement
  split_ifs
  · rfl
  · rfl
  · rfl
  · obtain ⟨element, stamp⟩ := taken
    cases element with
    | memory row =>
        obtain rfl : row.id = id := carried
        exact congrArg Database.toStore (toDatabase_pushMemory_buried buried)
    | restore other =>
        obtain rfl : other = id := carried
        exact congrArg Database.toStore (toDatabase_pushRestore_buried buried)
    | deletion _ | archive _ | link _ | pending _ | decision _ | namespaceMeta _ | namespaceMetaClear _ =>
        exact carried.elim

/-- A pulled row is skipped or inserted if it is newer. -/
theorem applyPulled_store {progress : CatchupProgress} {pulled : Option Memory × env.chrono.Instant} :
    (applyPulled env progress pulled).store = progress.store ∨ ∃ row actualId,
      pulled.1 = some row ∧ insertIfNewer env.toEnvironment progress.store row pulled.2 =
        .ok ((applyPulled env progress pulled).store, actualId) := by
  unfold applyPulled
  split
  · exact .inl rfl
  · rename_i row parsed
    split_ifs
    · exact .inl rfl
    · split
      · rename_i written actualId accepted
        exact .inr ⟨row, actualId, parsed, accepted⟩
      · exact .inl rfl

/-- A pulled row leaves a buried identifier buried. -/
theorem buried_applyPulled {progress : CatchupProgress} {pulled : Option Memory × env.chrono.Instant}
    (buried : Buried id progress.store) : Buried id (applyPulled env progress pulled).store := by
  rcases @applyPulled_store env progress pulled with same | ⟨row, actualId, _, accepted⟩
  · rw [same]
    exact buried
  · exact buried_insertIfNewer buried accepted

/-- A pulled row with a buried identifier writes nothing. -/
theorem quiet_applyPulled {progress : CatchupProgress} {pulled : Option Memory × env.chrono.Instant}
    (buried : Buried id progress.store) :
    Quiet id progress.store (applyPulled env progress pulled).store (∀ row ∈ pulled.1, row.id = id) := by
  refine quiet_of_same (buried_applyPulled buried).absent fun carried => ?_
  rcases @applyPulled_store env progress pulled with same | ⟨row, actualId, parsed, accepted⟩
  · exact same
  · obtain rfl := carried row parsed
    exact (insertIfNewer_buried buried accepted).1

theorem freshId_stampedElements {stamps : Nat → Stamp env.chrono} {body : SyncPushBody}
    (fresh : ∀ index, (stamps index).freshId ≠ id) :
    ∀ taken ∈ stampedElements env stamps body, taken.2.freshId ≠ id := by
  intro taken present
  obtain ⟨numbered, _, rfl⟩ := List.mem_map.mp present
  exact fresh numbered.2

/-- A later call leaves a buried identifier buried. -/
theorem buried_applyLater {receiver : Receiver env} {call : LaterCall env} (spares : Spares id call)
    (buried : Buried id receiver.toStore) : Buried id (applyLater receiver call).toStore := by
  cases call with
  | push request stamps =>
      change Buried id (syncPush env request stamps receiver).1.toStore
      unfold syncPush
      split
      · exact buried
      · rename_i body checked
        have step (progress : PushProgress env) (taken : Element × Stamp env.chrono) (fresh : taken.2.freshId ≠ id)
            (kept : Buried id progress.receiver.toStore) :
            Buried id (takeElement env request.peerHeader body progress taken).receiver.toStore :=
          buried_takeElement fresh kept
        exact run_invariant step (.of_labels (freshId_stampedElements spares) _) buried
  | catchup page =>
      have step (progress : CatchupProgress) (pulled : Option Memory × env.chrono.Instant)
          (kept : Buried id progress.store) : Buried id (applyPulled env progress pulled).store :=
        buried_applyPulled kept
      change Buried id (applyPage env receiver.toStore page).store
      exact run_invariant_always step page buried
  | insert row now =>
      unfold applyLater
      dsimp only
      split
      · exact buried_insert buried ‹_› spares
      · exact buried
  | update other patch expectedVersion now =>
      unfold applyLater
      dsimp only
      split
      · exact buried_update buried ‹_›
      · exact buried

/-- A later call with a buried identifier writes nothing. -/
theorem quietCall_of_buried {receiver : Receiver env} {call : LaterCall env} (spares : Spares id call)
    (buried : Buried id receiver.toStore) : QuietCall id receiver call := by
  cases call with
  | push request stamps =>
      intro body _
      have fresh := @EveryStep.of_labels _ _ (takeElement env request.peerHeader body) _
        (stampedElements env stamps body) (freshId_stampedElements spares) ⟨receiver, []⟩
      have step (progress : PushProgress env) (taken : Element × Stamp env.chrono) (fresh : taken.2.freshId ≠ id)
          (kept : Buried id progress.receiver.toStore) :
          Buried id (takeElement env request.peerHeader body progress taken).receiver.toStore :=
        buried_takeElement fresh kept
      exact (fresh.and_invariant step buried).mono fun progress taken here => quiet_takeElement here.1 here.2
  | catchup page =>
      have every := @EveryStep.of_forall _ _ (applyPulled env) _ (fun _ _ => trivial)
        ⟨receiver.toStore, 0, none, false⟩ page
      have step (progress : CatchupProgress) (pulled : Option Memory × env.chrono.Instant) (_ : True)
          (kept : Buried id progress.store) : Buried id (applyPulled env progress pulled).store :=
        buried_applyPulled kept
      exact (every.and_invariant step buried).mono fun progress pulled here => quiet_applyPulled here.2
  | insert row now => trivial
  | update other patch expectedVersion now => trivial

/-- A row that a burial took away stays away in every later run that does not name it. -/
theorem buried_never_returns (receiver : Receiver env) {burial : Burial env.toWriterEnvironment}
    (live : (receiver.memories.find id).isSome) (gone : (bury receiver.toDatabase burial).memories.find id = none)
    (later : List (LaterCall env)) (spared : ∀ call ∈ later, Spares id call) :
    let after : Receiver env := { receiver with toDatabase := bury receiver.toDatabase burial }
    EveryStep applyLater (fun state call => state.memories.find id = none ∧ QuietCall id state call) after later ∧
      (run applyLater after later).memories.find id = none := by
  intro after
  have buried : Buried id after.toStore := buried_bury live gone
  have preserved (state : Receiver env) (call : LaterCall env) (spares : Spares id call)
      (kept : Buried id state.toStore) : Buried id (applyLater state call).toStore := buried_applyLater spares kept
  have every := @EveryStep.of_labels _ _ applyLater _ _ spared after
  constructor
  · exact (every.and_invariant preserved buried).mono fun state call here =>
      ⟨here.2.absent, quietCall_of_buried here.1 here.2⟩
  · exact (run_invariant preserved every buried).absent

end Later

section Samples

/-- The operator forgets the secret namespace, and the peer brings the secret row back on every lane. -/
def forgetSecrets : Burial scopedReceiver.toWriterEnvironment := .forget (some "secure/ops") none none false (0 : Int)

def returningRow : Memory := { secretRow with createdAt := "2026-06-16T10:00:00+00:00" }

def returningRows : List (LaterCall scopedReceiver) :=
  [.push (peerRequest "p" { emptyBody "p" with memories := [returningRow], restores := ["secret"] }) noonStamps,
    .catchup [(some returningRow, (0 : Int))], .insert publicRow (0 : Int)]

theorem forgottenSecret_stays_away :
    (guardedReceiver.memories.find "secret").isSome ∧
      (run applyLater { guardedReceiver with toDatabase := bury guardedReceiver.toDatabase forgetSecrets }
        returningRows).memories.find "secret" = none := by
  refine ⟨rfl, (@buried_never_returns scopedReceiver "secret" guardedReceiver forgetSecrets rfl rfl
    returningRows ?_).2⟩
  intro call present
  simp only [returningRows, List.mem_cons, List.not_mem_nil, or_false] at present
  rcases present with rfl | rfl | rfl
  · intro index
    change "fresh" ≠ "secret"
    decide
  · trivial
  · change publicRow.id ≠ "secret"
    decide

end Samples
end AiMemory.Federation
