import AiMemory.Federation.Catchup
import AiMemory.Federation.ScopedPeer
import AiMemory.Storage.Snapshots
import AiMemory.Storage.TitleCollision

/-
This file holds the pull lane to the gates of the push lane.
-/

namespace AiMemory.Federation
open AiMemory.Attestation AiMemory.Crdt AiMemory.Library AiMemory.Machine AiMemory.Storage

section Gates

variable (env : ReceiverEnvironment) (peerHeader : Option String) (senderAgentId : String)

/-- A push of the peer may name the author. -/
def MayClaim (agentId : String) : Prop :=
  agentId = senderAgentId ∨ relayAuthorized env.config peerHeader agentId = true

instance (agentId : String) : Decidable (MayClaim env peerHeader senderAgentId agentId) :=
  inferInstanceAs (Decidable (_ ∨ _))

/-- The receive loop verifies the signature of the row under the key of its author. -/
def pushAttests (policy : ReceivePolicy) (row : Memory) : Bool :=
  match receiveRow env.lineage policy peerHeader senderAgentId row with
  | .ok (received, _) => rowIsAgentAttested received
  | .error _ => false

/-- The time is beyond the clock of the receiver and the skew. -/
def Postdated (now : env.chrono.Instant) (text : String) : Prop :=
  ∃ updated ∈ env.chrono.parseFromRfc3339 text, env.chrono.later updated (env.chrono.addSeconds now env.skewSecs) = true

/-- Each value of the stored row was there before, or is one that a push of the peer may bring. -/
structure Admitted (policy : ReceivePolicy) (now : env.chrono.Instant) (inbound : Memory) (before : Option Memory)
    (stored : Memory) : Prop where
  level : rowIsAgentAttested stored = true →
    (∃ existing ∈ before, rowIsAgentAttested existing = true) ∨
      pushAttests env peerHeader senderAgentId policy inbound = true
  author : ∀ agentId ∈ metadataStr stored "agent_id",
    (∃ existing ∈ before, metadataStr existing "agent_id" = some agentId) ∨
      MayClaim env peerHeader senderAgentId agentId
  scope : ¬ OutsideScope env peerHeader stored.namespace
  time : (∃ existing ∈ before, stored.updatedAt = existing.updatedAt) ∨ ¬ Postdated env now stored.updatedAt

/-- The inbound row replaces what the conflict clause lets it replace. -/
def Wins (landing : Option Memory) (bound : Memory) : Prop :=
  ∀ existing ∈ landing, excludedWins existing bound = true

/-- What the row brings, where it wins, passes the gates. -/
structure WithinGates (policy : ReceivePolicy) (now : env.chrono.Instant) (inbound bound : Memory)
    (landing : Option Memory) : Prop where
  level : Wins landing bound → rowIsAgentAttested bound = true →
    (∃ existing ∈ landing, rowIsAgentAttested existing = true) ∨
      pushAttests env peerHeader senderAgentId policy inbound = true
  author : Wins landing bound → (∀ existing ∈ landing, existing.metadata.get "agent_id" = none) →
    ∀ agentId ∈ metadataStr bound "agent_id", MayClaim env peerHeader senderAgentId agentId
  scope : ¬ OutsideScope env peerHeader bound.namespace
  time : (∀ existing ∈ landing, existing.updatedAt < bound.updatedAt) → ¬ Postdated env now bound.updatedAt

end Gates

section Columns

/-- The entries without provenance come from the row that wins. -/
theorem metadataStr_newerWins {existing excluded : Memory} {key : String} (ordinary : key ∉ provenanceKeys) :
    metadataStr (newerWins existing excluded) key =
      metadataStr (pick (excludedWins existing excluded) existing excluded) key := by
  obtain ⟨object, entries⟩ := get_provenanceObject existing.metadata
  unfold metadataStr
  rw [newerWins]
  dsimp only
  rw [get_jsonPatch_object _ object, entries, if_neg ordinary]
  cases excludedWins existing excluded <;> rfl

/-- The author stays where one is stored. -/
theorem author_newerWins (existing excluded : Memory) :
    metadataStr (newerWins existing excluded) "agent_id" =
      if (existing.metadata.get "agent_id").isSome then metadataStr existing "agent_id"
      else metadataStr (pick (excludedWins existing excluded) existing excluded) "agent_id" := by
  unfold metadataStr
  rw [newerWins, asStr_provenance _ existing.metadata (by decide)]
  cases excludedWins existing excluded <;> rfl

end Columns

section Lane

variable {env : ReceiverEnvironment} {peerHeader : Option String} {senderAgentId : String} {policy : ReceivePolicy}
  {now : env.chrono.Instant} {inbound existing bound : Memory}

/-- A merge into a stored row admits what the winning row may bring. -/
theorem admitted_newerWins_iff (sameSlot : slotOf existing = slotOf bound) :
    Admitted env peerHeader senderAgentId policy now inbound (some existing) (newerWins existing bound) ↔
      WithinGates env peerHeader senderAgentId policy now inbound bound (some existing) := by
  have sameNamespace : (newerWins existing bound).namespace = bound.namespace := congrArg Prod.snd sameSlot
  have time : (newerWins existing bound).updatedAt = max existing.updatedAt bound.updatedAt := larger_eq_max _ _
  have wins : Wins (some existing) bound ↔ excludedWins existing bound = true := by simp [Wins]
  constructor
  · intro admitted
    refine ⟨fun won attested => ?_, fun won unnamed agentId named => ?_,
      sameNamespace ▸ admitted.scope, fun newer => ?_⟩
    · apply admitted.level
      unfold rowIsAgentAttested
      rw [metadataStr_newerWins (by decide), wins.mp won]
      exact attested
    · have none : existing.metadata.get "agent_id" = none := unnamed existing rfl
      have stored : metadataStr (newerWins existing bound) "agent_id" = some agentId := by
        rw [author_newerWins, none, if_neg (by simp), wins.mp won]
        exact named
      rcases admitted.author agentId stored with ⟨_, ⟨⟩, held⟩ | allowed
      · rw [metadataStr, none] at held
        cases held
      · exact allowed
    · have later := newer existing rfl
      have raised := admitted.time
      rw [time, max_eq_right later.le] at raised
      rcases raised with ⟨_, ⟨⟩, same⟩ | within
      · exact absurd same later.ne'
      · exact within
  · intro gates
    refine ⟨fun attested => ?_, fun agentId named => ?_, sameNamespace ▸ gates.scope, ?_⟩
    · unfold rowIsAgentAttested at attested
      rw [metadataStr_newerWins (by decide)] at attested
      cases won : excludedWins existing bound with
      | true =>
          rw [won] at attested
          exact gates.level (wins.mpr won) attested
      | false =>
          rw [won] at attested
          exact .inl ⟨existing, rfl, attested⟩
    · rw [author_newerWins] at named
      split_ifs at named with stored
      · exact .inl ⟨existing, rfl, named⟩
      · cases won : excludedWins existing bound with
        | true =>
            rw [won] at named
            refine .inr (gates.author (wins.mpr won) ?_ agentId named)
            rintro _ ⟨⟩
            simpa using stored
        | false =>
            rw [won] at named
            exact .inl ⟨existing, rfl, named⟩
    · rw [time]
      rcases lt_or_ge existing.updatedAt bound.updatedAt with newer | older
      · rw [max_eq_right newer.le]
        refine .inr (gates.time ?_)
        rintro _ ⟨⟩
        exact newer
      · rw [max_eq_left older]
        exact .inl ⟨existing, rfl, rfl⟩

/-- A row without a predecessor is admitted exactly when it passes the gates. -/
theorem admitted_fresh_iff :
    Admitted env peerHeader senderAgentId policy now inbound none bound ↔
      WithinGates env peerHeader senderAgentId policy now inbound bound none := by
  constructor
  · rintro ⟨level, author, scope, time⟩
    refine ⟨fun _ => ?_, fun _ _ => ?_, scope, fun _ => ?_⟩
    · simpa using level
    · simpa using author
    · simpa using time
  · rintro ⟨level, author, scope, time⟩
    refine ⟨fun attested => ?_, fun agentId named => ?_, scope, ?_⟩
    · exact level (fun _ none => nomatch none) attested
    · exact .inr (author (fun _ none => nomatch none) (fun _ none => nomatch none) agentId named)
    · exact .inr (time fun _ none => nomatch none)

end Lane

section Page

variable (env : ReceiverEnvironment) (peerHeader : Option String) (senderAgentId : String) (db : Database)

/-- The policy of the receiver at this point of the page. -/
def policyAt (progress : CatchupProgress) : ReceivePolicy := receivePolicy env { db with toStore := progress.store }

/-- The row that a pulled row leaves has only values that a push of the peer may bring. -/
def PulledAdmitted (progress : CatchupProgress) (pulled : Option Memory × env.chrono.Instant) : Prop :=
  ∀ row ∈ pulled.1, (validateMemory env.toValidators env.chrono row).isNone →
    row.id ∉ progress.store.forgetTombstones →
    ∀ written id, insertIfNewer env.toEnvironment progress.store row pulled.2 = .ok (written, id) →
    ∀ stored ∈ (applyPulled env progress pulled).store.memories.find id,
      Admitted env peerHeader senderAgentId (policyAt env db progress) pulled.2 row
        (progress.store.memories.find id) stored

/-- A valid row that the store takes passes the gates against the row of its slot. -/
def PulledWithinGates (progress : CatchupProgress) (pulled : Option Memory × env.chrono.Instant) : Prop :=
  ∀ row ∈ pulled.1, (validateMemory env.toValidators env.chrono row).isNone →
    row.id ∉ progress.store.forgetTombstones →
    (insertIfNewer env.toEnvironment progress.store row pulled.2).isOk →
    WithinGates env peerHeader senderAgentId (policyAt env db progress) pulled.2 row
      (boundRow env.toEnvironment pulled.2 row)
      (progress.store.memories.findSlot (slotOf (boundRow env.toEnvironment pulled.2 row)))

variable {env peerHeader senderAgentId db}

/-- A pulled row that is valid and accepted is written. -/
theorem applyPulled_accepted {progress : CatchupProgress} {row : Memory} {now : env.chrono.Instant}
    {written : Store} {id : String} (valid : (validateMemory env.toValidators env.chrono row).isNone)
    (accepted : insertIfNewer env.toEnvironment progress.store row now = .ok (written, id)) :
    (applyPulled env progress (some row, now)).store = written := by
  have parsed : (validateMemory env.toValidators env.chrono row).isSome = false := by simpa using valid
  unfold applyPulled
  dsimp only
  rw [parsed, if_neg Bool.false_ne_true, accepted]

/-- A pulled row is admitted exactly when what it writes passes the gates. -/
theorem pulledAdmitted_iff (progress : CatchupProgress) (pulled : Option Memory × env.chrono.Instant) :
    PulledAdmitted env peerHeader senderAgentId db progress pulled ↔
      PulledWithinGates env peerHeader senderAgentId db progress pulled := by
  obtain ⟨parsed, now⟩ := pulled
  refine forall_congr' fun row => forall_congr' fun here => ?_
  obtain rfl : parsed = some row := here
  refine forall_congr' fun valid => forall_congr' fun unforgotten => ?_
  cases accepted : insertIfNewer env.toEnvironment progress.store row now with
  | error reason =>
      exact iff_of_true (fun written id impossible => nomatch impossible) fun impossible => nomatch impossible
  | ok result =>
      obtain ⟨written, id⟩ := result
      have store := applyPulled_accepted valid accepted
      rcases insertIfNewer_ok accepted with ⟨forgotten, _⟩ | ⟨_, upserted⟩
      · exact absurd forgotten unforgotten
      · rcases find_upsertNewerWins upserted with ⟨existing, found, rfl, lookups⟩ | ⟨free, fresh, rfl, lookups⟩
        · have before : progress.store.memories.find existing.id = some existing := find_of_findSlot found
          have sameSlot := ((progress.store.memories.findSlot_eq_some_iff _ _).mp found).2
          have merged :=
            @admitted_newerWins_iff env peerHeader senderAgentId (policyAt env db progress) now row existing
            (boundRow env.toEnvironment now row) sameSlot
          constructor
          · intro admitted _
            rw [found]
            apply merged.mp
            have here := admitted written existing.id rfl (newerWins existing (boundRow env.toEnvironment now row))
              (by rw [store, lookups, if_pos rfl]; rfl)
            rwa [before] at here
          · intro gates written id same stored held
            obtain ⟨rfl, rfl⟩ := Prod.mk.inj (Except.ok.inj same)
            rw [store, lookups, if_pos rfl] at held
            obtain rfl := Option.some.inj held
            rw [before]
            apply merged.mpr
            have here := gates rfl
            rwa [found] at here
        · have appended := @admitted_fresh_iff env peerHeader senderAgentId (policyAt env db progress) now row
            (boundRow env.toEnvironment now row)
          constructor
          · intro admitted _
            rw [free]
            apply appended.mp
            have here := admitted written row.id rfl (boundRow env.toEnvironment now row)
              (by rw [store, lookups]; exact if_pos rfl)
            rwa [show progress.store.memories.find row.id = none from fresh] at here
          · intro gates written id same stored held
            obtain ⟨rfl, rfl⟩ := Prod.mk.inj (Except.ok.inj same)
            rw [store, lookups, if_pos rfl] at held
            obtain rfl := Option.some.inj held
            rw [fresh]
            apply appended.mpr
            have here := gates rfl
            rwa [free] at here

/-- The pull lane brings only what the push lane admits exactly when each pulled row passes the gates of the push
lane by itself. -/
theorem pullLane_admitted_iff (page : List (Option Memory × env.chrono.Instant)) :
    EveryStep (applyPulled env) (PulledAdmitted env peerHeader senderAgentId db) ⟨db.toStore, 0, none, false⟩ page ↔
      EveryStep (applyPulled env) (PulledWithinGates env peerHeader senderAgentId db) ⟨db.toStore, 0, none, false⟩
        page := by
  constructor
  · exact fun every => every.mono fun progress pulled => (pulledAdmitted_iff progress pulled).mp
  · exact fun every => every.mono fun progress pulled => (pulledAdmitted_iff progress pulled).mpr

end Page

section Samples

/-- A valid row of the peer, in a namespace of its scope. -/
def servedPublicRow : Memory :=
  { Memory.base "served" "2026-06-16T10:00:00+00:00" with
    «namespace» := "public/a"
    createdAt := "2026-06-16T10:00:00+00:00" }

def selfAttestedRow : Memory :=
  { servedPublicRow with
    metadata := (Json.empty.insert "agent_id" (.string "p")).insert "attest_level" (.string "agent_attested") }

def foreignAuthorRow : Memory :=
  { servedPublicRow with metadata := Json.empty.insert "agent_id" (.string "alice") }

def foreignNamespaceRow : Memory := { servedPublicRow with «namespace» := "secure/ops" }

def postdatedServedRow : Memory := { servedPublicRow with updatedAt := "2026-06-17T10:00:00+00:00" }

/-- Pulled into an empty store, the row leaves a value that no push of the peer may bring. -/
def Exceeds (row : Memory) : Prop :=
  ¬ EveryStep (applyPulled scopedReceiver) (PulledAdmitted scopedReceiver (some "p") "p" emptyDatabase)
    ⟨emptyDatabase.toStore, 0, none, false⟩ [(some row, (0 : Int))]

theorem exceeds_of_gates {row : Memory}
    (valid : (validateMemory scopedReceiver.toValidators scopedReceiver.chrono row).isNone)
    (taken : (insertIfNewer scopedReceiver.toEnvironment emptyDatabase.toStore row (0 : Int)).isOk)
    (outside : ¬ WithinGates scopedReceiver (some "p") "p"
      (policyAt scopedReceiver emptyDatabase ⟨emptyDatabase.toStore, 0, none, false⟩) (0 : Int) row
      (boundRow scopedReceiver.toEnvironment (0 : Int) row) none) : Exceeds row := by
  rintro ⟨admitted, _⟩
  have unforgotten : row.id ∉ emptyDatabase.forgetTombstones := List.not_mem_nil
  exact outside ((pulledAdmitted_iff _ _).mp admitted row rfl valid unforgotten taken)

/-- Each row keeps what it brings: the level that it claims for itself, an author, a namespace, or a time. -/
theorem pulledRow_exceeds_gates :
    Exceeds selfAttestedRow ∧ Exceeds foreignAuthorRow ∧ Exceeds foreignNamespaceRow ∧
      Exceeds postdatedServedRow := by
  refine ⟨exceeds_of_gates (by decide +kernel) (by decide +kernel) fun gates => ?_,
    exceeds_of_gates (by decide +kernel) (by decide +kernel) fun gates => ?_,
    exceeds_of_gates (by decide +kernel) (by decide +kernel) fun gates => ?_,
    exceeds_of_gates (by decide +kernel) (by decide +kernel) fun gates => ?_⟩
  · have unverified : pushAttests scopedReceiver (some "p") "p"
        (policyAt scopedReceiver emptyDatabase ⟨emptyDatabase.toStore, 0, none, false⟩) selfAttestedRow = false := by
      decide +kernel
    rcases gates.level (fun _ absent => nomatch absent) (by decide +kernel) with ⟨_, ⟨⟩, _⟩ | attests
    exact absurd attests (by simp [unverified])
  · have claims := gates.author (fun _ absent => nomatch absent) (fun _ absent => nomatch absent) "alice"
      (by decide +kernel)
    exact absurd claims (by decide +kernel)
  · exact gates.scope scoped_namespaces.1
  · exact gates.time (fun _ absent => nomatch absent) ⟨(86400 : Int), rfl, rfl⟩

end Samples
end AiMemory.Federation
