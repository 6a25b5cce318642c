import AiMemory.Library.Run

/-
This file decides when the processes over one database agree with its chain about the record stop.
-/

namespace AiMemory.RecordStop
open AiMemory.Library

def scopeRecordPlane : String := "record-plane"

def substrateRecordStop : String := "substrate.record_stop"
def substrateRecordResume : String := "substrate.record_resume"

/-- The chain holds the events of other subsystems as well. -/
structure ChainEvent where
  eventType : String
  agentId : String
  deriving DecidableEq, Repr

def ChainEvent.isActuation (event : ChainEvent) : Bool :=
  event.eventType = substrateRecordStop || event.eventType = substrateRecordResume

structure RecordStopStatus where
  stopped : Bool
  issuedBy : String
  scope : String
  deriving DecidableEq, Repr

/-- A new flag is running. -/
structure RecordStopFlag where
  stopped : Bool := false
  issuedBy : String := ""
  scope : String := ""
  deriving DecidableEq, Repr

namespace RecordStopFlag

def engage (issuedBy scope : String) : RecordStopFlag := ⟨true, issuedBy, scope⟩

def release (flag : RecordStopFlag) : RecordStopFlag := { flag with stopped := false, issuedBy := "" }

def apply (flag : RecordStopFlag) (status : RecordStopStatus) : RecordStopFlag :=
  if status.stopped then engage status.issuedBy status.scope else flag.release

def shownScope (flag : RecordStopFlag) : String := if flag.scope = "" then scopeRecordPlane else flag.scope

def stopRefusal (flag : RecordStopFlag) : Option (String × String) :=
  if flag.stopped then some (flag.issuedBy, flag.shownScope) else none

def status (flag : RecordStopFlag) : RecordStopStatus := ⟨flag.stopped, flag.issuedBy, flag.shownScope⟩

/-- The flag shows what the status says. -/
theorem stopped_apply (flag : RecordStopFlag) (status : RecordStopStatus) :
    (flag.apply status).stopped = status.stopped := by
  unfold apply
  split_ifs with stopped
  · exact stopped.symm
  · exact ((Bool.not_eq_true _).mp stopped).symm

theorem isSome_stopRefusal (flag : RecordStopFlag) : flag.stopRefusal.isSome = flag.stopped := by
  cases stopped : flag.stopped <;> simp [stopRefusal, stopped]

end RecordStopFlag

section Chain

/-- The newest event of the chain stands first. -/
def newestActuation (chain : List ChainEvent) : Option ChainEvent := chain.find? ChainEvent.isActuation

/-- What the newest event of the two kinds asks for. -/
def requested (chain : List ChainEvent) : Option Bool :=
  (newestActuation chain).map fun event => decide (event.eventType = substrateRecordStop)

def readStateSqlite (chain : List ChainEvent) : RecordStopStatus :=
  match newestActuation chain with
  | some event =>
      if event.eventType = substrateRecordStop then ⟨true, event.agentId, scopeRecordPlane⟩
      else ⟨false, "", scopeRecordPlane⟩
  | none => ⟨false, "", scopeRecordPlane⟩

def buildAttestation (engage : Bool) (issuedBy : String) : ChainEvent :=
  ⟨if engage then substrateRecordStop else substrateRecordResume, issuedBy⟩

/-- The chain says stopped exactly when its last request was a stop. -/
theorem stopped_readStateSqlite (chain : List ChainEvent) :
    (readStateSqlite chain).stopped = decide (requested chain = some true) := by
  unfold readStateSqlite requested
  cases newestActuation chain with
  | none => rfl
  | some event => by_cases stop : event.eventType = substrateRecordStop <;> simp [stop]

/-- An attestation is the last request of its chain. -/
theorem requested_buildAttestation (engage : Bool) (issuedBy : String) (chain : List ChainEvent) :
    requested (buildAttestation engage issuedBy :: chain) = some engage := by
  cases engage <;> rfl

/-- An event that is no actuation requests nothing. -/
theorem requested_other {event : ChainEvent} (other : event.isActuation = false) (chain : List ChainEvent) :
    requested (event :: chain) = requested chain := by
  rw [requested, newestActuation, List.find?_cons, other]
  rfl

end Chain

section Processes

variable {Process Key : Type} [DecidableEq Process] [DecidableEq Key]

/-- The processes share the chain, and each one keeps its own flags by the key of a connection. -/
structure World (Process Key : Type) where
  chain : List ChainEvent
  flags : Process → Key → Option RecordStopFlag

variable (world : World Process Key) (process : Process) (key : Key)

def World.withFlag (flag : RecordStopFlag) : World Process Key :=
  { world with flags := Function.update world.flags process (Function.update (world.flags process) key (some flag)) }

/-- A missing flag is created, and nothing is read for it. -/
def flagForKey : RecordStopFlag := (world.flags process key).getD {}

/-- A read of the chain can fail. -/
def seedFromConn (reads : Bool) : World Process Key × Except String Unit :=
  if reads then
    (world.withFlag process key ((flagForKey world process key).apply (readStateSqlite world.chain)), .ok ())
  else (world, .error "record_stop::read_state_sqlite")

/-- The first touch of a process reads the chain, and a failed read leaves the flag running. -/
def gateStorageConn (reads : Bool) : World Process Key × Option (String × String) :=
  match world.flags process key with
  | some flag => (world, flag.stopRefusal)
  | none =>
      let flag : RecordStopFlag := if reads then RecordStopFlag.apply {} (readStateSqlite world.chain) else {}
      (world.withFlag process key flag, flag.stopRefusal)

/-- The attestation is appended before the flag changes, and an append can fail. -/
def actuateSqlite (engage : Bool) (issuedBy scope : String) (appends : Bool) :
    World Process Key × Except String Bool :=
  let flag := flagForKey world process key
  let touched := world.withFlag process key flag
  if flag.stopped = engage then (touched, .ok false)
  else if appends then
    let attested := { touched with chain := buildAttestation engage issuedBy :: world.chain }
    (attested.withFlag process key (if engage then .engage issuedBy scope else flag.release), .ok true)
  else (touched, .error "record_stop::append_attestation_sqlite")

def statusSqlite (reads : Bool) : World Process Key × Except String RecordStopStatus :=
  match world.flags process key with
  | some flag => (world, .ok flag.status)
  | none =>
      let (seeded, result) := seedFromConn world process key reads
      (seeded, result.map fun _ => (flagForKey seeded process key).status)

/-- A restarted process starts without flags. -/
def World.restart : World Process Key := { world with flags := Function.update world.flags process fun _ => none }

inductive Call (Process Key : Type) where
  | actuate (process : Process) (key : Key) (engage : Bool) (issuedBy scope : String) (appends : Bool)
  | gate (process : Process) (key : Key) (reads : Bool)
  | status (process : Process) (key : Key) (reads : Bool)
  | seed (process : Process) (key : Key) (reads : Bool)
  | restart (process : Process)
  | audit (event : ChainEvent) (other : event.isActuation = false)

def World.next (world : World Process Key) : Call Process Key → World Process Key
  | .actuate process key engage issuedBy scope appends =>
      (actuateSqlite world process key engage issuedBy scope appends).1
  | .gate process key reads => (gateStorageConn world process key reads).1
  | .status process key reads => (statusSqlite world process key reads).1
  | .seed process key reads => (seedFromConn world process key reads).1
  | .restart process => world.restart process
  | .audit event _ => { world with chain := event :: world.chain }

end Processes

section Truth

variable {Process Key : Type} [DecidableEq Process] [DecidableEq Key]

/-- In every process the gate refuses exactly when the newest event is a stop. -/
def OneTruth (world : World Process Key) : Prop :=
  ∀ process key, (gateStorageConn world process key true).2.isSome ↔ requested world.chain = some true

/-- A successful actuation leaves the event that it asked for, and a gate refuses on a stop alone. -/
def Answered (world : World Process Key) : Call Process Key → Prop
  | .actuate process key engage issuedBy scope appends =>
      ∀ changed, (actuateSqlite world process key engage issuedBy scope appends).2 = .ok changed →
        requested (world.next (.actuate process key engage issuedBy scope appends)).chain = some engage
  | .gate process key reads =>
      (gateStorageConn world process key reads).2.isSome ↔ requested world.chain = some true
  | _ => True

/-- An actuation that changes its own flag meets no other flag of the opposite state; one that changes nothing
meets the event that it asks for; and no flag is created unseeded over a stop. -/
def MeetsAgreement (world : World Process Key) : Call Process Key → Prop
  | .actuate process key engage _ _ appends =>
      if (flagForKey world process key).stopped = engage then requested world.chain = some engage
      else if appends then
        ∀ otherProcess otherKey, (otherProcess, otherKey) ≠ (process, key) →
          ∀ flag ∈ world.flags otherProcess otherKey, flag.stopped = engage
      else world.flags process key = none → requested world.chain ≠ some true
  | .gate process key reads =>
      reads = false → world.flags process key = none → requested world.chain ≠ some true
  | _ => True

variable {world : World Process Key}

/-- The flags of a world agree with its chain. -/
def Agreed (world : World Process Key) : Prop :=
  ∀ process key, ∀ flag ∈ world.flags process key, flag.stopped = decide (requested world.chain = some true)

theorem flags_withFlag (world : World Process Key) (process : Process) (key : Key) (flag : RecordStopFlag)
    (otherProcess : Process) (otherKey : Key) :
    (world.withFlag process key flag).flags otherProcess otherKey =
      if (otherProcess, otherKey) = (process, key) then some flag else world.flags otherProcess otherKey := by
  show Function.update world.flags process (Function.update (world.flags process) key (some flag)) otherProcess
    otherKey = _
  by_cases same : otherProcess = process
  · subst same
    rw [Function.update_self, Function.update_apply]
    simp only [Prod.mk.injEq, true_and]
  · rw [Function.update_of_ne same, if_neg fun both => same (Prod.mk.inj both).1]

/-- A gate answers from its flag, or from the chain that its first touch reads. -/
theorem isSome_gateStorageConn (world : World Process Key) (process : Process) (key : Key) (reads : Bool) :
    (gateStorageConn world process key reads).2.isSome =
      match world.flags process key with
      | some flag => flag.stopped
      | none => reads && decide (requested world.chain = some true) := by
  unfold gateStorageConn
  cases world.flags process key with
  | some flag => exact flag.isSome_stopRefusal
  | none =>
      dsimp only
      rw [RecordStopFlag.isSome_stopRefusal]
      cases reads with
      | false => rfl
      | true => exact (RecordStopFlag.stopped_apply _ _).trans (stopped_readStateSqlite world.chain)

/-- The gates tell one truth exactly when the flags agree with the chain. -/
theorem oneTruth_iff : OneTruth world ↔ Agreed world := by
  unfold OneTruth Agreed
  refine forall_congr' fun process => forall_congr' fun key => ?_
  rw [isSome_gateStorageConn]
  cases world.flags process key with
  | none => exact iff_of_true (by simp) nofun
  | some flag =>
      dsimp only
      constructor
      · intro same other present
        obtain rfl := Option.some.inj present
        exact Bool.eq_iff_iff.mpr (same.trans decide_eq_true_iff.symm)
      · intro all
        rw [all flag rfl, decide_eq_true_iff]

/-- A world with a new flag agrees exactly when that flag and the other ones do. -/
theorem agreed_withFlag {process : Process} {key : Key} {flag : RecordStopFlag} :
    Agreed (world.withFlag process key flag) ↔
      flag.stopped = decide (requested world.chain = some true) ∧
        ∀ otherProcess otherKey, (otherProcess, otherKey) ≠ (process, key) →
          ∀ other ∈ world.flags otherProcess otherKey,
            other.stopped = decide (requested world.chain = some true) := by
  constructor
  · intro all
    refine ⟨all process key flag ((flags_withFlag ..).trans (if_pos rfl)), fun otherProcess otherKey apart other
      present => all otherProcess otherKey other ?_⟩
    exact (flags_withFlag ..).trans ((if_neg apart).trans present)
  · rintro ⟨own, others⟩ otherProcess otherKey other present
    replace present : (world.withFlag process key flag).flags otherProcess otherKey = some other := present
    rw [flags_withFlag] at present
    split_ifs at present with same
    · exact Option.some.inj present ▸ own
    · exact others otherProcess otherKey same other present

/-- A new flag keeps the agreement exactly when it agrees itself. -/
theorem agreed_withFlag_iff (agreed : Agreed world) {process : Process} {key : Key} {flag : RecordStopFlag} :
    Agreed (world.withFlag process key flag) ↔ flag.stopped = decide (requested world.chain = some true) := by
  rw [agreed_withFlag]
  exact and_iff_left fun otherProcess otherKey _ => agreed otherProcess otherKey

omit [DecidableEq Process] [DecidableEq Key] in
/-- An agreeing process shows the state of the chain once it has a flag. -/
theorem stopped_flagForKey (agreed : Agreed world) {process : Process} {key : Key}
    (seeded : world.flags process key = none → requested world.chain ≠ some true) :
    (flagForKey world process key).stopped = decide (requested world.chain = some true) := by
  unfold flagForKey
  cases found : world.flags process key with
  | some flag => exact agreed process key flag found
  | none => exact (decide_eq_false (seeded found)).symm

/-- A seeded flag agrees with the chain. -/
theorem seedFromConn_agrees (agreed : Agreed world) (process : Process) (key : Key) (reads : Bool) :
    Agreed (seedFromConn world process key reads).1 := by
  unfold seedFromConn
  split_ifs
  · exact (agreed_withFlag_iff agreed).mpr
      ((RecordStopFlag.stopped_apply _ _).trans (stopped_readStateSqlite world.chain))
  · exact agreed

/-- A status call keeps the flags in agreement. -/
theorem statusSqlite_agrees (agreed : Agreed world) (process : Process) (key : Key) (reads : Bool) :
    Agreed (statusSqlite world process key reads).1 := by
  unfold statusSqlite
  cases world.flags process key with
  | some flag => exact agreed
  | none => exact seedFromConn_agrees agreed process key reads

/-- A gate meets the agreement exactly when it answers right, and then it keeps it. -/
theorem gate_meets_iff (agreed : Agreed world) (process : Process) (key : Key) (reads : Bool) :
    (reads = false → world.flags process key = none → requested world.chain ≠ some true) ↔
      ((gateStorageConn world process key reads).2.isSome ↔ requested world.chain = some true) ∧
        Agreed (gateStorageConn world process key reads).1 := by
  rw [isSome_gateStorageConn, gateStorageConn]
  cases found : world.flags process key with
  | some flag =>
      have shown := agreed process key flag found
      refine iff_of_true (fun _ absent => absurd absent (Option.some_ne_none _)) ⟨?_, agreed⟩
      dsimp only
      rw [shown, decide_eq_true_iff]
  | none =>
      dsimp only
      rw [agreed_withFlag_iff agreed]
      cases reads with
      | true =>
          refine iff_of_true nofun ⟨by simp, ?_⟩
          exact (RecordStopFlag.stopped_apply _ _).trans (stopped_readStateSqlite world.chain)
      | false => simp

/-- An actuation meets the agreement exactly when it leaves the event that it asks for and the other flags agree
with it. -/
theorem actuate_meets_iff (agreed : Agreed world) (process : Process) (key : Key) (engage : Bool)
    (issuedBy scope : String) (appends : Bool) :
    MeetsAgreement world (.actuate process key engage issuedBy scope appends) ↔
      Answered world (.actuate process key engage issuedBy scope appends) ∧
        Agreed (world.next (.actuate process key engage issuedBy scope appends)) := by
  unfold MeetsAgreement Answered World.next actuateSqlite
  by_cases same : (flagForKey world process key).stopped = engage
  · simp only [if_pos same]
    rw [agreed_withFlag_iff agreed, same]
    constructor
    · intro newest
      exact ⟨fun _ _ => newest, by rw [newest]; cases engage <;> rfl⟩
    · exact fun both => both.1 false rfl
  simp only [if_neg same]
  cases appends with
  | false =>
      simp only [Bool.false_eq_true, if_false]
      rw [agreed_withFlag_iff agreed]
      constructor
      · exact fun seeded => ⟨nofun, stopped_flagForKey agreed seeded⟩
      · rintro ⟨_, shown⟩ absent
        rw [flagForKey, absent] at shown
        exact of_decide_eq_false shown.symm
  | true =>
      simp only [if_true]
      have newest : requested (buildAttestation engage issuedBy :: world.chain) = some engage :=
        requested_buildAttestation engage issuedBy world.chain
      have asked : decide (some engage = some true) = engage := by cases engage <;> rfl
      have own : (if engage = true then RecordStopFlag.engage issuedBy scope
          else (flagForKey world process key).release).stopped = engage := by cases engage <;> rfl
      rw [agreed_withFlag]
      have shown : requested ({ world.withFlag process key (flagForKey world process key) with
          chain := buildAttestation engage issuedBy :: world.chain } : World Process Key).chain = some engage := newest
      rw [shown, asked]
      constructor
      · refine fun others => ⟨fun _ _ => newest, own, fun otherProcess otherKey apart other present => ?_⟩
        rw [Option.mem_def, flags_withFlag, if_neg apart] at present
        exact others otherProcess otherKey apart other present
      · rintro ⟨_, _, others⟩ otherProcess otherKey apart other present
        exact others otherProcess otherKey apart other
          ((flags_withFlag ..).trans ((if_neg apart).trans present))

/-- One call meets the agreement exactly when it answers right and keeps the agreement. -/
theorem meetsAgreement_iff (agreed : Agreed world) (call : Call Process Key) :
    MeetsAgreement world call ↔ Answered world call ∧ Agreed (world.next call) := by
  cases call with
  | actuate process key engage issuedBy scope appends =>
      exact actuate_meets_iff agreed process key engage issuedBy scope appends
  | gate process key reads => exact gate_meets_iff agreed process key reads
  | status process key reads => exact iff_of_true trivial ⟨trivial, statusSqlite_agrees agreed process key reads⟩
  | seed process key reads => exact iff_of_true trivial ⟨trivial, seedFromConn_agrees agreed process key reads⟩
  | restart process =>
      refine iff_of_true trivial ⟨trivial, fun otherProcess otherKey flag present => ?_⟩
      replace present : Function.update world.flags process (fun _ => none) otherProcess otherKey = some flag :=
        present
      by_cases own : otherProcess = process
      · rw [own, Function.update_self] at present
        cases present
      · rw [Function.update_of_ne own] at present
        exact agreed otherProcess otherKey flag present
  | audit event other =>
      refine iff_of_true trivial ⟨trivial, fun otherProcess otherKey flag present => ?_⟩
      show flag.stopped = decide (requested (event :: world.chain) = some true)
      rw [requested_other other]
      exact agreed otherProcess otherKey flag present

/-- Every call of a run meets the agreement exactly when every call answers right and leaves one truth. -/
theorem recordStop_oneTruth_iff (chain : List ChainEvent) (calls : List (Call Process Key)) :
    EveryStep World.next MeetsAgreement ⟨chain, fun _ _ => none⟩ calls ↔
      EveryStep World.next (fun world call => Answered world call ∧ OneTruth (world.next call))
        ⟨chain, fun _ _ => none⟩ calls := by
  have agree (world : World Process Key) (call : Call Process Key) (agreed : Agreed world) :
      MeetsAgreement world call ↔ Answered world call ∧ OneTruth (world.next call) := by
    rw [oneTruth_iff]
    exact meetsAgreement_iff agreed call
  exact EveryStep.congr_of_invariant agree (fun _ _ _ kept => oneTruth_iff.mp kept.2) calls nofun

end Truth

section Samples

/-- The daemon has written before the operator stops the record from another process. -/
def operatorStops : List (Call String String) :=
  [.gate "daemon" "memory.db" true,
    .actuate "cli" "memory.db" true "ai:operator" scopeRecordPlane true]

def stoppedWorld : World String String := run World.next ⟨[], fun _ _ => none⟩ operatorStops

/-- The restarted process resumes before it has read the chain. -/
def restartedWorld : World String String := stoppedWorld.next (.restart "cli")

/-- The daemon writes on under its flag, and the resume of the restarted process succeeds without an event. -/
theorem stoppedWorld_writes_on :
    requested stoppedWorld.chain = some true ∧
      (gateStorageConn stoppedWorld "daemon" "memory.db" true).2 = none ∧
      (actuateSqlite restartedWorld "cli" "memory.db" false "ai:operator" scopeRecordPlane true).2 = .ok false ∧
      requested (restartedWorld.next (.actuate "cli" "memory.db" false "ai:operator" scopeRecordPlane true)).chain =
        some true ∧
      ¬ OneTruth stoppedWorld := by
  refine ⟨by decide, by decide, by decide, by decide, fun truth => ?_⟩
  exact absurd ((truth "daemon" "memory.db").mpr (by decide)) (by decide)

end Samples
end AiMemory.RecordStop
