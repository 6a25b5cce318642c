import AiMemory.Library.Run
import AiMemory.Lineage.WitnessBinding
import AiMemory.Witness.RestoreSanction

/-
This file proves when a rollback below an anchored head is reported.
-/

namespace AiMemory.Witness
open AiMemory.Capability (SigningKey)
open AiMemory.Checkpoints AiMemory.Crdt AiMemory.ForensicLog AiMemory.Library AiMemory.Lineage
  AiMemory.Machine

/-- The keys are enrolled, and the key of the witness signs under the name of its agent. -/
structure Custody where
  agentId : String
  witness : SigningKey
  operator : SigningKey
  requireRollbackCheck : Bool

/-- One emission of the witness reads the head of the revisions and the hashes beside the head. -/
structure Emission where
  id : String
  signedHeadHash : String
  revisionsHeadSequence : Int
  revisionsHeadHash : String
  now : Int

def Emission.dual (emission : Emission) (head : Int) : WitnessDualHead :=
  ⟨head, emission.signedHeadHash, emission.revisionsHeadSequence, emission.revisionsHeadHash⟩

inductive Turn where
  | append
  | anchor (emission : Emission)
  | restore (target : Int)
  | restoreAttest (now : Int)

/-- What has happened so far, which no call reads. A head is owed from the restore that brought the table
below it until the table reaches it again or the operator attests the restore. -/
structure History where
  everAnchored : List Int
  sinceSanctioned : List Int
  sinceRestore : List Int
  owedEarlier : List Int
  owedLast : List Int
  issued : List (Int × Int)

structure Host where
  head : Int
  headAnchors : Option (List Line)
  restoreSanctions : Option (List Line)
  history : History

def Host.start (head : Int) : Host := ⟨head, none, none, ⟨[], [], [], [], [], []⟩⟩

namespace History

def highest (history : History) : Option Int := history.everAnchored.max?

def owed (history : History) : List Int := history.owedEarlier ++ history.owedLast

/-- The table has a new head. -/
def reach (history : History) (head : Int) : History :=
  { history with
    owedEarlier := history.owedEarlier.filter (head < ·)
    owedLast := history.owedLast.filter (head < ·) }

def anchor (history : History) (head : Int) : History :=
  { history with
    everAnchored := history.everAnchored ++ [head]
    sinceSanctioned := history.sinceSanctioned ++ [head]
    sinceRestore := history.sinceRestore ++ [head] }

def restore (history : History) (target : Int) : History :=
  { history with
    sinceRestore := []
    owedEarlier := history.owed.filter (target < ·)
    owedLast := history.sinceSanctioned.filter (target < ·) }

/-- The last restore is attested as one from the highest anchored head to the present head. -/
def sanction (history : History) (head : Int) : History :=
  match history.highest with
  | none => history
  | some mark =>
      if mark ≤ head then history
      else
        { history with
          sinceSanctioned := history.sinceRestore
          owedLast := []
          issued := history.issued ++ [(mark, head)] }

/-- Some sanction issued so far names the highest anchored head and a new head that is not above the head. -/
def Covered (history : History) (head : Int) : Prop :=
  ∃ issued ∈ history.issued, history.highest = some issued.1 ∧ issued.2 ≤ head

instance (history : History) (head : Int) : Decidable (history.Covered head) :=
  inferInstanceAs (Decidable (∃ issued ∈ history.issued, _))

end History

section Steps

variable (env : Environment) (custody : Custody)

def Custody.mount (host : Host) : Mount where
  witnessKey := some custody.witness.verifyingKey
  operatorKey := some custody.operator.verifyingKey
  requireRollbackCheck := custody.requireRollbackCheck
  headAnchors := host.headAnchors
  restoreSanctions := host.restoreSanctions

def Host.verdict (host : Host) : RollbackCheck :=
  computeRollbackVerdictForReport env (custody.mount host) host.head

/-- The witness signs the present head and the counter that goes with it. -/
def emit (head : Int) (emission : Emission) : Option Checkpoint :=
  buildSignedWitnessCheckpoint env emission.id (emission.dual head) (some (rollbackCounterFor head))
    emission.now (keypairOf custody.agentId custody.witness)

def Host.next (host : Host) : Turn → Host
  | .append => { host with head := host.head + 1, history := host.history.reach (host.head + 1) }
  | .anchor emission =>
      match emit env custody host.head emission with
      | none => host
      | some cp =>
          { host with
            headAnchors := appendHeadAnchor env host.headAnchors cp
            history := host.history.anchor host.head }
  | .restore target => { host with head := target, history := host.history.restore target }
  | .restoreAttest now =>
      { host with
        restoreSanctions :=
          (runRestoreAttest env (custody.mount host) host.head now custody.operator).restoreSanctions
        history := host.history.sanction host.head }

/-- Every owed head is reported as evidence of a rollback from a head that is not below it. -/
def Host.Reported (host : Host) : Prop :=
  ∀ head ∈ host.history.owed, ∃ mark, head ≤ mark ∧ host.verdict env custody = .evidence mark host.head

/-- While a head is owed, no sanction issued so far covers the head of the table, and the operator attests no
restore while a head is owed by an earlier one. -/
def Careful (host : Host) : Turn → Prop
  | .append =>
      (∃ head ∈ host.history.owed, host.head + 1 < head) → ¬host.history.Covered (host.head + 1)
  | .restore target =>
      (∃ head ∈ host.history.owed ++ host.history.sinceSanctioned, target < head) →
        ¬host.history.Covered target
  | .restoreAttest _ => host.history.owedEarlier = []
  | .anchor _ => True

/-- The lines that a turn writes read back. -/
def Reads (host : Host) : Turn → Prop
  | .anchor emission => ∀ cp ∈ emit env custody host.head emission,
      CheckpointReads env cp
        (witnessResolutionWire (emission.dual host.head) (some (rollbackCounterFor host.head)))
  | .restoreAttest now => ∀ mark ∈ host.history.highest, host.head < mark →
      SanctionReads env custody.operator (restoreRecord mark host.head now)
  | _ => True

end Steps

namespace History

variable {history : History} {head other : Int}

/-- What is owed at a head was owed and lies above it. -/
theorem mem_owed_reach : other ∈ (history.reach head).owed ↔ other ∈ history.owed ∧ head < other := by
  simp [owed, reach, or_and_right]

/-- A restore owes what was owed and what was reached since the last sanction. -/
theorem mem_owed_restore : other ∈ (history.restore head).owed ↔
    other ∈ history.owed ++ history.sinceSanctioned ∧ head < other := by
  simp [owed, restore, or_and_right]

/-- A sanction below the mark starts a new window. -/
theorem sanction_above {mark : Int} (highest : history.highest = some mark) (above : head < mark) :
    history.sanction head =
      { history with
        sinceSanctioned := history.sinceRestore
        owedLast := []
        issued := history.issued ++ [(mark, head)] } := by
  unfold sanction
  rw [highest]
  exact if_neg (not_le.mpr above)

/-- A sanction that is not below the mark changes nothing. -/
theorem sanction_below (below : ∀ mark, history.highest = some mark → mark ≤ head) :
    history.sanction head = history := by
  unfold sanction
  cases highest : history.highest with
  | none => rfl
  | some mark => exact if_pos (below mark highest)

/-- Every anchored head is at most the highest one. -/
theorem exists_highest (anchored : other ∈ history.everAnchored) :
    ∃ mark, history.highest = some mark ∧ other ≤ mark := by
  unfold highest
  cases highest : history.everAnchored.max? with
  | none => simp [List.max?_eq_none_iff.mp highest] at anchored
  | some mark => exact ⟨mark, rfl, (List.max?_eq_some_iff.mp highest).2 other anchored⟩

end History

section Soundness

variable {env : Environment} {custody : Custody} {host : Host}

/-- The logs hold what the history says, and what is owed was anchored and is above the head. -/
structure Sound (env : Environment) (custody : Custody) (host : Host) : Prop where
  anchors : (host.headAnchors.getD []).filterMap (anchorSequence env custody.witness.verifyingKey) =
    host.history.everAnchored
  sanctions : ((host.restoreSanctions.getD []).filterMap (sanctionOf env custody.operator.verifyingKey)).map
    (fun wire => (wire.oldHead, wire.newHead)) = host.history.issued
  owed : ∀ head ∈ host.history.owed, head ∈ host.history.everAnchored
  sinceSanctioned : ∀ head ∈ host.history.sinceSanctioned, head ∈ host.history.everAnchored
  sinceRestore : ∀ head ∈ host.history.sinceRestore, head ∈ host.history.everAnchored
  below : ∀ head ∈ host.history.owed, host.head < head

theorem sound_start (head : Int) : Sound env custody (Host.start head) where
  anchors := rfl
  sanctions := rfl
  owed := nofun
  sinceSanctioned := nofun
  sinceRestore := nofun
  below := nofun

/-- The log is read back as the highest head anchored so far. -/
theorem Sound.highWater (sound : Sound env custody host) :
    readHeadAnchorHighWater env (some custody.witness.verifyingKey) host.headAnchors =
      host.history.highest := by
  rw [readHeadAnchorHighWater_eq, sound.anchors, History.highest]

/-- The sanctions clear a fall exactly when one of them was issued for it. -/
theorem Sound.clears_iff (sound : Sound env custody host) (mark head : Int) :
    restoreSanctionClears env (some custody.operator.verifyingKey) host.restoreSanctions mark head = true ↔
      ∃ issued ∈ host.history.issued, issued.1 = mark ∧ issued.2 ≤ head := by
  rw [restoreSanctionClears, Option.any_some, List.any_eq_true, ← sound.sanctions]
  simp only [List.mem_map, List.mem_filterMap, Option.any_eq_true, SanctionedRestoreWire.covers,
    decide_eq_true_eq]
  constructor
  · rintro ⟨line, present, wire, read, covers⟩
    exact ⟨_, ⟨wire, ⟨line, present, read⟩, rfl⟩, covers⟩
  · rintro ⟨_, ⟨wire, ⟨line, present, read⟩, rfl⟩, covers⟩
    exact ⟨line, present, wire, read, covers⟩

/-- Below the highest anchored head the verdict is evidence unless a sanction covers the head. -/
theorem Sound.verdict_below (sound : Sound env custody host) {mark : Int}
    (highest : host.history.highest = some mark) (below : host.head < mark) :
    host.verdict env custody =
      if host.history.Covered host.head then .sanctioned mark host.head else .evidence mark host.head := by
  have covered : restoreSanctionClears env (some custody.operator.verifyingKey) host.restoreSanctions mark
      host.head = true ↔ host.history.Covered host.head := by
    rw [sound.clears_iff, History.Covered, highest]
    simp only [Option.some.injEq, eq_comm]
  show computeRollbackVerdict host.head
    (readHeadAnchorHighWater env (some custody.witness.verifyingKey) host.headAnchors) _ _ = _
  simp only [Custody.mount, sound.highWater, highest, Option.any_some, computeRollbackVerdict,
    if_neg (not_le.mpr below), gt_iff_lt, below, decide_true, Bool.true_and, covered]

/-- The owed heads are reported exactly when no sanction covers the head. -/
theorem Sound.reported_iff (sound : Sound env custody host) :
    host.Reported env custody ↔
      ((∃ head, head ∈ host.history.owed) → ¬host.history.Covered host.head) := by
  constructor
  · rintro reported ⟨head, owed⟩ covered
    obtain ⟨mark, highest, above⟩ := History.exists_highest (sound.owed head owed)
    obtain ⟨other, _, verdict⟩ := reported head owed
    rw [sound.verdict_below highest (lt_of_lt_of_le (sound.below head owed) above), if_pos covered] at verdict
    cases verdict
  · intro uncovered head owed
    obtain ⟨mark, highest, above⟩ := History.exists_highest (sound.owed head owed)
    refine ⟨mark, above, ?_⟩
    rw [sound.verdict_below highest (lt_of_lt_of_le (sound.below head owed) above),
      if_neg (uncovered ⟨head, owed⟩)]

/-- An attested restore adds one line, which reads back as the sanction that the history adds. -/
theorem Sound.attested (sound : Sound env custody host) {now : Int}
    (reads : Reads env custody host (.restoreAttest now)) :
    (((host.next env custody (.restoreAttest now)).restoreSanctions.getD []).filterMap
      (sanctionOf env custody.operator.verifyingKey)).map (fun wire => (wire.oldHead, wire.newHead)) =
      (host.history.sanction host.head).issued := by
  show (((runRestoreAttest env (custody.mount host) host.head now custody.operator).restoreSanctions.getD
    []).filterMap _).map _ = _
  unfold runRestoreAttest
  rw [show readHeadAnchorHighWater env (custody.mount host).witnessKey (custody.mount host).headAnchors =
    host.history.highest from sound.highWater]
  cases highest : host.history.highest with
  | none =>
      rw [History.sanction_below fun mark found => by simp [highest] at found]
      exact sound.sanctions
  | some mark =>
      by_cases above : host.head < mark
      · have gap : ¬saturatingSub mark host.head ≤ 0 := not_le.mpr (saturatingSub_pos.mpr above)
        have line := sanctionOf_signed (reads mark highest above) rfl rfl
        rw [History.sanction_above highest above, ← sound.sanctions]
        simp only [if_neg gap, appendLine, Option.getD_some, List.filterMap_append, List.map_append,
          signRestoreSanction, List.filterMap_cons, List.filterMap_nil, line]
        rfl
      · have noGap : saturatingSub mark host.head ≤ 0 := not_lt.mp fun gap => above (saturatingSub_pos.mp gap)
        rw [History.sanction_below fun other found => by
          rw [highest] at found
          exact Option.some.inj found ▸ not_lt.mp above]
        simpa [if_pos noGap, Custody.mount] using sound.sanctions

/-- A signed anchor is appended to the log. -/
theorem next_anchor {emission : Emission} {cp : Checkpoint}
    (emitted : emit env custody host.head emission = some cp) :
    host.next env custody (.anchor emission) =
      { host with
        headAnchors := appendHeadAnchor env host.headAnchors cp
        history := host.history.anchor host.head } := by
  simp only [Host.next, emitted]

theorem next_anchor_none {emission : Emission} (unsigned : emit env custody host.head emission = none) :
    host.next env custody (.anchor emission) = host := by
  simp only [Host.next, unsigned]

/-- An append keeps the host sound. -/
theorem Sound.append (sound : Sound env custody host) :
    Sound env custody (host.next env custody .append) where
  anchors := sound.anchors
  sanctions := sound.sanctions
  owed := fun head owed => sound.owed head (History.mem_owed_reach.mp owed).1
  sinceSanctioned := sound.sinceSanctioned
  sinceRestore := sound.sinceRestore
  below := fun _ owed => (History.mem_owed_reach.mp owed).2

/-- A restore keeps the host sound. -/
theorem Sound.restore (sound : Sound env custody host) (target : Int) :
    Sound env custody (host.next env custody (.restore target)) where
  anchors := sound.anchors
  sanctions := sound.sanctions
  owed := by
    intro head owed
    rcases List.mem_append.mp (History.mem_owed_restore.mp owed).1 with earlier | last
    · exact sound.owed head earlier
    · exact sound.sinceSanctioned head last
  sinceSanctioned := sound.sinceSanctioned
  sinceRestore := nofun
  below := fun head owed => (History.mem_owed_restore.mp owed).2

/-- The head joins what was anchored, whether or not it has been anchored before. -/
theorem Sound.anchor (sound : Sound env custody host)
    (decodes : env.checkpoints.verifyingKeyFromBytes custody.witness.verifyingKey.toBytes =
      some custody.witness.verifyingKey)
    {emission : Emission} (reads : Reads env custody host (.anchor emission)) :
    Sound env custody (host.next env custody (.anchor emission)) := by
  cases emitted : emit env custody host.head emission with
  | none =>
      rw [next_anchor_none emitted]
      exact sound
  | some cp =>
      rw [next_anchor emitted]
      have line := anchorSequence_signed decodes emitted (reads cp emitted)
      have grows : ∀ heads : List Int, (∀ head ∈ heads, head ∈ host.history.everAnchored) →
          ∀ head ∈ heads, head ∈ (host.history.anchor host.head).everAnchored := by
        intro _ within head present
        exact List.mem_append_left _ (within head present)
      have joins : ∀ heads : List Int, (∀ head ∈ heads, head ∈ host.history.everAnchored) →
          ∀ head ∈ heads ++ [host.head], head ∈ (host.history.anchor host.head).everAnchored := by
        intro heads within head present
        rcases List.mem_append.mp present with earlier | here
        · exact grows heads within head earlier
        · exact List.mem_append_right _ here
      exact {
        anchors := by
          show ((host.headAnchors.getD [] ++ [some (env.serde.checkpointToString cp)]).filterMap _) = _
          rw [List.filterMap_append, sound.anchors, List.filterMap_cons, line]
          rfl
        sanctions := sound.sanctions
        owed := grows _ sound.owed
        sinceSanctioned := joins _ sound.sinceSanctioned
        sinceRestore := joins _ sound.sinceRestore
        below := sound.below }

/-- An attested restore keeps the host sound. -/
theorem Sound.restoreAttest (sound : Sound env custody host) {now : Int}
    (reads : Reads env custody host (.restoreAttest now)) :
    Sound env custody (host.next env custody (.restoreAttest now)) := by
  have attested := sound.attested reads
  by_cases above : ∃ mark, host.history.highest = some mark ∧ host.head < mark
  · obtain ⟨mark, highest, above⟩ := above
    have history := History.sanction_above highest above
    have earlier : ∀ head ∈ (host.history.sanction host.head).owed, head ∈ host.history.owed := by
      intro head owed
      rw [history] at owed
      simp only [History.owed, List.append_nil] at owed
      exact List.mem_append_left _ owed
    have ever : (host.history.sanction host.head).everAnchored = host.history.everAnchored := by
      rw [history]
    have since : ∀ head ∈ (host.history.sanction host.head).sinceSanctioned,
        head ∈ (host.history.sanction host.head).everAnchored := by
      rw [history]
      exact sound.sinceRestore
    have recent : ∀ head ∈ (host.history.sanction host.head).sinceRestore,
        head ∈ (host.history.sanction host.head).everAnchored := by
      rw [history]
      exact sound.sinceRestore
    exact {
      anchors := sound.anchors.trans ever.symm
      sanctions := attested
      owed := fun head owed => ever ▸ sound.owed head (earlier head owed)
      sinceSanctioned := since
      sinceRestore := recent
      below := fun head owed => sound.below head (earlier head owed) }
  · have history : host.history.sanction host.head = host.history :=
      History.sanction_below fun mark highest => not_lt.mp fun below => above ⟨mark, highest, below⟩
    have same : (host.next env custody (.restoreAttest now)).history = host.history := history
    rw [history] at attested
    exact {
      anchors := same ▸ sound.anchors
      sanctions := attested.trans (congrArg History.issued same).symm
      owed := same ▸ sound.owed
      sinceSanctioned := same ▸ sound.sinceSanctioned
      sinceRestore := same ▸ sound.sinceRestore
      below := same ▸ sound.below }

/-- Every turn keeps the logs in step with the history. -/
theorem Sound.next (sound : Sound env custody host)
    (decodes : env.checkpoints.verifyingKeyFromBytes custody.witness.verifyingKey.toBytes =
      some custody.witness.verifyingKey)
    {turn : Turn} (reads : Reads env custody host turn) : Sound env custody (host.next env custody turn) := by
  cases turn with
  | append => exact sound.append
  | anchor emission => exact sound.anchor decodes reads
  | restore target => exact sound.restore target
  | restoreAttest now => exact sound.restoreAttest reads

/-- A careful turn is exactly one after which every owed head is reported. -/
theorem Sound.careful_iff (sound : Sound env custody host)
    (decodes : env.checkpoints.verifyingKeyFromBytes custody.witness.verifyingKey.toBytes =
      some custody.witness.verifyingKey)
    {turn : Turn} (reads : Reads env custody host turn) (reported : host.Reported env custody) :
    Careful host turn ↔ (host.next env custody turn).Reported env custody := by
  rw [(sound.next decodes reads).reported_iff]
  cases turn with
  | append =>
      show (_ → ¬_) ↔ ((∃ head, head ∈ (host.history.reach (host.head + 1)).owed) → ¬_)
      simp only [History.mem_owed_reach]
      exact Iff.rfl
  | anchor emission =>
      refine iff_of_true trivial ?_
      cases emitted : emit env custody host.head emission with
      | none =>
          rw [next_anchor_none emitted]
          exact sound.reported_iff.mp reported
      | some cp =>
          rw [next_anchor emitted]
          rintro ⟨head, owed⟩ ⟨issued, present, highest, covers⟩
          -- The present head is below the owed one, so anchoring it leaves the highest head.
          obtain ⟨mark, found, above⟩ := History.exists_highest (sound.owed head owed)
          have below := sound.below head owed
          have kept : (host.history.anchor host.head).highest = some mark := by
            obtain ⟨anchored, most⟩ := List.max?_eq_some_iff.mp found
            refine List.max?_eq_some_iff.mpr ⟨List.mem_append_left _ anchored, ?_⟩
            intro other present
            rcases List.mem_append.mp present with earlier | here
            · exact most other earlier
            · rw [List.mem_singleton.mp here]
              omega
          exact sound.reported_iff.mp reported ⟨head, owed⟩
            ⟨issued, present, found.trans (kept.symm.trans highest), covers⟩
  | restore target =>
      show (_ → ¬_) ↔ ((∃ head, head ∈ (host.history.restore target).owed) → ¬_)
      simp only [History.mem_owed_restore]
      exact Iff.rfl
  | restoreAttest now =>
      show host.history.owedEarlier = [] ↔
        ((∃ head, head ∈ (host.history.sanction host.head).owed) →
          ¬(host.history.sanction host.head).Covered host.head)
      by_cases above : ∃ mark, host.history.highest = some mark ∧ host.head < mark
      · obtain ⟨mark, highest, above⟩ := above
        rw [History.sanction_above highest above]
        have covered : ({ host.history with
            sinceSanctioned := host.history.sinceRestore
            owedLast := []
            issued := host.history.issued ++ [(mark, host.head)] } : History).Covered host.head :=
          ⟨(mark, host.head), List.mem_append_right _ List.mem_cons_self, highest, le_refl _⟩
        constructor
        · rintro none_owed ⟨head, owed⟩
          simp [History.owed, none_owed] at owed
        · intro uncovered
          apply List.eq_nil_iff_forall_not_mem.mpr
          intro head owed
          exact uncovered ⟨head, List.mem_append_left _ owed⟩ covered
      · have nothing : ∀ head, head ∉ host.history.owed := by
          intro head owed
          obtain ⟨mark, highest, most⟩ := History.exists_highest (sound.owed head owed)
          exact above ⟨mark, highest, lt_of_lt_of_le (sound.below head owed) most⟩
        rw [History.sanction_below fun mark highest => not_lt.mp fun below => above ⟨mark, highest, below⟩]
        refine iff_of_true ?_ fun owes => absurd owes.choose_spec (nothing _)
        apply List.eq_nil_iff_forall_not_mem.mpr
        intro head owed
        exact nothing head (List.mem_append_left _ owed)

/-- In a run every owed head is reported in every state reached exactly when every turn is careful. -/
theorem rollbacks_reported (env : Environment) (custody : Custody) (head : Int) (turns : List Turn)
    (decodes : env.checkpoints.verifyingKeyFromBytes custody.witness.verifyingKey.toBytes =
      some custody.witness.verifyingKey)
    (reads : EveryStep (Host.next env custody) (Reads env custody) (Host.start head) turns) :
    EveryStep (Host.next env custody) Careful (Host.start head) turns ↔
      ∀ taken rest, turns = taken ++ rest →
        (run (Host.next env custody) (Host.start head) taken).Reported env custody :=
  EveryStep.iff_reached (fun _ _ reads sound => Sound.next sound decodes reads)
    (fun _ _ reads sound reported => Sound.careful_iff sound decodes reads reported) reads (sound_start head)
    nofun

end Soundness

section Samples

/-- A text between quotes, with its own quotes escaped. -/
def quoted (text : String) : String :=
  "\"" ++ String.ofList (text.toList.flatMap fun char => if char = '"' then ['\\', '"'] else [char]) ++ "\""

def nullOr {Value : Type} (write : Value → String) (value : Option Value) : String := value.elim "null" write

def byteList (bytes : Bytes) : String :=
  "[" ++ ",".intercalate (bytes.map fun byte => toString byte.toNat) ++ "]"

@[irreducible] def checkpointText (cp : Checkpoint) : String :=
  "\x7b\"id\":" ++ quoted cp.id ++ ",\"namespace\":" ++ quoted cp.namespace ++
    ",\"title\":" ++ quoted cp.title ++ ",\"condition_type\":" ++ quoted cp.conditionType ++
    ",\"condition\":" ++ cp.condition ++
    ",\"state\":" ++ quoted cp.state.asStr ++ ",\"created_by\":" ++ quoted cp.createdBy ++
    ",\"resolved_by\":" ++ nullOr quoted cp.resolvedBy ++ ",\"resolution\":" ++ nullOr quoted cp.resolution ++
    ",\"resolution_note\":" ++ nullOr quoted cp.resolutionNote ++
    ",\"signature\":" ++ byteList cp.signature ++
    ",\"resolver_pubkey\":" ++ byteList cp.resolverPubkey ++ ",\"created_at\":" ++ toString cp.createdAt ++
    ",\"deadline_at\":" ++ nullOr toString cp.deadlineAt ++
    ",\"resolved_at\":" ++ nullOr toString cp.resolvedAt ++ ",\"metadata\":" ++ cp.metadata ++ "\x7d"

def headText (wire : WitnessHeadWire) : String :=
  "\x7b\"head_sequence\":" ++ toString wire.headSequence ++
    ",\"head_hash\":" ++ quoted wire.headHash ++ "\x7d"

def rollbackText (wire : RollbackWire) : String :=
  ",\"rollback\":\x7b\"value\":" ++ toString wire.value ++ ",\"source\":" ++ quoted wire.source ++ "\x7d"

@[irreducible] def resolutionText (wire : WitnessResolutionWire) : String :=
  "\x7b\"v\":" ++ toString wire.v ++ ",\"signed_events\":" ++ headText wire.signedEvents ++
    ",\"memory_revisions\":" ++ headText wire.memoryRevisions ++ wire.rollback.elim "" rollbackText ++ "\x7d"

def sanctionText (wire : SanctionedRestoreWire) : String :=
  "\x7b\"dst\":" ++ quoted wire.dst ++ ",\"v\":" ++ toString wire.v ++
    ",\"old_head\":" ++ toString wire.oldHead ++
    ",\"new_head\":" ++ toString wire.newHead ++ ",\"gap\":" ++ toString wire.gap ++
    ",\"timestamp\":" ++ toString wire.timestamp ++ "\x7d"

def numberJson (number : Int) : Json :=
  .number (if 0 ≤ number then .posInt number.toNat else .negInt number)

def asNumber : Json → Option Int
  | .number (.posInt value) => some value
  | .number (.negInt value) => some value
  | _ => none

def sanctionJson (wire : SanctionedRestoreWire) : Json :=
  (((((Json.empty.insert "dst" (.string wire.dst)).insert "v" (numberJson wire.v)).insert "old_head"
    (numberJson wire.oldHead)).insert "new_head" (numberJson wire.newHead)).insert "gap"
    (numberJson wire.gap)).insert "timestamp" (numberJson wire.timestamp)

def sanctionFrom (json : Json) : Option SanctionedRestoreWire := do
  let dst ← (json.get "dst").bind Json.asStr
  let v ← (json.get "v").bind asNumber
  let oldHead ← (json.get "old_head").bind asNumber
  let newHead ← (json.get "new_head").bind asNumber
  let gap ← (json.get "gap").bind asNumber
  let timestamp ← (json.get "timestamp").bind asNumber
  return ⟨dst, v, oldHead, newHead, gap, timestamp⟩

def thirdEmission : Emission where
  id := "0198a1de-0000-4000-8000-000000000001"
  signedHeadHash := "6c5cd6775eb412207f7f71f11f09047f1475b2b7526063195b777a230fe4c2a6"
  revisionsHeadSequence := 0
  revisionsHeadHash := chainHeadPrevHash
  now := 1800000000

def secondEmission : Emission where
  id := "0198a1de-0000-4000-8000-000000000002"
  signedHeadHash := "7f1ee17eb6d4b1815c8c0580dfb7ca0d3d5c3cde523da817ef7d3b1e96f6d5b8"
  revisionsHeadSequence := 0
  revisionsHeadHash := chainHeadPrevHash
  now := 1800000200

def thirdWire : WitnessResolutionWire :=
  witnessResolutionWire (thirdEmission.dual 3) (some (rollbackCounterFor 3))

def secondWire : WitnessResolutionWire :=
  witnessResolutionWire (secondEmission.dual 2) (some (rollbackCounterFor 2))

def thirdSignature : SignatureBytes :=
  ⟨beBytes 32 0x63157b2cae3af7d97bdd8304fa63360ef7d331577ec76d29ec5a5c544136f5a5 ++
    beBytes 32 0x64f560f99caa1fb1c831783900b21fe81c6b44d019ad4e6c884cc9e6ff092f07, by decide⟩

def secondSignature : SignatureBytes :=
  ⟨beBytes 32 0xc4f48842fce6f6ef18d25ea709f00c335cc5d2d551ac474b2b51f89d2567d721 ++
    beBytes 32 0x78b021663851f0eff17faae521ab3bc66a96b17a82166b875dcda3c98479a20d, by decide⟩

def sanctionSignature : SignatureBytes :=
  ⟨beBytes 32 0x47a491c40e63e9bfb125d77eddfab0e88970c8248ede2f1eeb9211b7a4a7312e ++
    beBytes 32 0x0b17d67791bc6283679724e08d33e87d88079a74ccb65c01d4ce34200a05e407, by decide⟩

def wideHead (major argument : Nat) : Bytes :=
  if argument < 2 ^ 8 then cborHead major argument
  else if argument < 2 ^ 16 then UInt8.ofNat (32 * major + 25) :: beBytes 2 argument
  else UInt8.ofNat (32 * major + 26) :: beBytes 4 argument

def wideScalar : CborValue → Bytes
  | .integer value => wideHead 0 value.toNat
  | .text value => wideHead 3 (utf8 value).length ++ utf8 value
  | _ => [0xF6]

/-- The writer covers flat maps of texts and numbers. -/
def wideWriter : CborValue → Option Bytes
  | .map entries =>
      some (wideHead 5 entries.length ++
        entries.flatMap fun entry => wideScalar entry.1 ++ wideScalar entry.2)
  | value => some (wideScalar value)

/-- The witness key signs the two heads of the samples. -/
def sampleSigner (message : Bytes) : SignatureBytes :=
  if message = (wideWriter (canonicalCborMap { writerOnly with intoWriter := wideWriter }
    [("checkpoint_id", .text thirdEmission.id), ("namespace", .text "_audit_witness"),
      ("state", .text "resolved"), ("resolved_by", .text "audit:witness"),
      ("resolution", .text (resolutionText thirdWire)),
      ("resolved_at", .integer thirdEmission.now)])).getD [] then thirdSignature
  else secondSignature

def witnessSigningKey : SigningKey where
  verifyingKey := ⟨aliceKey, fun message signature => signature = sampleSigner message⟩
  sign := sampleSigner
  verifies _ := decide_eq_true rfl

def operatorSigningKey : SigningKey where
  verifyingKey :=
    ⟨digestOf 0xe7f162a10bec559afea195e4dce84b69568d5d2cb0963eb446c0685e2b17f2f0, fun _ signature =>
      signature = sanctionSignature⟩
  sign _ := sanctionSignature
  verifies _ := by simp

def sampleCustody : Custody := ⟨"audit:witness", witnessSigningKey, operatorSigningKey, false⟩

@[irreducible] def sanctionLine : String :=
  "\x7b\"pubkey\":" ++ "\"5/FioQvsVZr+oZXk3OhLaVaNXSywlj60RsBoXisX8vA=\",\"record\":\x7b" ++
    "\"dst\":\"ai-memory/audit-restore-sanction/v1\",\"gap\":2,\"new_head\":1,\"old_head\":3," ++
    "\"timestamp\":1800000100,\"v\":1\x7d,\"sig\":" ++
    "\"R6SRxA5j6b+xJdd+3fqw6IlwyCSO3i8e65IRt6SnMS4LF9Z3kbxig2eXJOCNM+h9iAeadMy2XAHUzjQgCgXkBw==\"\x7d"

/-- The texts of the samples are written, and the tables that read them follow. -/
def sampleWriting : Serde where
  resolutionToString := resolutionText
  resolutionFromStr text := [thirdWire, secondWire].find? fun wire => resolutionText wire = text
  checkpointToString := checkpointText
  checkpointFromStr _ := none
  valueToString _ := sanctionLine
  valueFromStr _ := none
  sanctionToValue := sanctionJson
  sanctionFromValue := sanctionFrom
  sanctionToVec wire := utf8 (sanctionText wire)

def writing : Environment where
  checkpoints := { writerOnly with
    intoWriter := wideWriter
    verifyingKeyFromBytes := fun key => if key = aliceKey then some witnessSigningKey.verifyingKey else none }
  serde := sampleWriting

def sampleAnchor (head : Int) (emission : Emission) (signature : SignatureBytes) : Checkpoint :=
  { unsignedWitnessCheckpoint writing emission.id (emission.dual head) (some (rollbackCounterFor head))
      emission.now with
    signature := signature.1
    resolverPubkey := aliceKey.1 }

def thirdAnchor : Checkpoint := sampleAnchor 3 thirdEmission thirdSignature

def secondAnchor : Checkpoint := sampleAnchor 2 secondEmission secondSignature

def sampleSanction : Json := signedSanction writing operatorSigningKey (restoreRecord 3 1 1800000100)

def rollbackEnvironment : Environment :=
  { writing with
    serde := { sampleWriting with
      checkpointFromStr := fun text => [thirdAnchor, secondAnchor].find? fun cp => checkpointText cp = text
      valueFromStr := fun text => if text = sanctionLine then some sampleSanction else none } }

theorem rollbackEnvironment_decodes :
    rollbackEnvironment.checkpoints.verifyingKeyFromBytes sampleCustody.witness.verifyingKey.toBytes =
      some sampleCustody.witness.verifyingKey := by
  show (if aliceKey = aliceKey then some witnessSigningKey.verifyingKey else none) = _
  exact if_pos rfl

theorem emit_third : emit rollbackEnvironment sampleCustody 3 thirdEmission = some thirdAnchor := by
  decide +kernel

theorem emit_second : emit rollbackEnvironment sampleCustody 2 secondEmission = some secondAnchor := by
  decide +kernel

theorem checkpointText_inked (cp : Checkpoint) : blank (checkpointText cp) = false := by
  have brace : blank "\x7b\"id\":" = false := by decide +kernel
  simp only [checkpointText, blank_append, brace, Bool.false_and]

theorem checkpointText_differs : checkpointText thirdAnchor ≠ checkpointText secondAnchor := by decide +kernel

theorem resolutionText_differs : resolutionText thirdWire ≠ resolutionText secondWire := by decide +kernel

theorem rollbackEnvironment_checkpoint (cp : Checkpoint) :
    rollbackEnvironment.serde.checkpointFromStr (rollbackEnvironment.serde.checkpointToString cp) =
      [thirdAnchor, secondAnchor].find? fun held => checkpointText held = checkpointText cp := rfl

theorem rollbackEnvironment_resolution (wire : WitnessResolutionWire) :
    rollbackEnvironment.serde.resolutionFromStr (rollbackEnvironment.serde.resolutionToString wire) =
      [thirdWire, secondWire].find? fun held => resolutionText held = resolutionText wire := rfl

theorem thirdAnchor_reads : CheckpointReads rollbackEnvironment thirdAnchor thirdWire where
  checkpoint := by simp [rollbackEnvironment_checkpoint]
  resolution := by simp [rollbackEnvironment_resolution]
  text := checkpointText_inked thirdAnchor

theorem secondAnchor_reads : CheckpointReads rollbackEnvironment secondAnchor secondWire where
  checkpoint := by simp [rollbackEnvironment_checkpoint, checkpointText_differs]
  resolution := by simp [rollbackEnvironment_resolution, resolutionText_differs]
  text := checkpointText_inked secondAnchor

theorem sanctionLine_inked : blank sanctionLine = false := by
  have key : blank "\x7b\"pubkey\":" = false := by decide +kernel
  simp only [sanctionLine, blank_append, key, Bool.false_and]

theorem sampleSanction_reads :
    SanctionReads rollbackEnvironment operatorSigningKey (restoreRecord 3 1 1800000100) where
  value := by
    show (if sanctionLine = sanctionLine then some sampleSanction else none) = some sampleSanction
    exact if_pos rfl
  wire := by
    show sanctionFrom (sanctionJson (restoreRecord 3 1 1800000100)) = _
    simp [sanctionFrom, sanctionJson, numberJson, asNumber, restoreRecord, restoreSanctionVersion,
      Json.insert, Json.empty, Json.asStr, saturatingSub, i64Min, i64Max]
  text := sanctionLine_inked

instance (host : Host) : (turn : Turn) → Decidable (Careful host turn)
  | .append => inferInstanceAs (Decidable ((∃ head ∈ host.history.owed, _) → ¬_))
  | .restore _ => inferInstanceAs (Decidable ((∃ head ∈ _ ++ _, _) → ¬_))
  | .restoreAttest _ => inferInstanceAs (Decidable (_ = _))
  | .anchor _ => .isTrue trivial

def climb : List Turn := [.append, .append, .append, .anchor thirdEmission]

def attestedFall : List Turn := [.restore 1, .restoreAttest 1800000100, .append, .anchor secondEmission]

def climbed : Host :=
  ⟨3, appendHeadAnchor rollbackEnvironment none thirdAnchor, none, ⟨[3], [3], [3], [], [], []⟩⟩

def attested : Host :=
  (({ climbed with head := 1, history := climbed.history.restore 1 } : Host).next rollbackEnvironment
    sampleCustody (.restoreAttest 1800000100))

def regrown : Host := { attested with head := 2, history := attested.history.reach 2 }

def reanchored : Host :=
  { regrown with
    headAnchors := appendHeadAnchor rollbackEnvironment regrown.headAnchors secondAnchor
    history := regrown.history.anchor 2 }

abbrev sampleNext : Host → Turn → Host := Host.next rollbackEnvironment sampleCustody

theorem run_climb : run sampleNext (Host.start 0) climb = climbed := by
  have last : sampleNext (Host.start 3) (.anchor thirdEmission) = climbed :=
    next_anchor emit_third
  exact last

theorem run_attestedFall : run sampleNext climbed attestedFall = reanchored := by
  have last : sampleNext regrown (.anchor secondEmission) = reanchored := next_anchor emit_second
  exact last

theorem climb_reads :
    EveryStep sampleNext (Reads rollbackEnvironment sampleCustody) (Host.start 0) climb := by
  refine ⟨trivial, trivial, trivial, ?_, trivial⟩
  intro cp emitted
  obtain rfl : thirdAnchor = cp := Option.some.inj (emit_third.symm.trans emitted)
  exact thirdAnchor_reads

theorem attestedFall_reads :
    EveryStep sampleNext (Reads rollbackEnvironment sampleCustody) climbed attestedFall := by
  refine ⟨trivial, ?_, trivial, ?_, trivial⟩
  · intro mark highest _
    obtain rfl : 3 = mark := Option.some.inj highest
    exact sampleSanction_reads
  · intro cp emitted
    obtain rfl : secondAnchor = cp := Option.some.inj (emit_second.symm.trans emitted)
    exact secondAnchor_reads

/-- The sanction of the first restore clears a second one that nobody attested. -/
theorem secondFall_cleared :
    ¬(run sampleNext (Host.start 0) (climb ++ attestedFall ++ [.restore 1])).Reported rollbackEnvironment
        sampleCustody ∧
      (run sampleNext (Host.start 0) (climb ++ attestedFall ++ [.restore 1])).verdict rollbackEnvironment
        sampleCustody = .sanctioned 3 1 := by
  have reads : EveryStep sampleNext (Reads rollbackEnvironment sampleCustody) (Host.start 0)
      (climb ++ attestedFall ++ [.restore 1]) := by
    rw [EveryStep.append_iff, EveryStep.append_iff, run_climb]
    exact ⟨⟨climb_reads, attestedFall_reads⟩, trivial, trivial⟩
  have sound := run_invariant
    (fun _ _ reads sound => Sound.next sound rollbackEnvironment_decodes reads) reads (sound_start 0)
  rw [run_append, run_append, run_climb, run_attestedFall] at sound ⊢
  have verdict := sound.verdict_below (show (reanchored.history.restore 1).highest = some 3 from rfl)
    (by decide)
  rw [if_pos (by decide)] at verdict
  refine ⟨fun reported => ?_, verdict⟩
  obtain ⟨mark, _, evidence⟩ := reported 2 (by decide)
  rw [verdict] at evidence
  cases evidence

/-- A fall that nobody attested is reported. -/
theorem climbedFall_reported :
    (run sampleNext (Host.start 0) (climb ++ [.restore 1])).Reported rollbackEnvironment sampleCustody := by
  refine (rollbacks_reported rollbackEnvironment sampleCustody 0 (climb ++ [.restore 1])
    rollbackEnvironment_decodes ?_).mp ?_ (climb ++ [.restore 1]) [] (List.append_nil _).symm
  · rw [EveryStep.append_iff]
    exact ⟨climb_reads, trivial, trivial⟩
  · rw [EveryStep.append_iff, run_climb]
    refine ⟨⟨?_, ?_, ?_, trivial, trivial⟩, ?_⟩ <;> decide

end Samples
end AiMemory.Witness
