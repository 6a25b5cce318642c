import AiMemory.Checkpoints.Resolution
import AiMemory.Library.Run
import AiMemory.Lineage.WitnessBinding

/-
This file proves when the first resolution of a checkpoint wins.
-/

namespace AiMemory.Checkpoints
open AiMemory.Machine AiMemory.Library AiMemory.Lineage

inductive Call where
  | insert (cp : Checkpoint)
  | resolve (call : Resolution)
  | applyInboundResolution (incoming : Checkpoint)

/-- The checkpoint with the columns that a resolution writes. -/
def Checkpoint.resolved (cp : Checkpoint) (tuple : ResolutionTuple) (note : Option String) : Checkpoint :=
  { cp with
    state := tuple.state
    resolvedBy := tuple.resolvedBy
    resolution := tuple.resolution
    resolutionNote := note
    resolvedAt := tuple.resolvedAt }

section Calls

variable (env : Environment)

/-- The signature and the key that a resolution writes, when its pair can sign. -/
def Resolution.attestation (call : Resolution) (cp : Checkpoint) : Option (Bytes × Bytes) :=
  call.keypair.bind fun keypair =>
    (signCheckpointResolution env keypair
      (resolutionSignable (cp.resolved call.tuple call.resolutionNote))).map
      fun signature => (signature, keypair.publicKey.1)

/-- The checkpoint that a resolution leaves. -/
def Resolution.outcome (call : Resolution) (cp : Checkpoint) : Checkpoint :=
  let resolved := cp.resolved call.tuple call.resolutionNote
  match call.attestation env cp with
  | none => resolved
  | some (signature, resolverPubkey) => { resolved with signature, resolverPubkey }

def Call.apply (table : CheckpointTable) : Call → CheckpointTable
  | .insert cp => (Checkpoints.insert table cp).1
  | .resolve call => (Checkpoints.resolve env table call).1
  | .applyInboundResolution incoming => (Checkpoints.applyInboundResolution table incoming).1

/-- The call writes the signature column of the id. -/
def Call.writesSignature (table : CheckpointTable) (id : String) : Call → Bool
  | .insert cp => cp.id = id ∧ get table id = none
  | .resolve call => call.id = id ∧ ((get table id).any fun cp => (call.attestation env cp).isSome) = true
  | .applyInboundResolution incoming =>
      incoming.id = id ∧ (Checkpoints.applyInboundResolution table incoming).2 = .applied

/-- The table with the verdict on each row when its signature was written, which no call reads. -/
structure Store where
  table : CheckpointTable
  attested : String → Bool

def Store.ofTable (table : CheckpointTable) : Store := ⟨table, fun id => (get table id).any (verify env)⟩

def Store.next (store : Store) (call : Call) : Store :=
  let table := call.apply env store.table
  { table
    attested := fun id =>
      if call.writesSignature env store.table id = true then (get table id).any (verify env)
      else store.attested id }

/-- A checkpoint that has left pending keeps its tuple, and a signature that has verified verifies. -/
structure FirstResolutionWins (id : String) (start : CheckpointTable) (calls : List Call) : Prop where
  tuple : ∀ first second, calls = first ++ second →
    ∀ cp ∈ get (run (Store.next env) (Store.ofTable env start) first).table id, cp.state ≠ .pending →
      ∃ later ∈ get (run (Store.next env) (Store.ofTable env start) calls).table id,
        later.tuple = cp.tuple
  signature : ∀ cp ∈ get (run (Store.next env) (Store.ofTable env start) calls).table id,
    cp.signature ≠ [] → (run (Store.next env) (Store.ofTable env start) calls).attested id = true →
      verify env cp = true

/-- A resolution repeats the tuple of the checkpoint, or it resolves a pending checkpoint and leaves no
signature of an earlier tuple behind. -/
def Resolution.Fits (call : Resolution) (cp : Checkpoint) : Prop :=
  cp.tuple = call.tuple ∨
    cp.state = .pending ∧ (verify env cp = false ∨ (call.attestation env cp).isSome = true)

/-- The call resolves the checkpoint only when it fits. -/
def ResolvesOnce (id : String) (store : Store) : Call → Prop
  | .resolve call => call.id = id → ∀ cp ∈ get store.table id, call.Fits env cp
  | _ => True

end Calls

section Columns

@[simp] theorem rowToCheckpoint_toRow (cp : Checkpoint) : rowToCheckpoint cp.toRow = cp := by
  simp [rowToCheckpoint, Checkpoint.toRow, CheckpointOf.mapState]

@[simp] theorem rowToCheckpoint_resolved (row : CheckpointRow) (tuple : ResolutionTuple)
    (note : Option String) :
    rowToCheckpoint (row.resolved tuple note) = (rowToCheckpoint row).resolved tuple note := by
  simp [rowToCheckpoint, CheckpointRow.resolved, Checkpoint.resolved, CheckpointOf.mapState]

@[simp] theorem rowToCheckpoint_signed (row : CheckpointRow) (signature resolverPubkey : Bytes) :
    rowToCheckpoint (row.signed signature resolverPubkey) =
      { rowToCheckpoint row with signature, resolverPubkey } := rfl

/-- An update changes the checkpoint of its own key only. -/
theorem get_updateRow (table : CheckpointTable) (key id : String) (change : CheckpointRow → CheckpointRow)
    (keeps : ∀ row, (change row).id = row.id) :
    get (updateRow table key change keeps) id =
      if id = key then (table.lookup id).map fun row => rowToCheckpoint (change row)
      else get table id := by
  rw [get, updateRow, Table.lookup_modify]
  cases found : table.lookup id with
  | none => simp [get, found]
  | some row =>
      have here := Table.key_of_lookup found
      by_cases same : id = key <;> simp [get, found, here, same]

/-- An upsert makes its checkpoint the stored one. -/
theorem get_upsert (table : CheckpointTable) (cp : Checkpoint) (id : String) :
    get (table.upsert cp.toRow) id = if id = cp.id then some cp else get table id := by
  rw [get, Table.lookup_upsert]
  by_cases same : id = cp.id
  · rw [if_pos same, if_pos (show id = cp.toRow.id from same), Option.map_some, rowToCheckpoint_toRow]
  · rw [if_neg same, if_neg (show id ≠ cp.toRow.id from same), get]

/-- An insertion keeps a checkpoint that is already stored. -/
theorem get_insert (table : CheckpointTable) (cp : Checkpoint) (id : String) :
    get (insert table cp).1 id = if id = cp.id then (get table id).or (some cp) else get table id := by
  unfold insert
  split
  · rename_i stored
    split
    · rename_i same
      subst same
      obtain ⟨row, found⟩ := Option.isSome_iff_exists.mp stored
      simp [get, found]
    · rfl
  · rename_i absent
    rw [get_upsert]
    split
    · rename_i same
      subst same
      simp [get, Option.not_isSome_iff_eq_none.mp absent]
    · rfl

/-- The first statement of a resolution writes the resolution columns alone. -/
theorem get_resolvedColumns (table : CheckpointTable) (call : Resolution) (id : String) :
    get (updateRow table call.id (fun row => row.resolved call.tuple call.resolutionNote)
        (CheckpointRow.id_resolved call.tuple call.resolutionNote)) id =
      if id = call.id then
        (get table id).map fun cp => cp.resolved call.tuple call.resolutionNote
      else get table id := by
  rw [get_updateRow]
  simp only [get, Option.map_map, rowToCheckpoint_resolved]
  rfl

/-- The second statement of a resolution writes the signature columns alone. -/
theorem get_signedColumns (table : CheckpointTable) (key id : String) (signature resolverPubkey : Bytes) :
    get (updateRow table key (fun row => row.signed signature resolverPubkey)
        (CheckpointRow.id_signed signature resolverPubkey)) id =
      if id = key then
        (get table id).map fun cp : Checkpoint => { cp with signature, resolverPubkey }
      else get table id := by
  rw [get_updateRow]
  simp only [get, Option.map_map, rowToCheckpoint_signed]
  rfl

/-- A resolution changes the checkpoint with its id and no other. -/
theorem get_resolve (env : Environment) (table : CheckpointTable) (call : Resolution) (id : String) :
    get (resolve env table call).1 id =
      if id = call.id then (get table id).map (call.outcome env) else get table id := by
  have columns := get_resolvedColumns table call
  unfold resolve
  simp only
  generalize updateRow table call.id (fun row => row.resolved call.tuple call.resolutionNote)
    (CheckpointRow.id_resolved call.tuple call.resolutionNote) = resolved at columns ⊢
  have own := columns call.id
  rw [if_pos rfl] at own
  cases found : get table call.id with
  | none =>
      rw [found, Option.map_none] at own
      simp only [own, columns]
      by_cases same : id = call.id
      · simp [same, found]
      · simp [same]
  | some cp =>
      rw [found, Option.map_some] at own
      have unsigned (none : call.attestation env cp = none) :
          get resolved id = if id = call.id then (get table id).map (call.outcome env)
            else get table id := by
        rw [columns]
        by_cases same : id = call.id
        · simp [same, found, Resolution.outcome, none]
        · simp [same]
      simp only [own]
      cases pair : call.keypair with
      | none => exact unsigned (by simp [Resolution.attestation, pair])
      | some keypair =>
          simp only
          split
          · cases signed : signCheckpointResolution env keypair
              (resolutionSignable (cp.resolved call.tuple call.resolutionNote)) with
            | none => exact unsigned (by simp [Resolution.attestation, pair, signed])
            | some signature =>
                simp only [get_signedColumns, columns]
                by_cases same : id = call.id
                · simp [same, found, Resolution.outcome, Resolution.attestation, pair, signed]
                · simp [same]
          · rename_i verifyOnly
            have silent : keypair.privateKey = none := by simpa using verifyOnly
            exact unsigned (by simp [Resolution.attestation, pair, signCheckpointResolution, silent])

/-- An inbound resolution inserts its checkpoint or resolves a pending one. -/
theorem get_applyInboundResolution (table : CheckpointTable) (incoming : Checkpoint) (id : String) :
    get (applyInboundResolution table incoming).1 id =
      if id = incoming.id then
        some (((get table id).map fun stored : Checkpoint =>
          if stored.state = .pending then
            { stored.resolved incoming.tuple incoming.resolutionNote with
              signature := incoming.signature, resolverPubkey := incoming.resolverPubkey }
          else stored).getD incoming)
      else get table id := by
  unfold applyInboundResolution
  split
  · rename_i absent
    rw [get_upsert]
    by_cases same : id = incoming.id
    · simp [same, absent]
    · simp [same]
  · rename_i stored found
    split
    · rename_i pending
      rw [get_updateRow]
      by_cases same : id = incoming.id
      · subst same
        obtain ⟨row, present, rfl⟩ := Option.map_eq_some_iff.mp found
        simp [get, present, pending]
      · simp [same]
    · rename_i left
      have kept : get table id = if id = incoming.id then
          some (((get table id).map fun stored : Checkpoint =>
            if stored.state = .pending then
              { stored.resolved incoming.tuple incoming.resolutionNote with
                signature := incoming.signature, resolverPubkey := incoming.resolverPubkey }
            else stored).getD incoming)
          else get table id := by
        by_cases same : id = incoming.id
        · simp [same, found, left]
        · simp [same]
      split <;> exact kept

end Columns

section Step

variable {env : Environment} {id : String} {store : Store} {call : Call}

/-- A resolution leaves its own tuple. -/
theorem tuple_outcome (call : Resolution) (cp : Checkpoint) : (call.outcome env cp).tuple = call.tuple := by
  unfold Resolution.outcome
  simp only
  split <;> rfl

/-- Resolving a checkpoint to its own tuple keeps the verdict on its signature. -/
theorem verify_resolved_self {cp : Checkpoint} {tuple : ResolutionTuple} (same : cp.tuple = tuple)
    (note : Option String) : verify env (cp.resolved tuple note) = verify env cp := by
  subst same
  rfl

/-- A checkpoint that has left pending keeps its tuple in a step that resolves once. -/
theorem tuple_kept (once : ResolvesOnce env id store call) {cp : Checkpoint}
    (found : get store.table id = some cp) (left : cp.state ≠ .pending) :
    ∃ later ∈ get (store.next env call).table id, later.tuple = cp.tuple := by
  cases call with
  | insert new =>
      refine ⟨cp, ?_, rfl⟩
      rw [Store.next, Call.apply, get_insert, found]
      simp
  | resolve call =>
      rw [Store.next, Call.apply, get_resolve, found]
      by_cases same : id = call.id
      · rw [if_pos same]
        refine ⟨call.outcome env cp, rfl, ?_⟩
        rw [tuple_outcome]
        rcases once same.symm cp found with repeats | ⟨pending, _⟩
        · exact repeats.symm
        · exact absurd pending left
      · exact ⟨cp, by simp [same], rfl⟩
  | applyInboundResolution incoming =>
      refine ⟨cp, ?_, rfl⟩
      rw [Store.next, Call.apply, get_applyInboundResolution, found]
      simp [left]

/-- Every checkpoint whose signature verified when it was written verifies. -/
def Store.Sound (env : Environment) (id : String) (store : Store) : Prop :=
  store.attested id = true → (get store.table id).any (verify env) = true

/-- A step that resolves once and writes no signature keeps a verdict that holds. -/
theorem verified_kept (once : ResolvesOnce env id store call)
    (unsigned : call.writesSignature env store.table id = false)
    (verified : (get store.table id).any (verify env) = true) :
    (get (call.apply env store.table) id).any (verify env) = true := by
  obtain ⟨cp, found, valid⟩ := (Option.any_eq_true _ _).mp verified
  cases call with
  | insert new =>
      rw [Call.apply, get_insert, found]
      simp [valid]
  | resolve call =>
      rw [Call.apply, get_resolve, found]
      by_cases same : id = call.id
      · subst same
        have silent : call.attestation env cp = none := by
          simpa [Call.writesSignature, found] using unsigned
        have outcome : call.outcome env cp = cp.resolved call.tuple call.resolutionNote := by
          rw [Resolution.outcome, silent]
        rw [if_pos rfl, Option.map_some, Option.any_some, outcome]
        rcases once rfl cp found with repeats | ⟨_, invalid | attests⟩
        · rw [verify_resolved_self repeats, valid]
        · rw [valid] at invalid
          cases invalid
        · rw [silent] at attests
          cases attests
      · simp [same, valid]
  | applyInboundResolution incoming =>
      rw [Call.apply, get_applyInboundResolution, found]
      by_cases same : id = incoming.id
      · subst same
        have left : cp.state ≠ .pending := by
          intro pending
          simp [Call.writesSignature, applyInboundResolution, found, pending] at unsigned
        simp [left, valid]
      · simp [same, valid]

/-- One step that resolves once keeps the verdicts. -/
theorem sound_kept (once : ResolvesOnce env id store call) (sound : store.Sound env id) :
    (store.next env call).Sound env id := by
  intro attested
  by_cases writes : call.writesSignature env store.table id = true
  · simpa [Store.next, writes] using attested
  · have kept : store.attested id = true := by simpa [Store.next, writes] using attested
    exact verified_kept once (by simpa using writes) (sound kept)

end Step

/-- The first resolution wins in every run that resolves each checkpoint once. -/
theorem firstResolution_wins (env : Environment) (id : String) (start : CheckpointTable)
    (calls : List Call)
    (once : EveryStep (Store.next env) (ResolvesOnce env id) (Store.ofTable env start) calls) :
    FirstResolutionWins env id start calls where
  tuple := by
    rintro first second rfl cp found left
    have kept : ∀ store call, ResolvesOnce env id store call →
        (∃ later ∈ get store.table id, later.tuple = cp.tuple) →
        ∃ later ∈ get (store.next env call).table id, later.tuple = cp.tuple := by
      rintro store call once ⟨later, present, same⟩
      have laterLeft : later.state ≠ .pending := by
        rw [show later.state = cp.state from congrArg ResolutionTuple.state same]
        exact left
      obtain ⟨next, nextPresent, nextSame⟩ := tuple_kept once present laterLeft
      exact ⟨next, nextPresent, nextSame.trans same⟩
    rw [run_append]
    exact run_invariant kept (EveryStep.append_iff.mp once).2 ⟨cp, found, rfl⟩
  signature := by
    intro cp found _ attested
    have sound := run_invariant (fun store call => sound_kept) once fun start => start
    have valid := sound attested
    rw [Option.mem_def.mp found] at valid
    simpa using valid

section Samples

instance (env : Environment) (call : Resolution) (cp : Checkpoint) : Decidable (call.Fits env cp) :=
  inferInstanceAs (Decidable (_ = _ ∨ _ = _ ∧ (_ = _ ∨ _ = _)))

instance (env : Environment) (id : String) (store : Store) :
    (call : Call) → Decidable (ResolvesOnce env id store call)
  | .resolve call => inferInstanceAs (Decidable (_ → ∀ cp ∈ get store.table id, call.Fits env cp))
  | .insert _ | .applyInboundResolution _ => .isTrue trivial

def pendingCheckpoint : Checkpoint where
  id := "c1"
  «namespace» := "_cp"
  title := "needs approval"
  conditionType := "approval"
  condition := "{}"
  state := .pending
  createdBy := "ai:creator"
  resolvedBy := none
  resolution := none
  resolutionNote := none
  signature := []
  resolverPubkey := []
  createdAt := 10
  deadlineAt := none
  resolvedAt := none
  metadata := "{}"

def approvalSignature : SignatureBytes :=
  ⟨beBytes 32 0xa43d649f07b4c6ea8e1d3bd0d3b088440a7c6a7d12d03b6c0273ca9f1196ef51 ++
    beBytes 32 0xa5667009831aee0087b7d537b5133988c7ed7fe48d575ce72e838ff0e59d790e, by decide⟩

def approvalBytes : Bytes :=
  (canonicalCborCheckpointResolution writerOnly
    ⟨"c1", "_cp", "resolved", "ai:alice", some "approved", 90⟩).getD []

/-- The environment knows the key that approves the sample. -/
def approvalEnvironment : Environment :=
  { writerOnly with
    verifyingKeyFromBytes := fun key =>
      some {
        toBytes := key
        verifyStrict := fun message signature =>
          key = aliceKey ∧ message = approvalBytes ∧ signature = approvalSignature } }

def approval : Resolution where
  id := "c1"
  state := .resolved
  resolvedBy := "ai:alice"
  resolution := some "approved"
  resolutionNote := none
  resolvedAt := 90
  keypair := some ⟨"ai:alice", aliceKey, some fun _ => approvalSignature⟩

def laterRejection : Resolution where
  id := "c1"
  state := .rejected
  resolvedBy := "ai:bob"
  resolution := none
  resolutionNote := none
  resolvedAt := 91
  keypair := none

/-- The approval wins over inbound resolutions that agree or differ. -/
theorem approval_wins : FirstResolutionWins approvalEnvironment "c1" .empty
    [.insert pendingCheckpoint, .resolve approval,
      .applyInboundResolution (pendingCheckpoint.resolved approval.tuple none),
      .applyInboundResolution (pendingCheckpoint.resolved laterRejection.tuple none)] :=
  firstResolution_wins approvalEnvironment "c1" .empty _ (by decide +kernel)

def rejectedCalls : List Call :=
  [.insert pendingCheckpoint, .resolve approval, .resolve laterRejection]

/-- A second resolution overwrites the first and leaves its signature behind. -/
theorem laterRejection_overwrites :
    ¬ FirstResolutionWins approvalEnvironment "c1" .empty rejectedCalls ∧
      ∃ final, run (Store.next approvalEnvironment) (Store.ofTable approvalEnvironment .empty)
          rejectedCalls = final ∧
        final.attested "c1" = true ∧ ∃ cp ∈ get final.table "c1",
          cp.signature ≠ [] ∧ cp.state = .rejected ∧ verify approvalEnvironment cp = false := by
  have first : (get (run (Store.next approvalEnvironment) (Store.ofTable approvalEnvironment .empty)
      (rejectedCalls.take 2)).table "c1").map CheckpointOf.state = some .resolved := by decide +kernel
  have last : (get (run (Store.next approvalEnvironment) (Store.ofTable approvalEnvironment .empty)
      rejectedCalls).table "c1").any (fun cp => cp.signature ≠ [] ∧ cp.state = .rejected ∧
        verify approvalEnvironment cp = false) = true := by decide +kernel
  obtain ⟨approved, present, resolved⟩ := Option.map_eq_some_iff.mp first
  obtain ⟨rejected, stored, overwritten⟩ := (Option.any_eq_true _ _).mp last
  obtain ⟨signed, state, invalid⟩ := of_decide_eq_true overwritten
  refine ⟨fun wins => ?_, _, rfl, by decide +kernel, rejected, stored, signed, state, invalid⟩
  obtain ⟨later, found, same⟩ := wins.tuple (rejectedCalls.take 2) (rejectedCalls.drop 2) rfl approved
    present (by rw [resolved]; decide)
  obtain rfl := Option.some.inj (stored.symm.trans found)
  have states : rejected.state = approved.state := congrArg ResolutionTuple.state same
  rw [state, resolved] at states
  cases states

end Samples
end AiMemory.Checkpoints
