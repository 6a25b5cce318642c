import AiMemory.Storage.Deliveries

/-
This file decides when two nodes that deliver their live rows to each other end with the same rows.
-/

namespace AiMemory.Storage
open AiMemory.Crdt AiMemory.Library AiMemory.Machine

section Twins

/-- Two copies of a row show the same columns, and have one time and one tier. -/
structure Twin (first second : Memory) : Prop where
  time : first.updatedAt = second.updatedAt
  tier : first.tier = second.tier
  columns : visible first = visible second
  tags : ∀ tag, tag ∈ first.tags ↔ tag ∈ second.tags

/-- A copy covers another one that can bring it nothing new. -/
structure Covers (copy row : Memory) : Prop where
  time : row.updatedAt ≤ copy.updatedAt
  tier : row.tier.rank ≤ copy.tier.rank
  columns : row.updatedAt = copy.updatedAt → visible row = visible copy
  tags : ∀ tag ∈ row.tags, tag ∈ copy.tags

theorem Twin.symm {first second : Memory} (twin : Twin first second) : Twin second first :=
  ⟨twin.time.symm, twin.tier.symm, twin.columns.symm, fun tag => (twin.tags tag).symm⟩

theorem Twin.covers {first second : Memory} (twin : Twin first second) : Covers first second :=
  ⟨twin.time.ge, (congrArg Tier.rank twin.tier).ge, fun _ => twin.columns.symm, fun tag => (twin.tags tag).mpr⟩

variable {env : Environment} {now : env.chrono.Instant} {row held : Memory}

/-- The merged tier is the more durable one. -/
theorem rank_mergeTier (first second : Tier) : (mergeTier first second).rank = max first.rank second.rank := by
  cases first <;> cases second <;> rfl

/-- What lands covers what was delivered. -/
theorem covers_landed {held : Option Memory} (sameId : ∀ copy ∈ held, row.id = copy.id)
    (unmasked : held = none → Unmasked env.redactForStorage row)
    (agree : ∀ copy ∈ held, copy.updatedAt = row.updatedAt → visible copy = visible row) :
    Covers (landed env now held row) row := by
  have columns (sameTime : row.updatedAt = (landed env now held row).updatedAt) :=
    (agree_landed sameId unmasked agree sameTime.symm).symm
  cases held with
  | none => exact ⟨le_refl _, le_refl _, columns, fun tag present => (unmasked rfl).2.2 ▸ present⟩
  | some copy =>
      refine ⟨?_, ?_, columns, fun tag present => (mem_tags_landed_some tag).mpr (.inr present)⟩
      · rw [updatedAt_landed_some]
        exact le_max_right _ _
      · rw [tier_landed_some, rank_mergeTier]
        exact le_max_right _ _

/-- A row that meets a copy which covers it becomes its twin. -/
theorem twin_landed (sameId : row.id = held.id) (covers : Covers row held) :
    Twin (landed env now (some held) row) row where
  time := by rw [updatedAt_landed_some, max_eq_right covers.time]
  tier := by
    apply rank_injective
    rw [tier_landed_some, rank_mergeTier, max_eq_right covers.tier]
  columns := by
    rw [visible_landed_some sameId]
    split_ifs with later
    · rfl
    · exact covers.columns (le_antisymm covers.time (not_lt.mp later))
  tags tag := by
    rw [mem_tags_landed_some]
    exact or_iff_right_of_imp (covers.tags tag)

/-- A row that lands as new is a twin of the delivered one. -/
theorem twin_landed_none (unmasked : Unmasked env.redactForStorage row) : Twin (landed env now none row) row where
  time := rfl
  tier := rfl
  columns := visible_landed_none unmasked
  tags tag := by
    have tags : (landed env now none row).tags = row.tags := unmasked.2.2
    rw [tags]

end Twins

section Mirror

/-- Every live row has a twin at the other node. -/
def Mirrored (replicas : Replicas) : Prop :=
  ∀ id node, ∀ row ∈ copies replicas id node, ∃ copy ∈ copies replicas id node.other, Twin row copy

/-- Twins are shown alike. -/
theorem shown_of_twin {row copy : Memory} (sameId : row.id = copy.id) (twin : Twin row copy) :
    shown row = shown copy := by
  have columns := twin.columns
  simp only [visible, Prod.mk.injEq] at columns
  have tags : row.tags.toFinset = copy.tags.toFinset := by
    ext tag
    rw [List.mem_toFinset, List.mem_toFinset]
    exact twin.tags tag
  simp only [shown, sameId, columns, tags]

/-- Mirrored nodes show the same rows. -/
theorem Mirrored.shownRows_subset {replicas : Replicas} (mirrored : Mirrored replicas) (node : Node) :
    shownRows (replicas node) ⊆ shownRows (replicas node.other) := by
  rintro columns ⟨row, present, rfl⟩
  have held : copies replicas row.id node = some row :=
    ((replicas node).memories.find_eq_some_iff _ _).mpr ⟨present, rfl⟩
  obtain ⟨copy, copyHeld, twin⟩ := mirrored row.id node row held
  obtain ⟨copyPresent, sameId⟩ := ((replicas node.other).memories.find_eq_some_iff _ _).mp copyHeld
  exact ⟨copy, copyPresent, (shown_of_twin sameId.symm twin).symm⟩

variable {env : Node → WriterEnvironment} {skewSecs : Int} {replicas : Replicas}

/-- A delivery between mirrored nodes always finds its place. -/
theorem Mirrored.apart (mirrored : Mirrored replicas) (sender : Node) (id : String)
    (now : (env sender.other).chrono.Instant) : Apart env replicas (.deliver sender id now) := by
  intro row stored
  have rowId := (((replicas sender).memories.find_eq_some_iff _ _).mp stored).2
  obtain ⟨copy, held, twin⟩ := mirrored id sender row stored
  have copyHeld : (replicas sender.other).memories.find id = some copy := held
  constructor
  · rw [Placeable, rowId, copyHeld]
    intro later
    exact absurd later (by rw [twin.time]; exact lt_irrefl _)
  · intro absent
    cases absent.symm.trans copyHeld

end Mirror

section Sweeps

variable {env : Node → WriterEnvironment} {skewSecs : Int} {clock : Nat → ExchangeClock env} {replicas : Replicas}

/-- No live row is ahead of a receiver at any time of the exchanges. -/
def Timed (env : Node → WriterEnvironment) (skewSecs : Int) (clock : Nat → ExchangeClock env) (replicas : Replicas) :
    Prop :=
  ∀ id node, ∀ row ∈ copies replicas id node, ∀ count receiver query,
    Timely (env receiver).chrono skewSecs (clock count receiver query) row.updatedAt

structure Ready (env : Node → WriterEnvironment) (skewSecs : Int) (clock : Nat → ExchangeClock env)
    (replicas : Replicas) : Prop where
  sound : Sound replicas
  timed : Timed env skewSecs clock replicas

/-- The step is a delivery at the time of some exchange. -/
def Clocked (clock : Nat → ExchangeClock env) (step : ReplicaStep env) : Prop :=
  ∃ count sender id, step = .deliver sender id (clock count sender.other id)

/-- The step concerns the row of one identifier. -/
def rowOf : ReplicaStep env → String
  | .insert _ row _ => row.id
  | .update _ id _ _ _ => id
  | .deliver _ id _ => id

/-- A delivery changes the receiver's copy of its row. -/
def delivered : ReplicaStep env → (Node → Option Memory) → Node → Option Memory
  | .deliver sender _ now, held =>
      Function.update held sender.other (land (env sender.other).toEnvironment now (held sender) (held sender.other))
  | _, held => held

/-- A landed row has the stamp of the row or of the copy. -/
theorem updatedAt_landed_cases {env : Environment} {now : env.chrono.Instant} (held : Option Memory) (row : Memory) :
    (landed env now held row).updatedAt = row.updatedAt ∨
      ∃ copy ∈ held, (landed env now held row).updatedAt = copy.updatedAt := by
  cases held with
  | none => exact .inl rfl
  | some copy =>
      rw [updatedAt_landed_some]
      rcases max_choice copy.updatedAt row.updatedAt with kept | taken
      · exact .inr ⟨copy, rfl, kept⟩
      · exact .inl taken

/-- A delivery of the exchanges lands, keeps the nodes ready and changes one copy. -/
theorem clocked_spec (hooks : ∀ node row, (env node).governancePreWrite row = none)
    (ready : Ready env skewSecs clock replicas) {step : ReplicaStep env} (apart : Apart env replicas step)
    (clocked : Clocked clock step) :
    Lands env skewSecs replicas step ∧ Ready env skewSecs clock (replicaStep env skewSecs replicas step) ∧
      ∀ query, copies (replicaStep env skewSecs replicas step) query =
        if query = rowOf step then delivered step (copies replicas query) else copies replicas query := by
  obtain ⟨count, sender, id, rfl⟩ := clocked
  have admitted : Admitted env skewSecs replicas (.deliver sender id (clock count sender.other id)) :=
    fun row stored => ready.timed id sender row stored count sender.other id
  obtain ⟨lands, sound, _, lookups⟩ := deliver_spec hooks ready.sound admitted apart
  have acts (query : String) : copies (replicaStep env skewSecs replicas
      (.deliver sender id (clock count sender.other id))) query =
        if query = id then delivered (.deliver sender id (clock count sender.other id)) (copies replicas query)
        else copies replicas query := by
    rw [lookups]
    split_ifs with isRow
    · rw [isRow]
      rfl
    · rfl
  refine ⟨lands, ⟨sound, fun query node row held => ?_⟩, acts⟩
  rw [acts] at held
  split_ifs at held with isRow
  · by_cases isReceiver : node = sender.other
    · rw [isReceiver, delivered, Function.update_self] at held
      cases sent : copies replicas query sender with
      | none =>
          rw [sent, land] at held
          exact ready.timed query sender.other row held
      | some original =>
          rw [sent, land] at held
          rw [← Option.some.inj (Option.mem_def.mp held)]
          rcases @updatedAt_landed_cases (env sender.other).toEnvironment (clock count sender.other id)
            (copies replicas query sender.other) original with same | ⟨copy, present, same⟩
          · rw [same]
            exact ready.timed query sender original sent
          · rw [same]
            exact ready.timed query sender.other copy present
    · rw [delivered, Function.update_of_ne isReceiver] at held
      exact ready.timed query node row held
  · exact ready.timed query node row held

/-- The steps of a sweep that meet the conditions run in ready states. -/
theorem every_ready (hooks : ∀ node row, (env node).governancePreWrite row = none)
    (ready : Ready env skewSecs clock replicas) {steps : List (ReplicaStep env)}
    (clocked : ∀ step ∈ steps, Clocked clock step)
    (every : EveryStep (replicaStep env skewSecs) (Apart env) replicas steps) :
    EveryStep (replicaStep env skewSecs)
      (fun state step => (Apart env state step ∧ Clocked clock step) ∧ Ready env skewSecs clock state) replicas steps :=
  (every.and_forall clocked).and_invariant (fun _ _ meets ready => (clocked_spec hooks ready meets.1 meets.2).2.1) ready

theorem clocked_deliveries (count : Nat) (sender : Node) (state : Replicas) :
    ∀ step ∈ deliveries (clock count) sender state, Clocked clock step := by
  intro step present
  obtain ⟨row, _, rfl⟩ := List.mem_map.mp present
  exact ⟨count, sender, row.id, rfl⟩

theorem clocked_exchange (count : Nat) (state : Replicas) :
    ∀ step ∈ exchange skewSecs (clock count) state, Clocked clock step := by
  intro step present
  rcases List.mem_append.mp present with there | back
  · exact clocked_deliveries count .first state step there
  · exact clocked_deliveries count .second _ step back

/-- No row is delivered twice in one direction. -/
theorem nodup_deliveries (count : Nat) (sender : Node) (state : Replicas) :
    ((deliveries (clock count) sender state).map rowOf).Nodup := by
  have ids : (deliveries (clock count) sender state).map rowOf = (state sender).memories.rows.map (·.id) := by
    rw [deliveries, List.map_map]
    rfl
  rw [ids]
  exact (state sender).memories.uniqueId

/-- A node that delivers all of its rows changes each copy of the receiver once. -/
theorem copies_deliveries (hooks : ∀ node row, (env node).governancePreWrite row = none)
    (ready : Ready env skewSecs clock replicas) {count : Nat} {sender : Node}
    (every : EveryStep (replicaStep env skewSecs) (Apart env) replicas (deliveries (clock count) sender replicas))
    (id : String) :
    copies (run (replicaStep env skewSecs) replicas (deliveries (clock count) sender replicas)) id =
        Function.update (copies replicas id) sender.other
          (land (env sender.other).toEnvironment (clock count sender.other id) (copies replicas id sender)
            (copies replicas id sender.other)) ∧
      ∀ row ∈ copies replicas id sender, copies replicas id sender.other = none →
        Unmasked (env sender.other).redactForStorage row := by
  have sweep := every_ready hooks ready (clocked_deliveries count sender replicas) every
  have acts (state : Replicas) (step : ReplicaStep env)
      (meets : (Apart env state step ∧ Clocked clock step) ∧ Ready env skewSecs clock state) :=
    (clocked_spec hooks meets.2 meets.1.1 meets.1.2).2.2
  cases held : copies replicas id sender with
  | none =>
      have unnamed : id ∉ (deliveries (clock count) sender replicas).map rowOf := by
        intro named
        obtain ⟨step, present, rfl⟩ := List.mem_map.mp named
        obtain ⟨row, live, rfl⟩ := List.mem_map.mp present
        exact ((replicas sender).memories.find_eq_none_iff _).mp held row live rfl
      rw [entry_sweep_of_notMem acts sweep unnamed, land, Function.update_eq_self]
      refine ⟨rfl, fun row present => ?_⟩
      cases present
  | some row =>
      obtain ⟨live, rowId⟩ := ((replicas sender).memories.find_eq_some_iff _ _).mp held
      have named : ReplicaStep.deliver sender row.id (clock count sender.other row.id) ∈
          deliveries (clock count) sender replicas := List.mem_map_of_mem live
      subst rowId
      have distinct := @nodup_deliveries env clock count sender replicas
      refine ⟨?_, fun other present absent => ?_⟩
      · have changed := entry_sweep_of_mem acts sweep distinct named
        rw [← held]
        exact changed
      · obtain ⟨before, meets, same⟩ := condition_sweep_of_mem acts sweep distinct named
        have sameCopies : copies before row.id = copies replicas row.id := same
        rw [← Option.some.inj present]
        apply (meets.1.1 row ((congrFun sameCopies sender).trans held)).2
        exact (congrFun sameCopies sender.other).trans absent

end Sweeps

section Exchanges

variable {env : Node → WriterEnvironment} {skewSecs : Int} {clock : Nat → ExchangeClock env} {replicas : Replicas}
  {count : Nat}

/-- The second node lands the first copy, and the first node lands the outcome of that. -/
structure Exchanged (env : Node → WriterEnvironment) (clock : Nat → ExchangeClock env) (count : Nat) (id : String)
    (before after : Node → Option Memory) : Prop where
  there : after .second =
    land (env .second).toEnvironment (clock count .second id) (before .first) (before .second)
  back : after .first = land (env .first).toEnvironment (clock count .first id) (after .second) (before .first)
  unmaskedThere : ∀ row ∈ before .first, before .second = none → Unmasked (env .second).redactForStorage row
  unmaskedBack : ∀ row ∈ after .second, before .first = none → Unmasked (env .first).redactForStorage row

/-- An exchange over apart copies lands each row on both sides. -/
theorem exchanged (hooks : ∀ node row, (env node).governancePreWrite row = none)
    (ready : Ready env skewSecs clock replicas)
    (every : EveryStep (replicaStep env skewSecs) (Apart env) replicas (exchange skewSecs (clock count) replicas))
    (id : String) : Exchanged env clock count id (copies replicas id)
      (copies (run (replicaStep env skewSecs) replicas (exchange skewSecs (clock count) replicas)) id) := by
  obtain ⟨first, second⟩ := EveryStep.append_iff.mp every
  have middle : Ready env skewSecs clock
      (run (replicaStep env skewSecs) replicas (deliveries (clock count) .first replicas)) :=
    run_invariant (fun _ _ meets _ => (clocked_spec hooks meets.2 meets.1.1 meets.1.2).2.1)
      (every_ready hooks ready (clocked_deliveries count .first replicas) first) ready
  obtain ⟨there, unmaskedThere⟩ := copies_deliveries hooks ready first id
  obtain ⟨back, unmaskedBack⟩ := copies_deliveries hooks middle second id
  have atSecond := congrFun there .second
  have atFirst := congrFun there .first
  simp only [Node.other, Function.update_self] at atSecond
  rw [Node.other, Function.update_of_ne (by decide)] at atFirst
  rw [exchange, run_append, back]
  refine ⟨?_, ?_, unmaskedThere, fun row held absent => ?_⟩
  · exact (Function.update_of_ne (by decide) _ _).trans atSecond
  · rw [Node.other, Function.update_self, Function.update_of_ne (by decide), atFirst]
  · rw [Function.update_of_ne (by decide)] at held
    exact unmaskedBack row held (atFirst.trans absent)

/-- After an exchange no node has the row, or both have twins of it that landed in the exchange. -/
theorem Exchanged.twins {id : String} {before after : Node → Option Memory}
    (exchanged : Exchanged env clock count id before after)
    (sameId : ∀ node, ∀ row ∈ before node, row.id = id)
    (agree : ∀ copy ∈ before .second, ∀ row ∈ before .first, copy.updatedAt = row.updatedAt →
      visible copy = visible row) :
    (after .first = none ∧ after .second = none) ∨
      ∃ row copy, after .first = some row ∧ after .second = some copy ∧ Twin row copy := by
  have there := exchanged.there
  have back := exchanged.back
  cases held : after .second with
  | none =>
      rw [held, land] at back
      rw [held] at there
      refine .inl ⟨?_, rfl⟩
      cases sent : before .first with
      | none => rw [back, sent]
      | some row => rw [sent, land] at there; cases there
  | some copy =>
      rw [held, land] at back
      refine .inr ⟨_, copy, back, rfl, ?_⟩
      cases sent : before .first with
      | none => exact twin_landed_none (exchanged.unmaskedBack copy held sent)
      | some row =>
          rw [held, sent, land] at there
          have rowId := sameId .first row sent
          have covers : Covers copy row := by
            rw [Option.some.inj there]
            refine covers_landed (fun other present => ?_) (exchanged.unmaskedThere row sent) fun other present => ?_
            · rw [rowId, sameId .second other present]
            · exact agree other present row sent
          refine twin_landed ?_ covers
          rw [rowId, Option.some.inj there]
          cases stored : before .second with
          | none => exact rowId
          | some other => exact sameId .second other stored

theorem eq_first_or_second (node : Node) : node = .first ∨ node = .second := by cases node <;> decide

/-- A full exchange mirrors the nodes. -/
theorem mirrored_exchange (hooks : ∀ node row, (env node).governancePreWrite row = none)
    (ready : Ready env skewSecs clock replicas)
    (every : EveryStep (replicaStep env skewSecs) (Apart env) replicas (exchange skewSecs (clock count) replicas)) :
    Mirrored (run (replicaStep env skewSecs) replicas (exchange skewSecs (clock count) replicas)) := by
  intro id node row held
  have twins := (exchanged hooks ready every id).twins (fun node row present => id_of_copies present)
    fun copy second row first sameTime => ready.sound.agree id .second copy second row first sameTime
  rcases twins with ⟨noFirst, noSecond⟩ | ⟨first, second, atFirst, atSecond, twin⟩
  · rcases eq_first_or_second node with rfl | rfl
    · cases noFirst.symm.trans held
    · cases noSecond.symm.trans held
  · rcases eq_first_or_second node with rfl | rfl
    · cases atFirst.symm.trans held
      exact ⟨second, atSecond, twin⟩
    · cases atSecond.symm.trans held
      exact ⟨first, atFirst, twin.symm⟩

/-- A delivery between mirrored nodes keeps them mirrored. -/
theorem Mirrored.deliver (mirrored : Mirrored replicas) {sender : Node} {id : String}
    {now : (env sender.other).chrono.Instant} {after : Replicas}
    (lookups : ∀ query, copies after query =
      if query = id then delivered (ReplicaStep.deliver sender id now) (copies replicas query)
      else copies replicas query) : Mirrored after := by
  intro query node row held
  rw [lookups] at held ⊢
  by_cases isRow : query = id
  · rw [if_pos isRow, delivered] at held ⊢
    cases sent : copies replicas query sender with
    | none =>
        rw [sent, land, Function.update_eq_self] at held
        rw [land, Function.update_eq_self]
        exact mirrored query node row held
    | some original =>
        obtain ⟨copy, received, twin⟩ := mirrored query sender original sent
        have sameId : original.id = copy.id := (id_of_copies sent).trans (id_of_copies received).symm
        rw [sent, Option.mem_def.mp received, land] at held
        rw [Option.mem_def.mp received, land]
        have lands := @twin_landed (env sender.other).toEnvironment now original copy sameId twin.covers
        rcases sender.eq_or_eq_other node with isSender | isReceiver
        · rw [isSender, Function.update_of_ne sender.other_ne.symm, sent] at held
          rw [isSender, Function.update_self]
          exact ⟨_, rfl, Option.some.inj held ▸ lands.symm⟩
        · rw [isReceiver, Function.update_self] at held
          rw [isReceiver, Node.other_other, Function.update_of_ne sender.other_ne.symm, sent]
          exact ⟨original, rfl, Option.some.inj held ▸ lands⟩
  · rw [if_neg isRow] at held ⊢
    exact mirrored query node row held

end Exchanges

section Rest

variable {env : Node → WriterEnvironment} {skewSecs : Int} {clock : Nat → ExchangeClock env} {replicas : Replicas}
  {count : Nat}

/-- Every live row needs no default life. -/
def AllFilled (replicas : Replicas) : Prop := ∀ id node, ∀ row ∈ copies replicas id node, Filled row

/-- Every live row already holds what the other node's copy could bring. -/
structure AtRest (replicas : Replicas) : Prop where
  filled : AllFilled replicas
  absorbs : ∀ id node, ∀ row ∈ copies replicas id node, ∀ copy ∈ copies replicas id node.other,
    absorbCopy row copy = row

/-- The steps of an exchange between mirrored nodes meet every condition. -/
theorem every_mirrored (hooks : ∀ node row, (env node).governancePreWrite row = none)
    (ready : Ready env skewSecs clock replicas) (mirrored : Mirrored replicas) {steps : List (ReplicaStep env)}
    (clocked : ∀ step ∈ steps, Clocked clock step) :
    EveryStep (replicaStep env skewSecs)
      (fun state step => Clocked clock step ∧ Ready env skewSecs clock state ∧ Mirrored state) replicas steps := by
  have each := @EveryStep.of_labels _ _ (replicaStep env skewSecs) _ steps clocked replicas
  refine each.and_invariant (fun state step meets holds => ?_) ⟨ready, mirrored⟩
  obtain ⟨count, sender, id, rfl⟩ := meets
  have spec := clocked_spec hooks holds.1 (holds.2.apart sender id (clock count sender.other id))
    ⟨count, sender, id, rfl⟩
  exact ⟨spec.2.1, holds.2.deliver spec.2.2⟩

/-- Between mirrored replicas every step of the exchanges finds its copies apart. -/
theorem every_apart (hooks : ∀ node row, (env node).governancePreWrite row = none)
    (ready : Ready env skewSecs clock replicas) (mirrored : Mirrored replicas) {steps : List (ReplicaStep env)}
    (clocked : ∀ step ∈ steps, Clocked clock step) :
    EveryStep (replicaStep env skewSecs) (Apart env) replicas steps := by
  refine (every_mirrored hooks ready mirrored clocked).mono fun state step meets => ?_
  obtain ⟨count, sender, id, rfl⟩ := meets.1
  exact meets.2.2.apart sender id _

/-- Both copies of a row land in an exchange between mirrored nodes. -/
theorem Mirrored.exchanged {id : String} {after : Node → Option Memory} (mirrored : Mirrored replicas)
    (exchanged : Exchanged env clock count id (copies replicas id) after) :
    (after .first = none ∧ after .second = none) ∨
      ∃ row copy, copies replicas id .first = some row ∧ copies replicas id .second = some copy ∧ Twin row copy ∧
        after .second = some (landed (env .second).toEnvironment (clock count .second id) (some copy) row) ∧
        after .first = some (landed (env .first).toEnvironment (clock count .first id) (some row)
          (landed (env .second).toEnvironment (clock count .second id) (some copy) row)) := by
  have there := exchanged.there
  have back := exchanged.back
  cases first : copies replicas id .first with
  | none =>
      cases second : copies replicas id .second with
      | none =>
          rw [first, second, land] at there
          rw [there, first, land] at back
          exact .inl ⟨back, there⟩
      | some copy =>
          obtain ⟨row, held, _⟩ := mirrored id .second copy second
          cases first.symm.trans held
  | some row =>
      obtain ⟨copy, second, twin⟩ := mirrored id .first row first
      have stored : copies replicas id .second = some copy := second
      rw [first, stored, land] at there
      rw [there, first, land] at back
      exact .inr ⟨row, copy, rfl, stored, twin, there, back⟩

/-- An exchange between mirrored nodes fills every row. -/
theorem allFilled_exchange (hooks : ∀ node row, (env node).governancePreWrite row = none)
    (ready : Ready env skewSecs clock replicas) (mirrored : Mirrored replicas) :
    AllFilled (run (replicaStep env skewSecs) replicas (exchange skewSecs (clock count) replicas)) := by
  intro id node row held
  have every := every_apart hooks ready mirrored (@clocked_exchange env skewSecs clock count replicas)
  rcases mirrored.exchanged (exchanged hooks ready every id) with
    ⟨noFirst, noSecond⟩ | ⟨_, _, _, _, _, atSecond, atFirst⟩
  · rcases eq_first_or_second node with rfl | rfl
    · cases noFirst.symm.trans held
    · cases noSecond.symm.trans held
  · rcases eq_first_or_second node with rfl | rfl
    · rw [← Option.some.inj (atFirst.symm.trans held)]
      exact filled_landed _ _
    · rw [← Option.some.inj (atSecond.symm.trans held)]
      exact filled_landed _ _

/-- An exchange between mirrored nodes with filled rows brings them to rest. -/
theorem atRest_exchange (hooks : ∀ node row, (env node).governancePreWrite row = none)
    (ready : Ready env skewSecs clock replicas) (mirrored : Mirrored replicas) (filled : AllFilled replicas) :
    AtRest (run (replicaStep env skewSecs) replicas (exchange skewSecs (clock count) replicas)) where
  filled := allFilled_exchange hooks ready mirrored
  absorbs id node := by
    have every := every_apart hooks ready mirrored (@clocked_exchange env skewSecs clock count replicas)
    rcases mirrored.exchanged (exchanged hooks ready every id) with
      ⟨noFirst, noSecond⟩ | ⟨row, copy, first, second, twin, atSecond, atFirst⟩
    · intro row held copy copyHeld
      rcases eq_first_or_second node with rfl | rfl
      · cases noFirst.symm.trans held
      · cases noSecond.symm.trans held
    · have sameId : row.id = copy.id := (id_of_copies first).trans (id_of_copies second).symm
      have landsThere : landed (env .second).toEnvironment (clock count .second id) (some copy) row =
          absorbCopy copy row :=
        landed_of_filled (filled id .second copy second) (filled id .first row first) twin.tier
      have tier : (absorbCopy copy row).tier = row.tier := by
        show mergeTier copy.tier row.tier = row.tier
        rw [← twin.tier, mergeTier, if_neg (Nat.lt_irrefl _)]
      have landsBack : landed (env .first).toEnvironment (clock count .first id) (some row) (absorbCopy copy row) =
          absorbCopy row (absorbCopy copy row) :=
        landed_of_filled (filled id .first row first) (landsThere ▸ filled_landed _ _) tier
      rw [landsThere] at atSecond atFirst
      rw [landsBack] at atFirst
      intro held heldAt other otherAt
      rcases eq_first_or_second node with rfl | rfl
      · rw [← Option.some.inj (atFirst.symm.trans heldAt), ← Option.some.inj (atSecond.symm.trans otherAt)]
        exact mergeMemory_absorb row (claimedCopy (absorbCopy copy row))
      · rw [← Option.some.inj (atSecond.symm.trans heldAt), ← Option.some.inj (atFirst.symm.trans otherAt)]
        exact absorbCopy_exchange sameId twin.time

/-- A copy that absorbs nothing lands as it is. -/
theorem landed_atRest {env : Environment} {now : env.chrono.Instant} {held row : Memory} (filled : Filled held)
    (absorbs : absorbCopy held row = held) : landed env now (some held) row = held := by
  rw [landed, absorbs, effectiveExpiresAt_of_filled filled]

/-- Deliveries between nodes at rest change no live table. -/
theorem AtRest.run (hooks : ∀ node row, (env node).governancePreWrite row = none)
    (ready : Ready env skewSecs clock replicas) (mirrored : Mirrored replicas) (atRest : AtRest replicas)
    {steps : List (ReplicaStep env)} (clocked : ∀ step ∈ steps, Clocked clock step) (node : Node) :
    (Library.run (replicaStep env skewSecs) replicas steps node).memories = (replicas node).memories := by
  have every := every_mirrored hooks ready mirrored clocked
  refine @run_invariant _ _ _ _ (fun state => ∀ node, (state node).memories = (replicas node).memories)
    (fun state step meets same => ?_) _ _ every (fun _ => rfl) node
  obtain ⟨⟨count, sender, id, rfl⟩, readyNow, mirroredNow⟩ := meets
  have sameCopies (query : String) : copies state query = copies replicas query := by
    funext other
    rw [copies, copies, same other]
  have spec := deliver_spec hooks readyNow.sound
    (fun row stored => readyNow.timed id sender row stored count sender.other id)
    (mirroredNow.apart sender id (clock count sender.other id))
  have keeps := spec.2.2.1
  intro other
  rw [keeps, same other]
  rw [sameCopies]
  cases sent : copies replicas id sender with
  | none => rfl
  | some row =>
      obtain ⟨copy, held, _⟩ := mirrored id sender row sent
      have stored : copies replicas id sender.other = some copy := held
      rw [stored, land]
      refine congrArg some (landed_atRest (atRest.filled id sender.other copy held) ?_)
      exact atRest.absorbs id sender.other copy held row (by rw [Node.other_other]; exact sent)

end Rest

section Runs

variable {env : Node → WriterEnvironment} {skewSecs : Int} {clock : Nat → ExchangeClock env} {replicas : Replicas}

/-- Both nodes start without rows. -/
def emptyReplicas : Replicas := fun _ => emptyStore

theorem sound_emptyReplicas : Sound emptyReplicas where
  running _ := rfl
  remembered _ := rfl
  checked _ _ _ held := nomatch held
  agree _ _ _ held := nomatch held

/-- A step that meets its conditions keeps the invariant and does not fail as a delivery. -/
theorem step_sound (hooks : ∀ node row, (env node).governancePreWrite row = none) (sound : Sound replicas)
    {step : ReplicaStep env} (admitted : Admitted env skewSecs replicas step) (apart : Apart env replicas step) :
    Lands env skewSecs replicas step ∧ Sound (replicaStep env skewSecs replicas step) := by
  cases step with
  | insert node row now => exact ⟨trivial, sound_insert sound admitted apart⟩
  | update node id patch expectedVersion now => exact ⟨trivial, sound_update sound apart⟩
  | deliver sender id now =>
      have spec := deliver_spec hooks sound admitted apart
      exact ⟨spec.1, spec.2.1⟩

/-- Every delivery of the exchanges lands, one of them changes nothing, and the nodes then show the same rows. -/
structure Converges (skewSecs : Int) (clock : Nat → ExchangeClock env) (start : Replicas) : Prop where
  lands : ∀ count, EveryStep (replicaStep env skewSecs) (Lands env skewSecs) (rounds skewSecs clock start count)
    (exchange skewSecs (clock count) (rounds skewSecs clock start count))
  rests : ∃ count, Still skewSecs clock start count
  agrees : ∀ count, Still skewSecs clock start count →
    shownRows (rounds skewSecs clock start count .first) = shownRows (rounds skewSecs clock start count .second)

/-- Each exchange meets the conditions, and leaves the nodes mirrored. -/
theorem rounds_spec (hooks : ∀ node row, (env node).governancePreWrite row = none)
    (ready : Ready env skewSecs clock replicas)
    (first : EveryStep (replicaStep env skewSecs) (Apart env) replicas (exchange skewSecs (clock 0) replicas))
    (count : Nat) :
    EveryStep (replicaStep env skewSecs) (Apart env) (rounds skewSecs clock replicas count)
        (exchange skewSecs (clock count) (rounds skewSecs clock replicas count)) ∧
      Ready env skewSecs clock (rounds skewSecs clock replicas count) ∧
      Mirrored (rounds skewSecs clock replicas (count + 1)) := by
  induction count with
  | zero => exact ⟨first, ready, mirrored_exchange hooks ready first⟩
  | succ count ih =>
      obtain ⟨every, readyBefore, mirrored⟩ := ih
      have readyNow : Ready env skewSecs clock (rounds skewSecs clock replicas (count + 1)) :=
        run_invariant (fun _ _ meets _ => (clocked_spec hooks meets.2 meets.1.1 meets.1.2).2.1)
          (every_ready hooks readyBefore (clocked_exchange count _) every) readyBefore
      have next := every_apart hooks readyNow mirrored
        (@clocked_exchange env skewSecs clock (count + 1) (rounds skewSecs clock replicas (count + 1)))
      exact ⟨next, readyNow, mirrored_exchange hooks readyNow next⟩

/-- The fourth exchange changes nothing. -/
theorem still_three (hooks : ∀ node row, (env node).governancePreWrite row = none)
    (ready : Ready env skewSecs clock replicas)
    (first : EveryStep (replicaStep env skewSecs) (Apart env) replicas (exchange skewSecs (clock 0) replicas)) :
    Still skewSecs clock replicas 3 := by
  have spec := rounds_spec hooks ready first
  have filled : AllFilled (rounds skewSecs clock replicas 2) :=
    allFilled_exchange hooks (spec 1).2.1 (spec 0).2.2
  have atRest : AtRest (rounds skewSecs clock replicas 3) :=
    atRest_exchange hooks (spec 2).2.1 (spec 1).2.2 filled
  exact fun node => atRest.run hooks (spec 3).2.1 (spec 2).2.2 (clocked_exchange 3 _) node

theorem shownRows_of_memories {before after : Store} (same : after.memories = before.memories) :
    shownRows after = shownRows before := by
  rw [shownRows, shownRows, same]

/-- Mirrored replicas show the same rows. -/
theorem Mirrored.shownRows_eq (mirrored : Mirrored replicas) :
    shownRows (replicas .first) = shownRows (replicas .second) :=
  Set.Subset.antisymm (mirrored.shownRows_subset .first) (mirrored.shownRows_subset .second)

/-- Two nodes converge after every run in which no two versions of a row share a time and each delivered row
finds its place, through the first full exchange. -/
theorem replicas_converge (hooks : ∀ node row, (env node).governancePreWrite row = none)
    {steps : List (ReplicaStep env)}
    (every : EveryStep (replicaStep env skewSecs)
      (fun state step => Admitted env skewSecs state step ∧ Apart env state step) emptyReplicas steps)
    (timed : Timed env skewSecs clock (run (replicaStep env skewSecs) emptyReplicas steps))
    (first : EveryStep (replicaStep env skewSecs) (Apart env) (run (replicaStep env skewSecs) emptyReplicas steps)
      (exchange skewSecs (clock 0) (run (replicaStep env skewSecs) emptyReplicas steps))) :
    EveryStep (replicaStep env skewSecs) (Lands env skewSecs) emptyReplicas steps ∧
      Converges skewSecs clock (run (replicaStep env skewSecs) emptyReplicas steps) := by
  have preserved (state : Replicas) (step : ReplicaStep env)
      (meets : Admitted env skewSecs state step ∧ Apart env state step) (sound : Sound state) :
      Sound (replicaStep env skewSecs state step) := (step_sound hooks sound meets.1 meets.2).2
  have sweep := every.and_invariant preserved sound_emptyReplicas
  have sound := run_invariant preserved every sound_emptyReplicas
  have ready : Ready env skewSecs clock (run (replicaStep env skewSecs) emptyReplicas steps) := ⟨sound, timed⟩
  have spec := rounds_spec hooks ready first
  refine ⟨sweep.mono fun _ _ meets => (step_sound hooks meets.2 meets.1.1 meets.1.2).1, ⟨fun count => ?_, ?_, ?_⟩⟩
  · exact (every_ready hooks (spec count).2.1 (clocked_exchange count _) (spec count).1).mono fun _ _ meets =>
      (clocked_spec hooks meets.2 meets.1.1 meets.1.2).1
  · exact ⟨3, still_three hooks ready first⟩
  · intro count still
    rw [← shownRows_of_memories (still .first), ← shownRows_of_memories (still .second)]
    exact (spec count).2.2.shownRows_eq

end Runs

section Samples

/-- Both nodes run without a hook and a screen, under one clock. -/
def sites (_ : Node) : WriterEnvironment :=
  { openWriterEnvironment with toEnvironment := { openEnvironment with chrono := exchangeClock } }

def titled (id title : String) : Memory := { Memory.base id "2026-06-16T10:00:00+00:00" with title := title }

def retitled (title : String) : Patch where
  title := some title
  content := none
  tier := none
  «namespace» := none
  tags := none
  priority := none
  confidence := none
  expiresAt := none
  metadata := none
  sourceUri := none

/-- The exchanges run one minute after the first insertion. -/
def oneMinute : exchangeClock.Instant := (60 : Int)

def laterClock (_ : Nat) : ExchangeClock sites := fun _ _ => oneMinute

/-- The second node renames its copy of the row to a title that no other row has. -/
def renamedRun : List (ReplicaStep sites) :=
  [.insert .first (titled "a" "t") (0 : Int), .deliver .first "a" (0 : Int), .insert .second (titled "b" "u") (0 : Int),
    .update .second "a" (retitled "v") none (60 : Int)]

/-- The first node renames its row to the title that the second one gave to another row. -/
def crossedRun : List (ReplicaStep sites) :=
  [.insert .first (titled "a" "t") (0 : Int), .deliver .first "a" (0 : Int), .insert .second (titled "b" "u") (0 : Int),
    .update .first "a" (retitled "u") none (60 : Int)]

/-- The exchanges are in time for rows that are in time after one minute. -/
theorem timed_sites {replicas : Replicas}
    (timely : ∀ node, ∀ row ∈ (replicas node).memories.rows, Timely exchangeClock 300 oneMinute row.updatedAt) :
    Timed sites 300 laterClock replicas := by
  intro id node row held count receiver query
  exact timely node row (((replicas node).memories.find_eq_some_iff _ _).mp held).1

/-- Two nodes that keep their titles apart converge. -/
theorem renamedRun_converges :
    EveryStep (replicaStep sites 300) (Lands sites 300) emptyReplicas renamedRun ∧
      Converges 300 laterClock (run (replicaStep sites 300) emptyReplicas renamedRun) := by
  apply replicas_converge (fun _ _ => rfl)
  · decide
  · apply timed_sites
    intro node
    cases node <;> decide
  · decide

/-- A row that is renamed to the title of another node's row cannot be delivered there. -/
theorem crossedRun_fails :
    EveryStep (replicaStep sites 300) (Admitted sites 300) emptyReplicas crossedRun ∧
      Timed sites 300 laterClock (run (replicaStep sites 300) emptyReplicas crossedRun) ∧
      ¬ Converges 300 laterClock (run (replicaStep sites 300) emptyReplicas crossedRun) := by
  refine ⟨by decide, timed_sites fun node => by cases node <;> decide, fun converges => ?_⟩
  have first : Lands sites 300 (run (replicaStep sites 300) emptyReplicas crossedRun)
      (.deliver .first "a" (60 : Int)) := (converges.lands 0).1
  obtain ⟨written, lands⟩ := first _ rfl
  cases lands

end Samples
end AiMemory.Storage
