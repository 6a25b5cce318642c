import AiMemory.Federation.SyncPush
import AiMemory.Quotas.Row
import Mathlib.Logic.Function.Basic

/-
This file embeds the quota charge of the receive loop and decides when receiving leaves the counters as they were.
-/

namespace AiMemory.Quotas
open AiMemory.Machine

section Charge

/-- A sum past the machine integers becomes a floating-point number, of which nothing is said. -/
def sqlSum (realSum : Int → Int → Int) (left right : Int) : Int :=
  if left + right ≤ i64Max then left + right else realSum left right

variable (account : Account) (defaults : QuotaDefaults)

/-- The charge of a received memory counts its bytes and not the memory. -/
def checkAndRecordStorageOnly (realSum : Int → Int → Int) (stored : Option QuotaStatus) (ensured now : Int)
    (bytes : Nat) : QuotaStatus × Except QuotaError Unit :=
  let row := ensureRow account defaults stored ensured
  if saturatingAdd row.currentStorageBytes bytes > row.maxStorageBytes then
    (row, .error (quotaError account .storageBytes row.currentStorageBytes row.maxStorageBytes))
  else
    ({ row with
      currentStorageBytes := sqlSum realSum row.currentStorageBytes bytes
      updatedAt := account.toRfc3339 now }, .ok ())

/-- The refund that the other storage backend calls. -/
def refundStorageOnly (row : QuotaStatus) (now : Int) (bytes : Nat) : QuotaStatus :=
  { row with
    currentStorageBytes := max (row.currentStorageBytes - bytes) 0
    updatedAt := account.toRfc3339 now }

end Charge

/-- A row for each agent in each namespace. -/
abbrev QuotaTable := String × String → Option QuotaStatus

structure QuotaEnvironment where
  defaults : QuotaDefaults
  toRfc3339 : Int → String
  realSum : Int → Int → Int

/-- A memory as the charge sees it: its attributed agent, its namespace and its estimated bytes. -/
structure Inbound where
  agentId : String
  «namespace» : String
  bytes : Nat

def Inbound.key (inbound : Inbound) : String × String := (inbound.agentId, inbound.namespace)

/-- A check turns the memory away before the charge, or the merge decides after it. -/
inductive Outcome where
  | turnedAway
  | merged
  | failed
  deriving DecidableEq

/-- One delivery of a memory with the readings of the clock. -/
structure Attempt where
  outcome : Outcome
  ensuredAt : Int
  chargedAt : Int
  refundedAt : Int

inductive Verdict where
  | applied
  | skipped
  | quotaRefused
  deriving DecidableEq

section Receive

variable (env : QuotaEnvironment)

def QuotaEnvironment.account (inbound : Inbound) : Account := ⟨inbound.agentId, inbound.namespace, env.toRfc3339⟩

/-- One iteration of the receive loop charges, merges and refunds a failed merge. -/
def receiveOne (table : QuotaTable) (inbound : Inbound) (attempt : Attempt) : QuotaTable × Verdict :=
  if attempt.outcome = .turnedAway then (table, .skipped)
  else
    match checkAndRecordStorageOnly (env.account inbound) env.defaults env.realSum (table inbound.key)
        attempt.ensuredAt attempt.chargedAt inbound.bytes with
    | (row, .error _) => (Function.update table inbound.key (some row), .quotaRefused)
    | (row, .ok ()) =>
        if attempt.outcome = .merged then (Function.update table inbound.key (some row), .applied)
        else
          (Function.update table inbound.key
            (some (refundOp (env.account inbound) row attempt.refundedAt (.memory inbound.bytes))), .skipped)

/-- The first refusal ends the loop. -/
def receivePush : QuotaTable → List (Inbound × Attempt) → QuotaTable × List Verdict
  | table, [] => (table, [])
  | table, (inbound, attempt) :: rest =>
      match receiveOne env table inbound attempt with
      | (refused, .quotaRefused) => (refused, [.quotaRefused])
      | (received, verdict) => ((receivePush received rest).1, verdict :: (receivePush received rest).2)

/-- A delivery of the push. -/
def deliver (push : List Inbound) (delivery : Nat → Attempt) : List (Inbound × Attempt) :=
  push.mapIdx fun index inbound => (inbound, delivery index)

/-- The same push arrives again for each of the deliveries. -/
def redeliver (table : QuotaTable) (push : List Inbound) (deliveries : List (Nat → Attempt)) : QuotaTable :=
  deliveries.foldl (fun table delivery => (receivePush env table (deliver push delivery)).1) table

end Receive

/-- The counters of an account and its storage ceiling. -/
@[ext] structure Tally where
  memoriesToday : Int
  storageBytes : Int
  linksToday : Int
  maxStorageBytes : Int

/-- A missing row counts nothing under the default ceiling. -/
def tally (defaults : QuotaDefaults) : Option QuotaStatus → Tally
  | none => ⟨0, 0, 0, defaults.maxStorageBytes⟩
  | some row => ⟨row.currentMemoriesToday, row.currentStorageBytes, row.currentLinksToday, row.maxStorageBytes⟩

namespace Tally

def Accepts (tally : Tally) (bytes : Nat) : Prop := saturatingAdd tally.storageBytes bytes ≤ tally.maxStorageBytes

instance (tally : Tally) (bytes : Nat) : Decidable (tally.Accepts bytes) := inferInstanceAs (Decidable (_ ≤ _))

/-- What a delivery makes of the counters. -/
def receive (tally : Tally) (bytes : Nat) (outcome : Outcome) : Tally :=
  if tally.Accepts bytes then
    match outcome with
    | .turnedAway => tally
    | .merged => { tally with storageBytes := tally.storageBytes + bytes }
    | .failed =>
        { tally with memoriesToday := max (tally.memoriesToday - 1) 0, storageBytes := max tally.storageBytes 0 }
  else tally

variable {tally : Tally} {bytes : Nat}

/-- A full ledger stays as it is. -/
theorem receive_refused (full : ¬ tally.Accepts bytes) (outcome : Outcome) :
    tally.receive bytes outcome = tally := if_neg full

theorem receive_turnedAway (tally : Tally) (bytes : Nat) : tally.receive bytes .turnedAway = tally :=
  ite_id tally

/-- A merged memory is charged with its bytes. -/
theorem receive_merged (fits : tally.Accepts bytes) :
    tally.receive bytes .merged = { tally with storageBytes := tally.storageBytes + bytes } := if_pos fits

/-- A failed merge is refunded as an operation. -/
theorem receive_failed (fits : tally.Accepts bytes) :
    tally.receive bytes .failed =
      { tally with memoriesToday := max (tally.memoriesToday - 1) 0, storageBytes := max tally.storageBytes 0 } :=
  if_pos fits

end Tally

section Tallies

variable {env : QuotaEnvironment} {table : QuotaTable} {inbound : Inbound} {attempt : Attempt}

/-- The row that is ensured has the counters of the stored one. -/
theorem tally_ensureRow (account : Account) (defaults : QuotaDefaults) (stored : Option QuotaStatus) (now : Int) :
    tally defaults (some (ensureRow account defaults stored now)) = tally defaults stored := by
  cases stored <;> rfl

/-- Below a ceiling that is not the end of the machine integers no accepted sum leaves them. -/
theorem sqlSum_accepted {tally : Tally} {bytes : Nat} (fits : tally.Accepts bytes)
    (below : tally.maxStorageBytes < i64Max) (realSum : Int → Int → Int) :
    sqlSum realSum tally.storageBytes bytes = tally.storageBytes + bytes := by
  unfold Tally.Accepts saturatingAdd at fits
  apply if_pos
  omega

/-- The charge is refused on the ensured row or adds the bytes to it. -/
theorem checkAndRecordStorageOnly_cases (account : Account) (defaults : QuotaDefaults) (realSum : Int → Int → Int)
    {stored : Option QuotaStatus} (below : (tally defaults stored).maxStorageBytes < i64Max) (ensured now : Int)
    (bytes : Nat) :
    (¬ (tally defaults stored).Accepts bytes ∧ ∃ row breach,
      checkAndRecordStorageOnly account defaults realSum stored ensured now bytes = (row, .error breach) ∧
        tally defaults (some row) = tally defaults stored) ∨
    ((tally defaults stored).Accepts bytes ∧ ∃ row,
      checkAndRecordStorageOnly account defaults realSum stored ensured now bytes = (row, .ok ()) ∧
        tally defaults (some row) =
          { tally defaults stored with storageBytes := (tally defaults stored).storageBytes + bytes }) := by
  rw [← tally_ensureRow account defaults stored ensured] at below ⊢
  unfold checkAndRecordStorageOnly
  simp only
  split_ifs with full
  · exact Or.inl ⟨not_le.mpr full, _, _, rfl, rfl⟩
  · refine Or.inr ⟨not_lt.mp full, _, rfl, Tally.ext rfl ?_ rfl rfl⟩
    exact sqlSum_accepted (not_lt.mp full) below realSum

/-- A delivery changes the counters of its own account only, and a refused one changes none. -/
theorem receiveOne_spec (below : (tally env.defaults (table inbound.key)).maxStorageBytes < i64Max)
    (attempt : Attempt) :
    ((receiveOne env table inbound attempt).2 = .quotaRefused ↔
      attempt.outcome ≠ .turnedAway ∧ ¬ (tally env.defaults (table inbound.key)).Accepts inbound.bytes) ∧
    ∀ key, tally env.defaults ((receiveOne env table inbound attempt).1 key) =
      if key = inbound.key then (tally env.defaults (table key)).receive inbound.bytes attempt.outcome
      else tally env.defaults (table key) := by
  obtain ⟨outcome, ensuredAt, chargedAt, refundedAt⟩ := attempt
  have update (row : QuotaStatus)
      (same : tally env.defaults (some row) = (tally env.defaults (table inbound.key)).receive inbound.bytes outcome)
      (key : String × String) : tally env.defaults (Function.update table inbound.key (some row) key) =
        if key = inbound.key then (tally env.defaults (table key)).receive inbound.bytes outcome
        else tally env.defaults (table key) := by
    rw [Function.update_apply]
    split_ifs with own
    · rw [same, own]
    · rfl
  obtain ⟨full, row, breach, checked, same⟩ | ⟨fits, row, checked, same⟩ :=
    checkAndRecordStorageOnly_cases (env.account inbound) env.defaults env.realSum below ensuredAt chargedAt
      inbound.bytes
  · by_cases away : outcome = .turnedAway
    · subst away
      exact ⟨by simp [receiveOne], fun key => by rw [Tally.receive_turnedAway, ite_id]; rfl⟩
    · have refused : receiveOne env table inbound ⟨outcome, ensuredAt, chargedAt, refundedAt⟩ =
          (Function.update table inbound.key (some row), .quotaRefused) := by
        simp only [receiveOne, if_neg away, checked]
      rw [refused]
      exact ⟨by simp [away, full], update row (same.trans (Tally.receive_refused full outcome).symm)⟩
  · cases outcome with
    | turnedAway =>
        exact ⟨by simp [receiveOne], fun key => by rw [Tally.receive_turnedAway, ite_id]; rfl⟩
    | merged =>
        have applied : receiveOne env table inbound ⟨.merged, ensuredAt, chargedAt, refundedAt⟩ =
            (Function.update table inbound.key (some row), .applied) := by simp [receiveOne, checked]
        rw [applied]
        exact ⟨by simp [fits], update row (same.trans (Tally.receive_merged fits).symm)⟩
    | failed =>
        have refunded : receiveOne env table inbound ⟨.failed, ensuredAt, chargedAt, refundedAt⟩ =
            (Function.update table inbound.key
              (some (refundOp (env.account inbound) row refundedAt (.memory inbound.bytes))), .skipped) := by
          simp [receiveOne, checked]
        have restored : tally env.defaults
              (some (refundOp (env.account inbound) row refundedAt (.memory inbound.bytes))) =
            (tally env.defaults (table inbound.key)).receive inbound.bytes .failed := by
          rw [Tally.receive_failed fits]
          simp only [tally, Tally.mk.injEq] at same
          obtain ⟨memories, storage, links, ceiling⟩ := same
          simp only [tally, refundOp, memories, storage, links, ceiling, add_sub_cancel_right]
        rw [refunded]
        exact ⟨by simp [fits], update _ restored⟩

/-- A memory that does not fit leaves every tally. -/
theorem tally_receiveOne_full (below : (tally env.defaults (table inbound.key)).maxStorageBytes < i64Max)
    (full : ¬ (tally env.defaults (table inbound.key)).Accepts inbound.bytes) (attempt : Attempt)
    (key : String × String) :
    tally env.defaults ((receiveOne env table inbound attempt).1 key) = tally env.defaults (table key) := by
  rw [(receiveOne_spec below attempt).2]
  split_ifs with own
  · rw [own, Tally.receive_refused full]
  · rfl

end Tallies

/-- The refund restores every counter. -/
def Tally.RefundRestores (tally : Tally) (bytes : Nat) : Prop :=
  tally.Accepts bytes → tally.memoriesToday = 0 ∧ 0 ≤ tally.storageBytes

/-- An accepted delivery of these bytes leaves the stored bytes. -/
def Tally.Idle (tally : Tally) (bytes : Nat) : Outcome → Prop
  | .turnedAway => True
  | .merged => bytes = 0
  | .failed => 0 ≤ tally.storageBytes

section Neutral

variable (env : QuotaEnvironment)

/-- A failed merge leaves every counter of the table. -/
def FailedMergeNeutral (table : QuotaTable) (inbound : Inbound) : Prop :=
  ∀ attempt : Attempt, attempt.outcome = .failed → ∀ key,
    tally env.defaults ((receiveOne env table inbound attempt).1 key) = tally env.defaults (table key)

def storages (table : QuotaTable) (key : String × String) : Int := (tally env.defaults (table key)).storageBytes

def ceilings (table : QuotaTable) (key : String × String) : Int := (tally env.defaults (table key)).maxStorageBytes

/-- Each delivery up to the first refusal leaves the stored bytes that are there before the push. -/
def ChargesNothing (table : QuotaTable) : List (Inbound × Attempt) → Prop
  | [] => True
  | (inbound, attempt) :: rest =>
      attempt.outcome = .turnedAway ∨ (tally env.defaults (table inbound.key)).Accepts inbound.bytes →
        (tally env.defaults (table inbound.key)).Idle inbound.bytes attempt.outcome ∧ ChargesNothing table rest

end Neutral

section Push

variable {env : QuotaEnvironment} {table : QuotaTable} {inbound : Inbound} {attempt : Attempt} {tally : Tally}
  {bytes : Nat} {outcome : Outcome}

/-- A failed merge is neutral exactly when the refund restores the counters. -/
theorem failedMergeNeutral_iff (below : ceilings env table inbound.key < i64Max) :
    FailedMergeNeutral env table inbound ↔
      (Quotas.tally env.defaults (table inbound.key)).RefundRestores inbound.bytes := by
  constructor
  · intro neutral fits
    have same := neutral ⟨.failed, 0, 0, 0⟩ rfl inbound.key
    rw [(receiveOne_spec below _).2, if_pos rfl, Tally.receive_failed fits, Tally.ext_iff] at same
    obtain ⟨memories, storage, -, -⟩ := same
    simp only at memories storage
    omega
  · intro restores attempt failed key
    rw [(receiveOne_spec below attempt).2, failed]
    split_ifs with own
    · rw [own]
      by_cases fits : (Quotas.tally env.defaults (table inbound.key)).Accepts inbound.bytes
      · obtain ⟨memories, storage⟩ := restores fits
        rw [Tally.receive_failed fits, memories, max_eq_left storage]
        exact Tally.ext memories.symm rfl rfl rfl
      · exact Tally.receive_refused fits _
    · rfl

/-- No delivery takes stored bytes away. -/
theorem storageBytes_receive (tally : Tally) (bytes : Nat) (outcome : Outcome) :
    tally.storageBytes ≤ (tally.receive bytes outcome).storageBytes := by
  unfold Tally.receive
  split_ifs
  · cases outcome <;> simp
  · exact le_rfl

/-- No receipt changes the ceiling. -/
theorem maxStorageBytes_receive (tally : Tally) (bytes : Nat) (outcome : Outcome) :
    (tally.receive bytes outcome).maxStorageBytes = tally.maxStorageBytes := by
  unfold Tally.receive
  split_ifs
  · cases outcome <;> rfl
  · rfl

/-- A receipt keeps the stored bytes exactly when it is idle. -/
theorem storageBytes_receive_iff (goesOn : outcome = .turnedAway ∨ tally.Accepts bytes) :
    (tally.receive bytes outcome).storageBytes = tally.storageBytes ↔ tally.Idle bytes outcome := by
  cases outcome with
  | turnedAway => simp [Tally.receive_turnedAway, Tally.Idle]
  | merged =>
      have fits := goesOn.resolve_left (by decide)
      simp [Tally.receive_merged fits, Tally.Idle]
  | failed =>
      have fits := goesOn.resolve_left (by decide)
      simp [Tally.receive_failed fits, Tally.Idle]

/-- A rise in two parts is none when both parts are none. -/
theorem eq_of_rises {Value : Type*} [PartialOrder Value] {first second third : Value} (lower : first ≤ second)
    (upper : second ≤ third) : third = first ↔ second = first ∧ third = second := by
  constructor
  · rintro rfl
    exact ⟨le_antisymm upper lower, le_antisymm lower upper⟩
  · rintro ⟨rfl, same⟩
    exact same

/-- No receipt lowers the stored bytes or moves a ceiling. -/
theorem storages_receiveOne (below : ceilings env table inbound.key < i64Max) (attempt : Attempt) :
    storages env table ≤ storages env (receiveOne env table inbound attempt).1 ∧
      ceilings env (receiveOne env table inbound attempt).1 = ceilings env table := by
  have spec := (receiveOne_spec below attempt).2
  constructor
  · intro key
    rw [storages, storages, spec]
    split_ifs
    · exact storageBytes_receive _ _ _
    · exact le_rfl
  · funext key
    rw [ceilings, ceilings, spec]
    split_ifs
    · exact maxStorageBytes_receive _ _ _
    · rfl

/-- A delivery that goes on leaves the stored bytes exactly when it is idle. -/
theorem storages_receiveOne_iff (below : ceilings env table inbound.key < i64Max)
    (goesOn : attempt.outcome = .turnedAway ∨
      (Quotas.tally env.defaults (table inbound.key)).Accepts inbound.bytes) :
    storages env (receiveOne env table inbound attempt).1 = storages env table ↔
      (Quotas.tally env.defaults (table inbound.key)).Idle inbound.bytes attempt.outcome := by
  have spec := (receiveOne_spec below attempt).2
  rw [← storageBytes_receive_iff goesOn]
  constructor
  · intro same
    have own := congrFun same inbound.key
    rwa [storages, storages, spec, if_pos rfl] at own
  · intro same
    funext key
    rw [storages, storages, spec]
    split_ifs with own
    · rw [own, same]
    · rfl

/-- The condition reads the stored bytes and the ceilings only. -/
theorem chargesNothing_congr {other : QuotaTable} (storage : storages env other = storages env table)
    (ceiling : ceilings env other = ceilings env table) (pairs : List (Inbound × Attempt)) :
    ChargesNothing env other pairs ↔ ChargesNothing env table pairs := by
  induction pairs with
  | nil => exact Iff.rfl
  | cons pair rest ih =>
      obtain ⟨inbound, attempt⟩ := pair
      have sameStorage := congrFun storage inbound.key
      have sameCeiling := congrFun ceiling inbound.key
      simp only [storages, ceilings] at sameStorage sameCeiling
      rw [ChargesNothing, ChargesNothing, Tally.Accepts, Tally.Accepts, sameStorage, sameCeiling, ih]
      cases attempt.outcome <;> simp only [Tally.Idle, sameStorage]

/-- A push goes on after its first memory unless the quota refuses it. -/
theorem receivePush_cons (rest : List (Inbound × Attempt)) :
    (receivePush env table ((inbound, attempt) :: rest)).1 =
      if (receiveOne env table inbound attempt).2 = .quotaRefused then (receiveOne env table inbound attempt).1
      else (receivePush env (receiveOne env table inbound attempt).1 rest).1 := by
  rw [receivePush]
  cases receiveOne env table inbound attempt with
  | mk received verdict => cases verdict <;> rfl

/-- A push never takes stored bytes away, keeps the ceilings, and leaves the stored bytes when it charges nothing. -/
theorem storages_receivePush {pairs : List (Inbound × Attempt)}
    (below : ∀ pair ∈ pairs, ceilings env table pair.1.key < i64Max) :
    storages env table ≤ storages env (receivePush env table pairs).1 ∧
      ceilings env (receivePush env table pairs).1 = ceilings env table ∧
      (storages env (receivePush env table pairs).1 = storages env table ↔ ChargesNothing env table pairs) := by
  induction pairs generalizing table with
  | nil => exact ⟨le_rfl, rfl, iff_of_true rfl trivial⟩
  | cons pair rest ih =>
      obtain ⟨inbound, attempt⟩ := pair
      obtain ⟨belowFirst, belowRest⟩ := List.forall_mem_cons.mp below
      obtain ⟨rises, ceiling⟩ := storages_receiveOne belowFirst attempt
      have refuses := (receiveOne_spec belowFirst attempt).1
      rw [receivePush_cons]
      split_ifs with refused
      · obtain ⟨taken, full⟩ := refuses.mp refused
        have same : storages env (receiveOne env table inbound attempt).1 = storages env table := by
          funext key
          rw [storages, storages, tally_receiveOne_full belowFirst full]
        exact ⟨rises, ceiling, iff_of_true same fun goesOn => absurd goesOn (not_or.mpr ⟨taken, full⟩)⟩
      · have goesOn : attempt.outcome = .turnedAway ∨
            (Quotas.tally env.defaults (table inbound.key)).Accepts inbound.bytes := by
          by_contra stays
          exact refused (refuses.mpr (not_or.mp stays))
        obtain ⟨later, kept, unchanged⟩ := ih fun pair listed => ceiling ▸ belowRest pair listed
        refine ⟨rises.trans later, kept.trans ceiling, ?_⟩
        rw [eq_of_rises rises later, unchanged, ChargesNothing, storages_receiveOne_iff belowFirst goesOn]
        constructor
        · rintro ⟨idle, nothing⟩ -
          have same := (storages_receiveOne_iff belowFirst goesOn).mpr idle
          exact ⟨idle, (chargesNothing_congr same ceiling rest).mp nothing⟩
        · intro charges
          obtain ⟨idle, nothing⟩ := charges goesOn
          have same := (storages_receiveOne_iff belowFirst goesOn).mpr idle
          exact ⟨idle, (chargesNothing_congr same ceiling rest).mpr nothing⟩

theorem belowDelivery {push : List Inbound} (below : ∀ used ∈ push, ceilings env table used.key < i64Max)
    (delivery : Nat → Attempt) : ∀ pair ∈ deliver push delivery, ceilings env table pair.1.key < i64Max := by
  intro pair listed
  obtain ⟨index, inside, rfl⟩ := List.mem_mapIdx.mp listed
  exact below _ (List.getElem_mem inside)

/-- Repeated deliveries leave the stored bytes exactly when each of them charges nothing. -/
theorem storages_redeliver {push : List Inbound} (below : ∀ used ∈ push, ceilings env table used.key < i64Max)
    (deliveries : List (Nat → Attempt)) :
    storages env table ≤ storages env (redeliver env table push deliveries) ∧
      (storages env (redeliver env table push deliveries) = storages env table ↔
        ∀ delivery ∈ deliveries, ChargesNothing env table (deliver push delivery)) := by
  induction deliveries generalizing table with
  | nil => exact ⟨le_rfl, iff_of_true rfl fun delivery none => nomatch none⟩
  | cons delivery rest ih =>
      obtain ⟨rises, ceiling, unchanged⟩ := storages_receivePush (belowDelivery below delivery)
      obtain ⟨later, repeated⟩ := ih fun used listed => ceiling ▸ below used listed
      have step : redeliver env table push (delivery :: rest) =
        redeliver env (receivePush env table (deliver push delivery)).1 push rest := rfl
      rw [step, List.forall_mem_cons]
      refine ⟨rises.trans later, ?_⟩
      rw [eq_of_rises rises later, unchanged, repeated]
      apply and_congr_right
      intro nothing
      have same := unchanged.mpr nothing
      exact forall₂_congr fun other _ => chargesNothing_congr same ceiling _

end Push

section Loop
open AiMemory.Federation AiMemory.Crdt

variable (base : ReceiverEnvironment) (env : QuotaEnvironment) (clock : Nat → Int)

/-- The table with the readings of the clock so far. -/
def chargeLedger (ledger : QuotaTable × Nat) (agentId «namespace» : String) (bytes : Nat) :
    Charged (QuotaTable × Nat) :=
  match checkAndRecordStorageOnly ⟨agentId, «namespace», env.toRfc3339⟩ env.defaults env.realSum
      (ledger.1 (agentId, «namespace»)) (clock ledger.2) (clock (ledger.2 + 1)) bytes with
  | (row, .ok ()) => .ok (Function.update ledger.1 (agentId, «namespace») (some row), ledger.2 + 2)
  | (_, .error _) => .exceeded

def refundLedger (ledger : QuotaTable × Nat) (agentId «namespace» : String) (bytes : Nat) : QuotaTable × Nat :=
  (Function.update ledger.1 (agentId, «namespace») ((ledger.1 (agentId, «namespace»)).map fun row =>
    refundOp ⟨agentId, «namespace», env.toRfc3339⟩ row (clock ledger.2) (.memory bytes)), ledger.2 + 1)

/-- The receive loop on the quota table. -/
def chargedReceiver : ReceiverEnvironment :=
  { base with
    Ledger := QuotaTable × Nat
    checkAndRecordStorageOnly := chargeLedger env clock
    refundOp := refundLedger env clock }

variable {base env clock}

/-- The ledger refuses a memory that does not fit and charges any other. -/
theorem chargeLedger_cases (ledger : QuotaTable × Nat) (inbound : Inbound)
    (below : ceilings env ledger.1 inbound.key < i64Max) :
    (¬ (tally env.defaults (ledger.1 inbound.key)).Accepts inbound.bytes ∧
      chargeLedger env clock ledger inbound.agentId inbound.namespace inbound.bytes = .exceeded) ∨
    ((tally env.defaults (ledger.1 inbound.key)).Accepts inbound.bytes ∧ ∃ row,
      chargeLedger env clock ledger inbound.agentId inbound.namespace inbound.bytes =
        .ok (Function.update ledger.1 inbound.key (some row), ledger.2 + 2) ∧
      checkAndRecordStorageOnly (env.account inbound) env.defaults env.realSum (ledger.1 inbound.key)
        (clock ledger.2) (clock (ledger.2 + 1)) inbound.bytes = (row, .ok ())) := by
  unfold chargeLedger
  obtain ⟨full, row, breach, checked, -⟩ | ⟨fits, row, checked, -⟩ :=
    checkAndRecordStorageOnly_cases (env.account inbound) env.defaults env.realSum below (clock ledger.2)
      (clock (ledger.2 + 1)) inbound.bytes
  · simp only [QuotaEnvironment.account, Inbound.key] at checked
    exact Or.inl ⟨full, by rw [checked]⟩
  · refine Or.inr ⟨fits, row, ?_, checked⟩
    simp only [QuotaEnvironment.account, Inbound.key] at checked
    rw [checked]
    rfl

/-- The refund of a charged row replaces it. -/
theorem refundLedger_charged (table : QuotaTable) (inbound : Inbound) (row : QuotaStatus) (readings : Nat) :
    (refundLedger env clock (Function.update table inbound.key (some row), readings) inbound.agentId
        inbound.namespace inbound.bytes).1 =
      Function.update table inbound.key
        (some (refundOp (env.account inbound) row (clock readings) (.memory inbound.bytes))) := by
  have own : Function.update table inbound.key (some row) (inbound.agentId, inbound.namespace) = some row :=
    Function.update_self _ _ _
  simp only [refundLedger, own, Option.map_some]
  exact Function.update_idem _ _ _

/-- An iteration of the receive loop leaves the counters that a delivery leaves. -/
theorem pushMemory_tally (peerHeader : Option String) (senderAgentId : String)
    (receiver : Receiver (chargedReceiver base env clock)) (row : Memory)
    (now : (chargedReceiver base env clock).chrono.Instant)
    (below : ∀ key, ceilings env receiver.ledger.1 key < i64Max) :
    ∃ inbound attempt, ∀ key, tally env.defaults
        ((pushMemory (chargedReceiver base env clock) peerHeader senderAgentId receiver row now).1.ledger.1 key) =
      tally env.defaults ((receiveOne env receiver.ledger.1 inbound attempt).1 key) := by
  unfold pushMemory
  split
  · exact ⟨⟨"", "", 0⟩, ⟨.turnedAway, 0, 0, 0⟩, fun key => rfl⟩
  · rename_i received agentId _
    let inbound : Inbound := ⟨agentId, row.namespace, bytesEstimate (chargedReceiver base env clock) received⟩
    obtain ⟨full, refused⟩ | ⟨fits, stored, accepted, checked⟩ :
        (_ ∧ chargeLedger env clock receiver.ledger agentId row.namespace _ = _) ∨ _ :=
      chargeLedger_cases receiver.ledger inbound (below inbound.key)
    · split
      · exact ⟨inbound, ⟨.merged, 0, 0, 0⟩, fun key => (tally_receiveOne_full (below inbound.key) full _ key).symm⟩
      · rename_i unreadable
        cases refused.symm.trans unreadable
      · rename_i charged accepted
        cases refused.symm.trans accepted
    · split
      · rename_i exceeded
        cases accepted.symm.trans exceeded
      · rename_i unreadable
        cases accepted.symm.trans unreadable
      · rename_i charged charging
        obtain rfl := Charged.ok.inj (accepted.symm.trans charging)
        split
        · refine ⟨inbound, ⟨.merged, clock receiver.ledger.2, clock (receiver.ledger.2 + 1), 0⟩, fun key => ?_⟩
          simp only [receiveOne, checked]
          rfl
        · refine ⟨inbound, ⟨.failed, clock receiver.ledger.2, clock (receiver.ledger.2 + 1),
            clock (receiver.ledger.2 + 2)⟩, fun key => ?_⟩
          simp only [receiveOne, checked]
          exact congrArg (fun table : QuotaTable => tally env.defaults (table key))
            (refundLedger_charged receiver.ledger.1 inbound stored _)

end Loop

/-- With the refund of the other backend a failed merge leaves the counters of a row without negative bytes. -/
theorem refundStorageOnly_restores (account : Account) (defaults : QuotaDefaults) (realSum : Int → Int → Int)
    (stored : Option QuotaStatus) (ensured charged refunded : Int) (bytes : Nat) (row : QuotaStatus)
    (accepted : checkAndRecordStorageOnly account defaults realSum stored ensured charged bytes = (row, .ok ()))
    (below : (tally defaults stored).maxStorageBytes < i64Max)
    (positive : 0 ≤ (tally defaults stored).storageBytes) :
    tally defaults (some (refundStorageOnly account row refunded bytes)) = tally defaults stored := by
  obtain ⟨-, other, breach, checked, -⟩ | ⟨-, other, checked, same⟩ :=
    checkAndRecordStorageOnly_cases account defaults realSum below ensured charged bytes
  · cases checked.symm.trans accepted
  · obtain rfl : other = row := congrArg Prod.fst (checked.symm.trans accepted)
    rw [Tally.ext_iff] at same
    obtain ⟨memories, storage, links, ceiling⟩ := same
    refine Tally.ext memories ?_ links ceiling
    simp only [tally, refundStorageOnly] at storage ⊢
    rw [storage, add_sub_cancel_right]
    exact max_eq_left positive

/-- A failed merge costs nothing, and neither does another delivery of a push that was applied whole. -/
structure ReceiveNeutral (env : QuotaEnvironment) (table : QuotaTable) (inbound : Inbound) (push : List Inbound)
    (first : Nat → Attempt) (later : List (Nat → Attempt)) : Prop where
  refunded : FailedMergeNeutral env table inbound
  redelivered : ∀ stored,
    receivePush env table (deliver push first) = (stored, List.replicate push.length .applied) →
      storages env (redeliver env stored push later) = storages env stored

/-- Receiving is neutral exactly when each refund restores its counters and each later delivery charges nothing. -/
theorem receiveNeutral_iff (env : QuotaEnvironment) (table : QuotaTable) (inbound : Inbound) (push : List Inbound)
    (first : Nat → Attempt) (later : List (Nat → Attempt))
    (below : ∀ used ∈ inbound :: push, ceilings env table used.key < i64Max) :
    ReceiveNeutral env table inbound push first later ↔
      (tally env.defaults (table inbound.key)).RefundRestores inbound.bytes ∧
      ∀ stored, receivePush env table (deliver push first) = (stored, List.replicate push.length .applied) →
        ∀ delivery ∈ later, ChargesNothing env stored (deliver push delivery) := by
  obtain ⟨belowOne, belowPush⟩ := List.forall_mem_cons.mp below
  have kept : ∀ stored, receivePush env table (deliver push first) = (stored, List.replicate push.length .applied) →
      ∀ used ∈ push, ceilings env stored used.key < i64Max := by
    intro stored applied used listed
    obtain ⟨_, ceiling, _⟩ := storages_receivePush (belowDelivery belowPush first)
    rw [applied] at ceiling
    exact ceiling ▸ belowPush used listed
  rw [← failedMergeNeutral_iff belowOne]
  constructor
  · rintro ⟨refunded, redelivered⟩
    exact ⟨refunded, fun stored applied =>
      (storages_redeliver (kept stored applied) later).2.mp (redelivered stored applied)⟩
  · rintro ⟨refunded, nothing⟩
    exact ⟨refunded, fun stored applied =>
      (storages_redeliver (kept stored applied) later).2.mpr (nothing stored applied)⟩

section Samples

/-- The author stored three memories today. -/
def authorTable : QuotaTable := fun key =>
  if key = ("ai:author", "team") then
    some {
      agentId := "ai:author"
      «namespace» := "team"
      maxMemoriesPerDay := 1000
      maxStorageBytes := 104857600
      maxLinksPerDay := 5000
      currentMemoriesToday := 3
      currentStorageBytes := 600
      currentLinksToday := 0
      dayStartedAt := "2026-06-16"
      createdAt := "2026-06-16T08:00:00+00:00"
      updatedAt := "2026-06-16T09:00:00+00:00" }
  else none

def authorEnvironment : QuotaEnvironment :=
  ⟨⟨1000, 104857600, 5000⟩, fun _ => "2026-06-16T10:00:00+00:00", fun left right => left + right⟩

/-- A memory of another namespace whose merge fails costs its author nothing, and neither do two more deliveries that
are turned away. -/
theorem otherNamespace_neutral :
    ReceiveNeutral authorEnvironment authorTable ⟨"ai:author", "archive", 200⟩
      [⟨"ai:author", "team", 200⟩, ⟨"ai:reader", "team", 50⟩] (fun _ => ⟨.merged, 0, 0, 0⟩)
      [fun _ => ⟨.turnedAway, 0, 0, 0⟩, fun _ => ⟨.turnedAway, 0, 0, 0⟩] := by
  apply (receiveNeutral_iff _ _ _ _ _ _ (by decide +kernel)).mpr
  refine ⟨fun _ => by decide +kernel, fun stored _ delivery again => ?_⟩
  obtain rfl : delivery = fun _ => ⟨.turnedAway, 0, 0, 0⟩ := by simpa using again
  exact fun _ => ⟨trivial, fun _ => ⟨trivial, trivial⟩⟩

/-- A failed merge costs the author one memory of the day, and a second delivery costs the bytes again. -/
theorem authorTable_not_neutral :
    ¬ FailedMergeNeutral authorEnvironment authorTable ⟨"ai:author", "team", 200⟩ ∧
      ¬ ReceiveNeutral authorEnvironment authorTable ⟨"ai:author", "archive", 200⟩ [⟨"ai:author", "team", 200⟩]
        (fun _ => ⟨.merged, 0, 0, 0⟩) [fun _ => ⟨.merged, 0, 0, 0⟩] := by
  constructor
  · intro neutral
    have same := congrArg Tally.memoriesToday (neutral ⟨.failed, 0, 0, 0⟩ rfl ("ai:author", "team"))
    exact absurd same (by decide +kernel)
  · intro neutral
    have same := congrFun (neutral.redelivered _ (Prod.ext rfl (by decide +kernel))) ("ai:author", "team")
    exact absurd same (by decide +kernel)

end Samples
end AiMemory.Quotas
