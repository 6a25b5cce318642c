import AiMemory.Library.Run
import AiMemory.Machine.Chrono
import AiMemory.Quotas.Row
import Mathlib.Algebra.Order.BigOperators.Group.List

/-
This file proves when the daily quotas are never overspent.
-/

namespace AiMemory.Quotas
open AiMemory.Machine AiMemory.Library

/-- The UTC day of an instant in seconds. -/
def utcDay (instant : Int) : Int := instant / 86400

/-- An accepted charge and whether a refund has matched it. -/
structure Charge where
  op : QuotaOp
  acceptedAt : Int
  refunded : Bool
  deriving DecidableEq

/-- The charge counts against the limit of its kind on its day. -/
def Charge.counts (kind : Kind) (day : Int) (charge : Charge) : Bool :=
  charge.refunded = false ∧ charge.op.kind = kind ∧ utcDay charge.acceptedAt = day

def Charge.held (charge : Charge) : Int := if charge.refunded then 0 else charge.op.bytes

def Charge.refund (charge : Charge) : Charge := { charge with refunded := true }

/-- The charges of a kind that a day has accepted and no refund has matched. -/
def number (charges : List Charge) (kind : Kind) (day : Int) : Int :=
  (charges.countP fun charge => charge.counts kind day : Nat)

def heldBytes (charges : List Charge) : Int := (charges.map Charge.held).sum

section Ledger

variable {charges : List Charge} {charge : Charge} {index : Nat}

theorem number_append (charges : List Charge) (charge : Charge) (kind : Kind) (day : Int) :
    number (charges ++ [charge]) kind day =
      number charges kind day + if charge.counts kind day then 1 else 0 := by
  unfold number
  rw [List.countP_append, List.countP_singleton]
  split <;> simp

theorem heldBytes_append (charges : List Charge) (charge : Charge) :
    heldBytes (charges ++ [charge]) = heldBytes charges + charge.held := by
  simp [heldBytes]

theorem not_counts_refund (charge : Charge) (kind : Kind) (day : Int) :
    charge.refund.counts kind day = false := by
  simp [Charge.counts, Charge.refund]

/-- A refund takes its charge out of the count of its own kind and day. -/
theorem number_refund (present : charges[index]? = some charge) (kind : Kind) (day : Int) :
    number (charges.set index charge.refund) kind day =
      number charges kind day - if charge.counts kind day then 1 else 0 := by
  obtain ⟨within, rfl⟩ := List.getElem?_eq_some_iff.mp present
  unfold number
  rw [List.countP_set within, not_counts_refund]
  by_cases counted : charges[index].counts kind day = true
  · have positive : 0 < charges.countP fun charge => charge.counts kind day :=
      List.countP_pos_iff.mpr ⟨_, List.getElem_mem within, counted⟩
    simp only [counted, if_true, Bool.false_eq_true, if_false]
    omega
  · simp only [counted, Bool.false_eq_true, if_false]
    omega

/-- A refund gives back the bytes that the charge held. -/
theorem heldBytes_refund (present : charges[index]? = some charge) :
    heldBytes (charges.set index charge.refund) = heldBytes charges - charge.held := by
  obtain ⟨within, rfl⟩ := List.getElem?_eq_some_iff.mp present
  have released : charges[index].refund.held = 0 := by simp [Charge.held, Charge.refund]
  rw [heldBytes, List.map_set, List.sum_set', heldBytes]
  simp [within, released]
  omega

theorem number_nonneg (charges : List Charge) (kind : Kind) (day : Int) : 0 ≤ number charges kind day :=
  Int.natCast_nonneg _

theorem held_le_heldBytes (present : charges[index]? = some charge) : charge.held ≤ heldBytes charges := by
  have nonneg : ∀ bytes ∈ charges.map Charge.held, 0 ≤ bytes := by
    intro bytes listed
    obtain ⟨other, _, rfl⟩ := List.mem_map.mp listed
    unfold Charge.held
    split <;> omega
  exact List.single_le_sum nonneg _ (List.mem_map_of_mem (List.mem_of_getElem? present))

/-- A day after every charge has accepted none. -/
theorem number_eq_zero {day : Int} (past : ∀ charge ∈ charges, utcDay charge.acceptedAt < day) (kind : Kind) :
    number charges kind day = 0 := by
  unfold number
  rw [Int.natCast_eq_zero, List.countP_eq_zero]
  intro charge present counted
  have same : utcDay charge.acceptedAt = day := (of_decide_eq_true counted).2.2
  exact absurd same (past charge present).ne

end Ledger

/-- The counters of a day agree with the charges and stay within the limits. -/
structure Balanced (limits : QuotaDefaults) (day : Int) (counters : Counters) (charges : List Charge) :
    Prop where
  perDay : ∀ kind day, number charges kind day ≤ limits.perDay kind
  today : ∀ kind, counters.today kind = number charges kind day
  held : counters.storage = heldBytes charges
  storage : counters.storage ≤ limits.maxStorageBytes
  past : ∀ charge ∈ charges, utcDay charge.acceptedAt ≤ day

namespace Balanced

variable {limits : QuotaDefaults} {day : Int} {counters : Counters} {charges : List Charge}

/-- A later day starts with no charges. -/
theorem restart (balanced : Balanced limits day counters charges) {later : Int} (after : day < later)
    (date : String) : Balanced limits later { counters with today := fun _ => 0, date } charges where
  perDay := balanced.perDay
  today kind := by
    have before : ∀ charge ∈ charges, utcDay charge.acceptedAt < later := fun charge present =>
      (balanced.past charge present).trans_lt after
    exact (number_eq_zero before kind).symm
  held := balanced.held
  storage := balanced.storage
  past charge present := (balanced.past charge present).trans after.le

/-- A charge within the limits joins the charges of its day. -/
theorem charge (balanced : Balanced limits day counters charges) {op : QuotaOp} {now : Int}
    (today : utcDay now = day) (countable : counters.today op.kind + 1 ≤ limits.perDay op.kind)
    (storable : counters.storage + op.bytes ≤ limits.maxStorageBytes) :
    Balanced limits day (counters.charge op) (charges ++ [⟨op, now, false⟩]) where
  perDay kind other := by
    rw [number_append]
    have before := balanced.perDay kind other
    split
    · rename_i counted
      obtain ⟨_, sameKind, sameDay⟩ := of_decide_eq_true counted
      simp only at sameKind sameDay
      rw [balanced.today, sameKind] at countable
      rwa [← sameDay, today]
    · omega
  today kind := by
    rw [number_append]
    by_cases same : op.kind = kind
    · subst same
      have counted : (⟨op, now, false⟩ : Charge).counts op.kind day = true := by simp [Charge.counts, today]
      simp [Counters.charge, balanced.today, counted]
    · have uncounted : (⟨op, now, false⟩ : Charge).counts kind day = false := by simp [Charge.counts, same]
      simp [Counters.charge, balanced.today, uncounted, Function.update_of_ne (Ne.symm same)]
  held := by
    rw [heldBytes_append, ← balanced.held]
    rfl
  storage := storable
  past other present := by
    rcases List.mem_append.mp present with older | fresh
    · exact balanced.past other older
    · rw [List.mem_singleton.mp fresh]
      exact today.le

/-- A refund gives the bytes of its charge back, and the counter does not stop at zero. -/
theorem storage_refund (balanced : Balanced limits day counters charges) {index : Nat} {charge : Charge}
    (present : charges[index]? = some charge) (unmatched : charge.refunded = false) :
    (counters.refund charge.op).storage = counters.storage - charge.held := by
  have within := held_le_heldBytes present
  have before := balanced.held
  have own : charge.held = charge.op.bytes := by simp [Charge.held, unmatched]
  rw [own] at within ⊢
  cases op : charge.op with
  | memory bytes =>
      rw [op] at within
      simp only [Counters.refund, QuotaOp.kind, QuotaOp.bytes, if_true] at within ⊢
      omega
  | link => exact (sub_zero _).symm

/-- A refund takes its charge out when the counters still count its day, or count nothing. -/
theorem refund (balanced : Balanced limits day counters charges) {index : Nat} {charge : Charge}
    (present : charges[index]? = some charge) (unmatched : charge.refunded = false)
    (inTime : utcDay charge.acceptedAt = day ∨ counters.today charge.op.kind = 0) :
    Balanced limits day (counters.refund charge.op) (charges.set index charge.refund) where
  perDay kind other := by
    rw [number_refund present]
    have before := balanced.perDay kind other
    split <;> omega
  today kind := by
    rw [number_refund present]
    have before := balanced.today kind
    have nonneg := number_nonneg charges kind day
    have after := number_nonneg (charges.set index charge.refund) kind day
    rw [number_refund present] at after
    by_cases same : charge.op.kind = kind
    · subst same
      simp only [Counters.refund, Function.update_self]
      by_cases counted : charge.counts charge.op.kind day = true
      · simp only [counted, if_true] at after ⊢
        omega
      · have otherDay : utcDay charge.acceptedAt ≠ day := by
          simpa [Charge.counts, unmatched] using counted
        have empty := inTime.resolve_left otherDay
        simp only [counted, Bool.false_eq_true, if_false]
        omega
    · have uncounted : charge.counts kind day = false := by simp [Charge.counts, same]
      simp [Counters.refund, Function.update_of_ne (Ne.symm same), before, uncounted]
  held := by rw [balanced.storage_refund present unmatched, heldBytes_refund present, balanced.held]
  storage := by
    have before := balanced.storage
    have nonneg : 0 ≤ charge.held := by
      unfold Charge.held
      split <;> omega
    rw [balanced.storage_refund present unmatched]
    omega
  past other listed := by
    rcases List.mem_or_eq_of_mem_set listed with older | rfl
    · exact balanced.past other older
    · exact balanced.past charge (List.mem_of_getElem? present)

end Balanced

inductive Call where
  | checkAndRecord (ensured now : Int) (op : QuotaOp)
  | refundOp (now : Int) (index : Nat)
  | resetDaily (now : Int)

/-- The readings of the clock by a call. -/
def Call.times : Call → List Int
  | .checkAndRecord ensured now _ => [ensured, now]
  | .refundOp now _ => [now]
  | .resetDaily now => [now]

/-- The row, with the wall clock and the charges that were accepted, which no call reads. -/
structure Quota where
  clock : Int
  row : Option QuotaStatus
  charges : List Charge

section Runs

variable (account : Account) (limits : QuotaDefaults)

/-- A refund matches an accepted charge that no other refund has matched. -/
def Quota.next (quota : Quota) : Call → Quota
  | .checkAndRecord ensured now op =>
      let (row, result) := checkAndRecord account limits quota.row ensured now op
      { clock := now
        row := some row
        charges := match result with
          | .ok _ => quota.charges ++ [⟨op, now, false⟩]
          | .error _ => quota.charges }
  | .refundOp now index =>
      match quota.charges[index]? with
      | none => quota
      | some charge =>
          if charge.refunded then quota
          else
            { clock := now
              row := quota.row.map fun row => refundOp account row now charge.op
              charges := quota.charges.set index charge.refund }
  | .resetDaily now =>
      { clock := now
        row := quota.row.map fun row => resetDaily account row now
        charges := quota.charges }

/-- The clock never goes backwards. -/
def Clocked (quota : Quota) : Call → Prop
  | .checkAndRecord ensured now _ => quota.clock ≤ ensured ∧ ensured ≤ now
  | .refundOp now _ => quota.clock ≤ now
  | .resetDaily now => quota.clock ≤ now

/-- The dates of two readings are the same exactly when their UTC days are. -/
def ReadsDays (times : List Int) : Prop :=
  ∀ first ∈ times, ∀ second ∈ times,
    dayBucket (account.toRfc3339 first) = dayBucket (account.toRfc3339 second) ↔
      utcDay first = utcDay second

/-- A sum reaches the end of the machine integers only below a limit that is not their end. -/
def Countable (current amount limit : Int) : Prop := current + amount ≤ i64Max ∨ limit < i64Max

/-- A charge keeps its counters among the machine integers. A refund finds the row on the date of its
charge, or finds the daily counter of its kind at zero. -/
def Spares (quota : Quota) : Call → Prop
  | .checkAndRecord ensured _ op =>
      let counters := (ensureRow account limits quota.row ensured).counters
      Countable (counters.today op.kind) 1 (limits.perDay op.kind) ∧
        Countable counters.storage op.bytes limits.maxStorageBytes
  | .refundOp _ index =>
      ∀ charge ∈ quota.charges[index]?, charge.refunded = false → ∀ row ∈ quota.row,
        row.counters.date = dayBucket (account.toRfc3339 charge.acceptedAt) ∨
          row.counters.today charge.op.kind = 0
  | .resetDaily _ => True

/-- No day has accepted more charges than its limit, and the storage counter holds their bytes. -/
structure NeverOverspent (quota : Quota) : Prop where
  perDay : ∀ kind day, number quota.charges kind day ≤ limits.perDay kind
  storage : ∀ row ∈ quota.row,
    row.currentStorageBytes = heldBytes quota.charges ∧ row.currentStorageBytes ≤ limits.maxStorageBytes

/-- The row counts the day of an earlier reading, and its counters are balanced. -/
structure Started (times : List Int) (quota : Quota) (row : QuotaStatus) (started : Int) : Prop where
  sameLimits : row.limits = limits
  listed : started ∈ times
  earlier : started ≤ quota.clock
  date : row.counters.date = dayBucket (account.toRfc3339 started)
  accepted : ∀ charge ∈ quota.charges, charge.acceptedAt ∈ times
  balanced : Balanced limits (utcDay started) row.counters quota.charges

/-- A quota without a row has no charges. -/
def Invariant (times : List Int) (quota : Quota) : Prop :=
  match quota.row with
  | none => quota.charges = []
  | some row => ∃ started, Started account limits times quota row started

end Runs

variable {account : Account} {limits : QuotaDefaults} {times : List Int} {quota : Quota}

theorem utcDay_mono {first second : Int} (later : first ≤ second) : utcDay first ≤ utcDay second :=
  Int.ediv_le_ediv (by decide) later

/-- Rolling the row to the date of a later reading keeps it balanced on the day of that reading. -/
theorem Started.roll {row : QuotaStatus} {started now : Int}
    (invariant : Started account limits times quota row started) (reads : ReadsDays account times)
    (listed : now ∈ times) (later : quota.clock ≤ now) :
    Balanced limits (utcDay now) (row.counters.roll (dayBucket (account.toRfc3339 now))) quota.charges := by
  have sameDay := reads started invariant.listed now listed
  rw [← invariant.date] at sameDay
  by_cases same : row.counters.date = dayBucket (account.toRfc3339 now)
  · rw [roll_of_eq same, ← sameDay.mp same]
    exact invariant.balanced
  · rw [roll_of_ne same]
    have notEarlier := utcDay_mono (invariant.earlier.trans later)
    exact invariant.balanced.restart (lt_of_le_of_ne notEarlier fun equal => same (sameDay.mpr equal)) _

/-- A new row is balanced on the day of its insertion. -/
theorem balanced_empty (perDay : ∀ kind, 0 ≤ limits.perDay kind) (storable : 0 ≤ limits.maxStorageBytes)
    (day : Int) (date : String) : Balanced limits day ⟨fun _ => 0, 0, date⟩ [] where
  perDay kind _ := perDay kind
  today _ := rfl
  held := rfl
  storage := storable
  past _ present := absurd present List.not_mem_nil

/-- The row of a charge is balanced before the charge. -/
theorem started_ensureRow (perDay : ∀ kind, 0 ≤ limits.perDay kind) (storable : 0 ≤ limits.maxStorageBytes)
    {ensured : Int} (invariant : Invariant account limits times quota) (listed : ensured ∈ times)
    (later : quota.clock ≤ ensured) :
    ∃ started, Started account limits times { quota with clock := ensured }
      (ensureRow account limits quota.row ensured) started := by
  unfold Invariant at invariant
  split at invariant
  · rename_i absent
    have fresh : (ensureRow account limits none ensured).counters =
        ⟨fun _ => 0, 0, dayBucket (account.toRfc3339 ensured)⟩ := by
      apply Counters.ext
      · intro kind
        cases kind <;> rfl
      · rfl
      · exact dayBucket_dayBucket _
    rw [absent]
    refine ⟨ensured, rfl, listed, le_rfl, by rw [fresh], by simp [invariant], ?_⟩
    rw [fresh, invariant]
    exact balanced_empty perDay storable _ _
  · rename_i row stored
    obtain ⟨started, held⟩ := invariant
    rw [stored]
    exact ⟨started, held.sameLimits, held.listed, held.earlier.trans later, held.date, held.accepted,
      held.balanced⟩

/-- A countable sum that the saturating check admits is within the limit. -/
theorem le_of_countable {current amount limit : Int} (countable : Countable current amount limit)
    (checked : saturatingAdd current amount ≤ limit) : current + amount ≤ limit := by
  unfold saturatingAdd i64Min at checked
  rcases countable with inside | below <;> omega

/-- A roll leaves room for one more. -/
theorem countable_roll {counters : Counters} {kind : Kind} {limit : Int}
    (countable : Countable (counters.today kind) 1 limit) (date : String) :
    Countable ((counters.roll date).today kind) 1 limit := by
  unfold Counters.roll
  split
  · exact countable
  · exact .inl (show (0 : Int) + 1 ≤ i64Max by decide)

theorem date_roll (counters : Counters) (date : String) : (counters.roll date).date = date := by
  unfold Counters.roll
  split
  · assumption
  · rfl

/-- A charge that keeps its counters countable keeps the invariant. -/
theorem invariant_checkAndRecord (perDay : ∀ kind, 0 ≤ limits.perDay kind)
    (storable : 0 ≤ limits.maxStorageBytes) (reads : ReadsDays account times) {ensured now : Int}
    {op : QuotaOp} (listed : ∀ time ∈ (Call.checkAndRecord ensured now op).times, time ∈ times)
    (clocked : Clocked quota (.checkAndRecord ensured now op))
    (spares : Spares account limits quota (.checkAndRecord ensured now op))
    (invariant : Invariant account limits times quota) :
    Invariant account limits times (quota.next account limits (.checkAndRecord ensured now op)) := by
  obtain ⟨ensuredListed, nowListed⟩ : ensured ∈ times ∧ now ∈ times := by
    simpa [Call.times] using listed
  obtain ⟨started, held⟩ := started_ensureRow perDay storable invariant ensuredListed clocked.1
  obtain ⟨countable, storableOp⟩ := spares
  simp only [Invariant, Quota.next, checkAndRecord]
  cases outcome : recordCharge account (ensureRow account limits quota.row ensured) now op with
  | error breach =>
      exact ⟨started, held.sameLimits, held.listed, held.earlier.trans clocked.2, held.date, held.accepted,
        held.balanced⟩
  | ok charged =>
      obtain ⟨counters, sameLimits, checkedToday, checkedStorage⟩ := recordCharge_ok outcome
      rw [held.sameLimits] at checkedToday checkedStorage
      have rolled := held.roll reads nowListed clocked.2
      refine ⟨now, sameLimits.trans held.sameLimits, nowListed, le_rfl, ?_, ?_, ?_⟩
      · rw [counters]
        exact date_roll _ _
      · intro charge present
        rcases List.mem_append.mp present with older | fresh
        · exact held.accepted charge older
        · rw [List.mem_singleton.mp fresh]
          exact nowListed
      · rw [counters]
        apply rolled.charge rfl (le_of_countable (countable_roll countable _) checkedToday)
        rw [storage_roll]
        cases op with
        | memory bytes => exact le_of_countable storableOp (checkedStorage rfl)
        | link => simpa [QuotaOp.bytes] using held.balanced.storage

/-- A refund in time keeps the invariant. -/
theorem invariant_refundOp (reads : ReadsDays account times) {now : Int} {index : Nat}
    (clocked : Clocked quota (.refundOp now index))
    (spares : Spares account limits quota (.refundOp now index))
    (invariant : Invariant account limits times quota) :
    Invariant account limits times (quota.next account limits (.refundOp now index)) := by
  simp only [Quota.next]
  split
  · exact invariant
  rename_i charge present
  split
  · exact invariant
  rename_i unmatched
  have unmatched : charge.refunded = false := by simpa using unmatched
  unfold Invariant at invariant ⊢
  split at invariant
  · rename_i absent
    rw [invariant] at present
    cases present
  rename_i row stored
  obtain ⟨started, held⟩ := invariant
  have inTime : utcDay charge.acceptedAt = utcDay started ∨ row.counters.today charge.op.kind = 0 := by
    refine (spares charge present unmatched row stored).imp (fun sameDate => ?_) id
    rw [held.date] at sameDate
    have accepted := held.accepted charge (List.mem_of_getElem? present)
    exact ((reads started held.listed _ accepted).mp sameDate).symm
  simp only [stored, Option.map_some]
  have counters := counters_refundOp account row now charge.op
  refine ⟨started, ?_, held.listed, held.earlier.trans clocked, ?_, ?_, ?_⟩
  · rw [← held.sameLimits]
    cases charge.op <;> rfl
  · rw [counters, ← held.date]
    rfl
  · intro other listed
    rcases List.mem_or_eq_of_mem_set listed with older | rfl
    · exact held.accepted other older
    · exact held.accepted charge (List.mem_of_getElem? present)
  · rw [counters]
    exact held.balanced.refund present unmatched inTime

/-- A sweep keeps the invariant. -/
theorem invariant_resetDaily (reads : ReadsDays account times) {now : Int} (listed : now ∈ times)
    (later : quota.clock ≤ now) (invariant : Invariant account limits times quota) :
    Invariant account limits times (quota.next account limits (.resetDaily now)) := by
  unfold Invariant at invariant ⊢
  simp only [Quota.next]
  split at invariant
  · rename_i absent
    simpa [absent] using invariant
  rename_i row stored
  obtain ⟨started, held⟩ := invariant
  have rolled := held.roll reads listed later
  have counters := counters_resetDaily account row now
  simp only [stored, Option.map_some]
  refine ⟨now, ?_, listed, le_rfl, ?_, held.accepted, ?_⟩
  · rw [← held.sameLimits, resetDaily]
    split <;> rfl
  · rw [counters, date_roll]
  · rw [counters]
    exact rolled

/-- The invariant keeps the quota within its limits. -/
theorem neverOverspent_of_invariant (perDay : ∀ kind, 0 ≤ limits.perDay kind)
    (invariant : Invariant account limits times quota) : NeverOverspent limits quota := by
  unfold Invariant at invariant
  split at invariant
  · rename_i absent
    refine ⟨fun kind day => ?_, by simp [absent]⟩
    rw [invariant]
    exact perDay kind
  · rename_i row stored
    obtain ⟨started, held⟩ := invariant
    refine ⟨held.balanced.perDay, fun other present => ?_⟩
    obtain rfl := Option.some.inj (stored.symm.trans present)
    exact ⟨held.balanced.held, held.balanced.storage⟩

/-- The quotas are never overspent in a run whose refunds are in time and whose counters stay machine
integers. -/
theorem quotas_neverOverspent (account : Account) (limits : QuotaDefaults)
    (perDay : ∀ kind, 0 ≤ limits.perDay kind) (storable : 0 ≤ limits.maxStorageBytes) (start : Int)
    (calls : List Call) (reads : ReadsDays account (calls.flatMap Call.times))
    (clocked : EveryStep (Quota.next account limits) Clocked ⟨start, none, []⟩ calls)
    (spares : EveryStep (Quota.next account limits) (Spares account limits) ⟨start, none, []⟩ calls) :
    NeverOverspent limits (run (Quota.next account limits) ⟨start, none, []⟩ calls) := by
  have listed : ∀ call ∈ calls, ∀ time ∈ call.times, time ∈ calls.flatMap Call.times :=
    fun call present time read => List.mem_flatMap.mpr ⟨call, present, read⟩
  have kept : ∀ quota call, ((Clocked quota call ∧ Spares account limits quota call) ∧
      ∀ time ∈ call.times, time ∈ calls.flatMap Call.times) →
      Invariant account limits (calls.flatMap Call.times) quota →
      Invariant account limits (calls.flatMap Call.times) (quota.next account limits call) := by
    rintro quota call ⟨⟨clocked, spares⟩, listed⟩ invariant
    cases call with
    | checkAndRecord ensured now op =>
        exact invariant_checkAndRecord perDay storable reads listed clocked spares invariant
    | refundOp now index => exact invariant_refundOp reads clocked spares invariant
    | resetDaily now =>
        exact invariant_resetDaily reads (listed now List.mem_cons_self) clocked invariant
  exact neverOverspent_of_invariant perDay
    (run_invariant kept ((clocked.and spares).and_forall listed) rfl)

section Samples

/-- Readings in seconds from the first midnight. -/
def sampleAccount : Account where
  agentId := "ai:alice"
  «namespace» := "_global"
  toRfc3339 := (Chrono.ofTable
    [("2026-06-16T10:00:00+00:00", 36000), ("2026-06-16T23:59:59+00:00", 86399),
      ("2026-06-17T00:00:01+00:00", 86401), ("2026-06-17T10:00:00+00:00", 122400)]).toRfc3339

def oneADay : QuotaDefaults := ⟨1, 100, 1⟩

instance (account : Account) (times : List Int) : Decidable (ReadsDays account times) :=
  inferInstanceAs (Decidable (∀ first ∈ times, ∀ second ∈ times, _ ↔ _))

instance (quota : Quota) : (call : Call) → Decidable (Clocked quota call)
  | .checkAndRecord .. => inferInstanceAs (Decidable (_ ∧ _))
  | .refundOp .. | .resetDaily .. => inferInstanceAs (Decidable (_ ≤ _))

instance (current amount limit : Int) : Decidable (Countable current amount limit) :=
  inferInstanceAs (Decidable (_ ∨ _))

instance (account : Account) (limits : QuotaDefaults) (quota : Quota) :
    (call : Call) → Decidable (Spares account limits quota call)
  | .checkAndRecord .. => inferInstanceAs (Decidable (Countable _ _ _ ∧ Countable _ _ _))
  | .refundOp _ index =>
      inferInstanceAs (Decidable (∀ charge ∈ quota.charges[index]?, _ → ∀ row ∈ quota.row, _ ∨ _))
  | .resetDaily _ => .isTrue trivial

/-- A charge is refunded on its own day, and the day rolls over. -/
def sparingCalls : List Call :=
  [.checkAndRecord 36000 36000 (.memory 40), .refundOp 86399 0, .checkAndRecord 86399 86399 (.memory 50),
    .resetDaily 86401, .checkAndRecord 122400 122400 .link, .checkAndRecord 122400 122400 (.memory 50)]

theorem sparingCalls_withinLimits :
    NeverOverspent oneADay (run (Quota.next sampleAccount oneADay) ⟨0, none, []⟩ sparingCalls) :=
  quotas_neverOverspent sampleAccount oneADay (by intro kind; cases kind <;> decide) (by decide) 0
    sparingCalls (by decide +kernel) (by decide +kernel) (by decide +kernel)

/-- The refund of a charge of the first day comes after the first charge of the second. -/
def lateRefund : List Call :=
  [.checkAndRecord 86399 86399 (.memory 10), .checkAndRecord 86401 86401 (.memory 10), .refundOp 86401 0,
    .checkAndRecord 122400 122400 (.memory 10)]

/-- The second day accepts two charges although its limit is one. -/
theorem lateRefund_overspends :
    ReadsDays sampleAccount (lateRefund.flatMap Call.times) ∧
      EveryStep (Quota.next sampleAccount oneADay) Clocked ⟨0, none, []⟩ lateRefund ∧
      ¬ NeverOverspent oneADay (run (Quota.next sampleAccount oneADay) ⟨0, none, []⟩ lateRefund) := by
  refine ⟨by decide +kernel, by decide +kernel, fun within => ?_⟩
  have two :
      number (run (Quota.next sampleAccount oneADay) ⟨0, none, []⟩ lateRefund).charges .memory 1 = 2 := by
    decide +kernel
  have bound := within.perDay .memory 1
  rw [two] at bound
  exact absurd bound (by decide)

end Samples
end AiMemory.Quotas
