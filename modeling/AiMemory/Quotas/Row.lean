import AiMemory.Machine.Numbers

/-
This file embeds the quota row of one agent in one namespace.
-/

namespace AiMemory.Quotas
open AiMemory.Machine

/-- The ceilings that a new row starts with. -/
structure QuotaDefaults where
  maxMemoriesPerDay : Int
  maxStorageBytes : Int
  maxLinksPerDay : Int

/-- Callers charge the length of a payload. -/
inductive QuotaOp where
  | memory (bytes : Nat)
  | link
  deriving DecidableEq

inductive QuotaLimit where
  | memoriesPerDay
  | storageBytes
  | linksPerDay
  deriving DecidableEq

structure QuotaError where
  agentId : String
  «namespace» : String
  limit : QuotaLimit
  current : Int
  max : Int
  deriving DecidableEq

structure QuotaStatus where
  agentId : String
  «namespace» : String
  maxMemoriesPerDay : Int
  maxStorageBytes : Int
  maxLinksPerDay : Int
  currentMemoriesToday : Int
  currentStorageBytes : Int
  currentLinksToday : Int
  dayStartedAt : String
  createdAt : String
  updatedAt : String
  deriving DecidableEq

/-- The first ten characters of a timestamp are its date. -/
def dayBucket (rfc3339 : String) : String := String.ofList (rfc3339.toList.take 10)

/-- The bucket of a bucket is itself. -/
theorem dayBucket_dayBucket (rfc3339 : String) : dayBucket (dayBucket rfc3339) = dayBucket rfc3339 := by
  simp [dayBucket, List.take_take]

/-- The primary key of the row and the printer of the calendar library. -/
structure Account where
  agentId : String
  «namespace» : String
  toRfc3339 : Int → String

section Calls

variable (account : Account) (defaults : QuotaDefaults)

/-- The first charge inserts the row. -/
def ensureRow (stored : Option QuotaStatus) (now : Int) : QuotaStatus :=
  stored.getD {
    agentId := account.agentId
    «namespace» := account.namespace
    maxMemoriesPerDay := defaults.maxMemoriesPerDay
    maxStorageBytes := defaults.maxStorageBytes
    maxLinksPerDay := defaults.maxLinksPerDay
    currentMemoriesToday := 0
    currentStorageBytes := 0
    currentLinksToday := 0
    dayStartedAt := dayBucket (account.toRfc3339 now)
    createdAt := account.toRfc3339 now
    updatedAt := account.toRfc3339 now }

def quotaError (limit : QuotaLimit) (current max : Int) : QuotaError :=
  ⟨account.agentId, account.namespace, limit, current, max⟩

/-- The charge on a row that has its own transaction. -/
def recordCharge (row : QuotaStatus) (now : Int) (op : QuotaOp) : Except QuotaError QuotaStatus :=
  let text := account.toRfc3339 now
  let dayRolled := dayBucket row.dayStartedAt ≠ dayBucket text
  let memoriesToday := if dayRolled then 0 else row.currentMemoriesToday
  let linksToday := if dayRolled then 0 else row.currentLinksToday
  match op with
  | .memory bytes =>
      if saturatingAdd memoriesToday 1 > row.maxMemoriesPerDay then
        .error (quotaError account .memoriesPerDay memoriesToday row.maxMemoriesPerDay)
      else if saturatingAdd row.currentStorageBytes bytes > row.maxStorageBytes then
        .error (quotaError account .storageBytes row.currentStorageBytes row.maxStorageBytes)
      else if dayRolled then
        .ok { row with
          currentMemoriesToday := 1
          currentLinksToday := 0
          currentStorageBytes := row.currentStorageBytes + bytes
          dayStartedAt := text
          updatedAt := text }
      else
        .ok { row with
          currentMemoriesToday := row.currentMemoriesToday + 1
          currentStorageBytes := row.currentStorageBytes + bytes
          updatedAt := text }
  | .link =>
      if saturatingAdd linksToday 1 > row.maxLinksPerDay then
        .error (quotaError account .linksPerDay linksToday row.maxLinksPerDay)
      else if dayRolled then
        .ok { row with
          currentMemoriesToday := 0
          currentLinksToday := 1
          dayStartedAt := text
          updatedAt := text }
      else
        .ok { row with
          currentLinksToday := row.currentLinksToday + 1
          updatedAt := text }

/-- A rejected charge leaves the row as it was. -/
def checkAndRecord (stored : Option QuotaStatus) (ensured now : Int) (op : QuotaOp) :
    QuotaStatus × Except QuotaError Unit :=
  let row := ensureRow account defaults stored ensured
  match recordCharge account row now op with
  | .error breach => (row, .error breach)
  | .ok charged => (charged, .ok ())

/-- The counters stop at zero. -/
def refundOp (row : QuotaStatus) (now : Int) : QuotaOp → QuotaStatus
  | .memory bytes =>
      { row with
        currentMemoriesToday := max (row.currentMemoriesToday - 1) 0
        currentStorageBytes := max (row.currentStorageBytes - bytes) 0
        updatedAt := account.toRfc3339 now }
  | .link =>
      { row with
        currentLinksToday := max (row.currentLinksToday - 1) 0
        updatedAt := account.toRfc3339 now }

/-- The sweep zeroes the daily counters of a row of another day. -/
def resetDaily (row : QuotaStatus) (now : Int) : QuotaStatus :=
  let text := account.toRfc3339 now
  if dayBucket row.dayStartedAt ≠ dayBucket text then
    { row with
      currentMemoriesToday := 0
      currentLinksToday := 0
      dayStartedAt := text
      updatedAt := text }
  else row

end Calls

/-- The two daily counters. -/
inductive Kind where
  | memory
  | link
  deriving DecidableEq

def QuotaOp.kind : QuotaOp → Kind
  | .memory _ => .memory
  | .link => .link

/-- A link holds no bytes. -/
def QuotaOp.bytes : QuotaOp → Nat
  | .memory bytes => bytes
  | .link => 0

def QuotaDefaults.perDay (limits : QuotaDefaults) : Kind → Int
  | .memory => limits.maxMemoriesPerDay
  | .link => limits.maxLinksPerDay

def QuotaStatus.limits (row : QuotaStatus) : QuotaDefaults :=
  ⟨row.maxMemoriesPerDay, row.maxStorageBytes, row.maxLinksPerDay⟩

/-- The counters of a row and the date that the daily ones count. -/
structure Counters where
  today : Kind → Int
  storage : Int
  date : String

def QuotaStatus.counters (row : QuotaStatus) : Counters where
  today
    | .memory => row.currentMemoriesToday
    | .link => row.currentLinksToday
  storage := row.currentStorageBytes
  date := dayBucket row.dayStartedAt

namespace Counters

/-- On a new date the daily counters start again. -/
def roll (counters : Counters) (date : String) : Counters :=
  if counters.date = date then counters else { counters with today := fun _ => 0, date }

def charge (counters : Counters) (op : QuotaOp) : Counters :=
  { counters with
    today := Function.update counters.today op.kind (counters.today op.kind + 1)
    storage := counters.storage + op.bytes }

def refund (counters : Counters) (op : QuotaOp) : Counters :=
  { counters with
    today := Function.update counters.today op.kind (max (counters.today op.kind - 1) 0)
    storage := if op.kind = .memory then max (counters.storage - op.bytes) 0 else counters.storage }

@[ext] theorem ext {first second : Counters} (today : ∀ kind, first.today kind = second.today kind)
    (storage : first.storage = second.storage) (date : first.date = second.date) : first = second := by
  cases first
  cases second
  simp only [mk.injEq]
  exact ⟨funext today, storage, date⟩

end Counters

section Refinement

variable {account : Account} {row charged : QuotaStatus} {now : Int} {op : QuotaOp}

theorem roll_of_ne {counters : Counters} {date : String} (rolled : counters.date ≠ date) :
    counters.roll date = { counters with today := fun _ => 0, date } := if_neg rolled

theorem roll_of_eq {counters : Counters} {date : String} (same : counters.date = date) :
    counters.roll date = counters := if_pos same

theorem storage_roll (counters : Counters) (date : String) :
    (counters.roll date).storage = counters.storage := by
  unfold Counters.roll
  split <;> rfl

/-- A reset rolls the counters to the new day. -/
theorem counters_resetDaily (account : Account) (row : QuotaStatus) (now : Int) :
    (resetDaily account row now).counters = row.counters.roll (dayBucket (account.toRfc3339 now)) := by
  unfold resetDaily Counters.roll
  simp only
  split
  · rename_i rolled
    rw [if_neg (show row.counters.date ≠ _ from rolled)]
    apply Counters.ext
    · intro kind
      cases kind <;> rfl
    · rfl
    · rfl
  · rename_i same
    rw [if_pos (show row.counters.date = _ from not_not.mp same)]

/-- The row that was reset starts at the new day. -/
theorem dayBucket_resetDaily (account : Account) (row : QuotaStatus) (now : Int) :
    dayBucket (resetDaily account row now).dayStartedAt = dayBucket (account.toRfc3339 now) := by
  unfold resetDaily
  simp only
  split
  · rfl
  · exact not_not.mp ‹_›

theorem limits_resetDaily (account : Account) (row : QuotaStatus) (now : Int) :
    (resetDaily account row now).limits = row.limits := by
  unfold resetDaily
  simp only
  split <;> rfl

/-- A charge rolls the row by itself, so that a sweep just before it changes nothing. -/
theorem recordCharge_resetDaily (account : Account) (row : QuotaStatus) (now : Int) (op : QuotaOp) :
    recordCharge account (resetDaily account row now) now op = recordCharge account row now op := by
  by_cases rolled : dayBucket row.dayStartedAt ≠ dayBucket (account.toRfc3339 now)
  · unfold resetDaily
    simp only [if_pos rolled]
    cases op <;> simp only [recordCharge, if_pos rolled, ne_eq, not_true, if_false] <;> rfl
  · unfold resetDaily
    simp only [if_neg rolled]

/-- On the date of the row an accepted charge adds itself within the limits. -/
theorem recordCharge_sameDay (same : dayBucket row.dayStartedAt = dayBucket (account.toRfc3339 now))
    (accepted : recordCharge account row now op = .ok charged) :
    charged.counters = row.counters.charge op ∧ charged.limits = row.limits ∧
      saturatingAdd (row.counters.today op.kind) 1 ≤ row.limits.perDay op.kind ∧
      (op.kind = .memory → saturatingAdd row.counters.storage op.bytes ≤ row.limits.maxStorageBytes) := by
  cases op with
  | memory bytes =>
      simp only [recordCharge, if_neg (not_not.mpr same)] at accepted
      split at accepted
      · cases accepted
      rename_i perDay
      split at accepted
      · cases accepted
      rename_i storage
      obtain rfl := Except.ok.inj accepted
      refine ⟨?_, rfl, not_lt.mp perDay, fun _ => not_lt.mp storage⟩
      apply Counters.ext
      · intro kind
        cases kind <;> rfl
      · rfl
      · rfl
  | link =>
      simp only [recordCharge, if_neg (not_not.mpr same)] at accepted
      split at accepted
      · cases accepted
      rename_i perDay
      obtain rfl := Except.ok.inj accepted
      refine ⟨?_, rfl, not_lt.mp perDay, fun memory => absurd memory (by decide)⟩
      apply Counters.ext
      · intro kind
        cases kind <;> rfl
      · exact (add_zero _).symm
      · rfl

/-- A charge that is accepted rolls the row to its date and adds itself within the limits. -/
theorem recordCharge_ok (accepted : recordCharge account row now op = .ok charged) :
    charged.counters = (row.counters.roll (dayBucket (account.toRfc3339 now))).charge op ∧
      charged.limits = row.limits ∧
      saturatingAdd ((row.counters.roll (dayBucket (account.toRfc3339 now))).today op.kind) 1 ≤
        row.limits.perDay op.kind ∧
      (op.kind = .memory → saturatingAdd row.counters.storage op.bytes ≤ row.limits.maxStorageBytes) := by
  rw [← recordCharge_resetDaily] at accepted
  have sameDay := recordCharge_sameDay (dayBucket_resetDaily account row now) accepted
  rw [counters_resetDaily, limits_resetDaily, storage_roll] at sameDay
  exact sameDay

theorem counters_refundOp (account : Account) (row : QuotaStatus) (now : Int) (op : QuotaOp) :
    (refundOp account row now op).counters = row.counters.refund op := by
  cases op with
  | memory bytes =>
      apply Counters.ext
      · intro kind
        cases kind <;> rfl
      · rfl
      · rfl
  | link =>
      apply Counters.ext
      · intro kind
        cases kind <;> rfl
      · rfl
      · rfl

end Refinement
end AiMemory.Quotas
