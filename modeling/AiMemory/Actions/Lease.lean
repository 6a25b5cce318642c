import AiMemory.Library.Interleaving
import AiMemory.Library.Table

/-
This file embeds the lease calls as sequences of single statements.
-/

namespace AiMemory.Actions
open AiMemory.Library

structure Lease where
  actionId : String
  holder : String
  acquiredAt : Int
  expiresAt : Int
  heartbeatAt : Int
  deriving DecidableEq

/-- A call grants the lease from its own clock value to the expiry that it asks for. -/
structure Grant where
  holder : String
  now : Int
  expiresAt : Int
  deriving DecidableEq

/-- The grant covers its clock value and no time from its expiry on. -/
def Grant.Covers (grant : Grant) (time : Int) : Prop := grant.now ≤ time ∧ time < grant.expiresAt

/-- The writes to the lease of one action. -/
inductive Entry where
  | granted (grant : Grant)
  | released (holder : String)
  | swept (holder : String)
  deriving DecidableEq

/-- The database with the wall clock that callers read. No call reads the history of the writes,
which has the newest entry first. -/
structure Store where
  clock : Int
  leases : Table Lease.actionId
  history : String → List Entry

inductive LeaseAcquire where
  | conflict
  | acquired (lease : Lease)
  deriving DecidableEq

inductive LeaseAnswer where
  | acquire (outcome : LeaseAcquire)
  | renew (lease : Option Lease)
  | release (deleted : Bool)
  | sweep (reclaimed : Nat)
  | queryReturnedNoRows
  deriving DecidableEq

inductive LeaseRequest where
  | acquire (actionId holder : String) (now expiresAt : Int)
  | renew (actionId holder : String) (now expiresAt : Int)
  | release (actionId holder : String)
  | sweep (now : Int)

/-- A call in flight stands after one of its statements. An admitted call remembers the length of the
history at its check. -/
inductive LeaseCall where
  | admitted (actionId : String) (grant : Grant) (seen : Nat)
  | inserted (actionId : String)
  | renewed (actionId : String)
  | returned (answer : LeaseAnswer)
  deriving DecidableEq

namespace Store

/-- A call that starts reads the wall clock. -/
def atTime (store : Store) (now : Int) : Store := { store with clock := now }

def record (store : Store) (actionId : String) (entry : Entry) : Store :=
  { store with history := Function.update store.history actionId (entry :: store.history actionId) }

def ownedBy (actionId holder : String) (lease : Lease) : Bool :=
  lease.actionId = actionId ∧ lease.holder = holder

/-- The statement `INSERT OR REPLACE`. -/
def insertOrReplace (store : Store) (actionId : String) (grant : Grant) : Store :=
  { store with
    leases := store.leases.upsert {
      actionId
      holder := grant.holder
      acquiredAt := grant.now
      expiresAt := grant.expiresAt
      heartbeatAt := grant.now } }.record actionId (.granted grant)

/-- The statement `UPDATE` of the owned lease. -/
def extend (store : Store) (actionId : String) (grant : Grant) : Store :=
  { store with
    leases := store.leases.modify (ownedBy actionId grant.holder)
      (fun lease => { lease with expiresAt := grant.expiresAt, heartbeatAt := grant.now })
      fun _ => rfl }.record actionId (.granted grant)

/-- The statement `DELETE` of the owned lease. -/
def drop (store : Store) (actionId holder : String) : Store :=
  { store with leases := store.leases.delete (ownedBy actionId holder) }.record actionId
    (.released holder)

def expired (now : Int) (lease : Lease) : Bool := lease.expiresAt ≤ now

/-- A sweep ends the lease of an action when it has expired. -/
def sweptHistory (lease : Option Lease) (now : Int) (history : List Entry) : List Entry :=
  match lease.filter (expired now) with
  | none => history
  | some lease => .swept lease.holder :: history

/-- The statement `DELETE` of the expired leases. -/
def dropExpired (store : Store) (now : Int) : Store where
  clock := store.clock
  leases := store.leases.delete (expired now)
  history actionId := sweptHistory (store.leases.lookup actionId) now (store.history actionId)

end Store

/-- The second read of a call fetches the row that it wrote or a later one. -/
def refetchLease (store : Store) (actionId : String) (wrap : Lease → LeaseAnswer) : LeaseAnswer :=
  match store.leases.lookup actionId with
  | none => .queryReturnedNoRows
  | some lease => wrap lease

/-- The first statement of a call. -/
def enterLease (request : LeaseRequest) (store : Store) : Store × LeaseCall :=
  match request with
  | .acquire actionId holder now expiresAt =>
      let admitted := LeaseCall.admitted actionId ⟨holder, now, expiresAt⟩ (store.history actionId).length
      (store.atTime now, match store.leases.lookup actionId with
        | none => admitted
        | some existing =>
            if existing.expiresAt > now ∧ existing.holder ≠ holder then .returned (.acquire .conflict)
            else admitted)
  | .renew actionId holder now expiresAt =>
      if (store.leases.lookup actionId).any (Store.ownedBy actionId holder) then
        ((store.atTime now).extend actionId ⟨holder, now, expiresAt⟩, .renewed actionId)
      else (store.atTime now, .returned (.renew none))
  | .release actionId holder =>
      if (store.leases.lookup actionId).any (Store.ownedBy actionId holder) then
        (store.drop actionId holder, .returned (.release true))
      else (store, .returned (.release false))
  | .sweep now =>
      ((store.atTime now).dropExpired now,
        .returned (.sweep (store.leases.rows.countP (Store.expired now))))

/-- The next statement of a call. -/
def leaseStatement (call : LeaseCall) (store : Store) : Store × LeaseCall :=
  match call with
  -- The insertion has no guard on the lease that the first statement read.
  | .admitted actionId grant _ => (store.insertOrReplace actionId grant, .inserted actionId)
  | .inserted actionId =>
      (store, .returned (refetchLease store actionId fun lease => .acquire (.acquired lease)))
  | .renewed actionId =>
      (store, .returned (refetchLease store actionId fun lease => .renew (some lease)))
  | .returned answer => (store, .returned answer)

/-- One turn of one of the calls on the shared database. -/
def leaseTurn (session : Session Store LeaseCall) : Turn LeaseRequest → Session Store LeaseCall :=
  session.next enterLease leaseStatement

/-- The clock value that a call starts with. -/
def LeaseRequest.now? : LeaseRequest → Option Int
  | .acquire _ _ now _ => some now
  | .renew _ _ now _ => some now
  | .release _ _ => none
  | .sweep now => some now

/-- No call starts with an earlier clock value than the calls before it. -/
def Clocked (session : Session Store LeaseCall) : Turn LeaseRequest → Prop
  | .start request => ∀ now ∈ request.now?, session.shared.clock ≤ now
  | .resume _ => True

instance (session : Session Store LeaseCall) : (turn : Turn LeaseRequest) → Decidable (Clocked session turn)
  | .start request => inferInstanceAs (Decidable (∀ now ∈ request.now?, _ ≤ now))
  | .resume _ => .isTrue trivial

end AiMemory.Actions
