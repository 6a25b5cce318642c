import AiMemory.Actions.Lease
import Mathlib.Algebra.Order.Group.Int

/-
This file proves when the leases of an action exclude each other.
-/

namespace AiMemory.Actions
open AiMemory.Library

/-- Two grants to different holders cover no common time when the first holder has neither released its
lease nor lost it to a sweep between them. -/
def Exclusive (history : List Entry) : Prop :=
  ∀ later between earlier first second,
    history = later ++ .granted second :: (between ++ .granted first :: earlier) →
    first.holder ≠ second.holder → .released first.holder ∉ between → .swept first.holder ∉ between →
    ∀ time, ¬(first.Covers time ∧ second.Covers time)

/-- The grants that no release and no sweep has ended. -/
def live : List Entry → List Grant
  | [] => []
  | .granted grant :: earlier => grant :: live earlier
  | .released holder :: earlier => (live earlier).filter fun grant => grant.holder ≠ holder
  | .swept holder :: earlier => (live earlier).filter fun grant => grant.holder ≠ holder

/-- A grant stays live until its holder releases the lease or loses it. -/
theorem mem_live {between earlier : List Entry} {grant : Grant}
    (unreleased : .released grant.holder ∉ between) (unswept : .swept grant.holder ∉ between) :
    grant ∈ live (between ++ .granted grant :: earlier) := by
  induction between with
  | nil => exact List.mem_cons_self
  | cons entry between ih =>
      obtain ⟨notReleased, unreleased⟩ := List.ne_and_not_mem_of_not_mem_cons unreleased
      obtain ⟨notSwept, unswept⟩ := List.ne_and_not_mem_of_not_mem_cons unswept
      have held := ih unreleased unswept
      cases entry with
      | granted other => exact List.mem_cons_of_mem other held
      | released holder =>
          refine List.mem_filter.mpr ⟨held, decide_eq_true fun same => notReleased ?_⟩
          rw [same]
      | swept holder =>
          refine List.mem_filter.mpr ⟨held, decide_eq_true fun same => notSwept ?_⟩
          rw [same]

/-- A grant keeps the history exclusive when the live grants of other holders end before it. -/
theorem Exclusive.cons_granted {history : List Entry} {grant : Grant} (exclusive : Exclusive history)
    (free : ∀ other ∈ live history, other.holder ≠ grant.holder → other.expiresAt ≤ grant.now) :
    Exclusive (.granted grant :: history) := by
  intro later between earlier first second split different unreleased unswept
  cases later with
  | nil =>
      obtain ⟨newest, rfl⟩ := List.cons.inj split
      obtain rfl := Entry.granted.inj newest
      have ended := free first (mem_live unreleased unswept) different
      rintro time ⟨⟨_, unexpired⟩, ⟨begun, _⟩⟩
      exact absurd (unexpired.trans_le ended) (not_lt.mpr begun)
  | cons entry later =>
      exact exclusive later between earlier first second (List.cons.inj split).2 different unreleased
        unswept

/-- An entry that grants nothing keeps the history exclusive. -/
theorem Exclusive.cons {history : List Entry} {entry : Entry} (exclusive : Exclusive history)
    (ends : ∀ grant, entry ≠ .granted grant) : Exclusive (entry :: history) := by
  intro later between earlier first second split different unreleased unswept
  cases later with
  | nil => exact absurd (List.cons.inj split).1 (ends second)
  | cons entry later =>
      exact exclusive later between earlier first second (List.cons.inj split).2 different unreleased
        unswept

/-- The part of the store that concerns one action. -/
structure View where
  clock : Int
  lease : Option Lease
  history : List Entry

def Store.view (store : Store) (actionId : String) : View :=
  ⟨store.clock, store.leases.lookup actionId, store.history actionId⟩

namespace View

/-- Every live grant is covered by the lease of its holder or has run out. -/
structure Good (view : View) : Prop where
  exclusive : Exclusive view.history
  covered : ∀ grant ∈ live view.history,
    (∃ lease ∈ view.lease, lease.holder = grant.holder ∧ grant.expiresAt ≤ lease.expiresAt) ∨
      grant.expiresAt ≤ view.clock

/-- The entries since the history had a given length. -/
def since (view : View) (seen : Nat) : List Entry := view.history.take (view.history.length - seen)

/-- The live grants that a check has seen at other holders have run out when its call began. -/
structure Admits (view : View) (grant : Grant) (seen : Nat) : Prop where
  within : seen ≤ view.history.length
  begun : grant.now ≤ view.clock
  free : ∀ other ∈ live view.history, other.holder ≠ grant.holder →
    .granted other ∈ view.since seen ∨ other.expiresAt ≤ grant.now

/-- What one statement can do to the lease of an action. -/
inductive Moves (view : View) : View → Prop
  | waits {clock : Int} (later : view.clock ≤ clock) : Moves view ⟨clock, view.lease, view.history⟩
  | grants {clock : Int} {lease : Lease} {grant : Grant} (later : view.clock ≤ clock)
      (begun : grant.now ≤ clock) (holder : lease.holder = grant.holder)
      (expiry : lease.expiresAt = grant.expiresAt)
      (free : ∀ other ∈ live view.history, other.holder ≠ grant.holder → other.expiresAt ≤ grant.now)
      (longer : ∀ old ∈ view.lease, old.holder = grant.holder → old.expiresAt ≤ grant.expiresAt) :
      Moves view ⟨clock, some lease, .granted grant :: view.history⟩
  | drops {clock : Int} {lease : Lease} {entry : Entry} (later : view.clock ≤ clock)
      (stored : view.lease = some lease)
      (ends : entry = .released lease.holder ∨ entry = .swept lease.holder) :
      Moves view ⟨clock, none, entry :: view.history⟩

/-- A release or a sweep ends the grants of its holder and no others. -/
theorem mem_live_of_ends {entry : Entry} {holder : String} {history : List Entry} {grant : Grant}
    (ends : entry = .released holder ∨ entry = .swept holder) :
    grant ∈ live (entry :: history) ↔ grant ∈ live history ∧ grant.holder ≠ holder := by
  rcases ends with rfl | rfl <;> simp [live]

/-- Every move keeps the invariant of the action. -/
theorem Good.of_moves {before after : View} (good : before.Good) (moves : before.Moves after) :
    after.Good := by
  cases moves with
  | waits later =>
      refine ⟨good.exclusive, fun grant present => ?_⟩
      exact (good.covered grant present).imp id fun ended => ended.trans later
  | @grants clock lease grant later begun holder expiry free longer =>
      refine ⟨good.exclusive.cons_granted free, fun other present => ?_⟩
      rcases List.mem_cons.mp present with rfl | older
      · exact .inl ⟨lease, rfl, holder, expiry.ge⟩
      by_cases same : other.holder = grant.holder
      · rcases good.covered other older with ⟨old, stored, owner, within⟩ | ended
        · refine .inl ⟨lease, rfl, holder.trans same.symm, within.trans ?_⟩
          rw [expiry]
          exact longer old stored (owner.trans same)
        · exact .inr (ended.trans later)
      · exact .inr ((free other older same).trans begun)
  | @drops clock lease entry later stored ends =>
      refine ⟨good.exclusive.cons (by rcases ends with rfl | rfl <;> simp), fun grant present => ?_⟩
      obtain ⟨older, different⟩ := (mem_live_of_ends ends).mp present
      rcases good.covered grant older with ⟨old, held, owner, _⟩ | ended
      · rw [stored, Option.mem_some_iff] at held
        exact absurd (held ▸ owner).symm different
      · exact .inr (ended.trans later)

theorem since_cons {clock : Int} {lease : Option Lease} {entry : Entry} (view : View) {seen : Nat}
    (within : seen ≤ view.history.length) :
    since ⟨clock, lease, entry :: view.history⟩ seen = entry :: view.since seen := by
  rw [since, since, List.length_cons, Nat.sub_add_comm within, List.take_succ_cons]

/-- No move takes an admission back. -/
theorem Admits.of_moves {before after : View} {grant : Grant} {seen : Nat}
    (admits : before.Admits grant seen) (moves : before.Moves after) : after.Admits grant seen := by
  have within := admits.within
  cases moves with
  | waits later => exact ⟨within, admits.begun.trans later, admits.free⟩
  | @grants clock lease other later =>
      refine ⟨Nat.le_succ_of_le within, admits.begun.trans later, fun third present different => ?_⟩
      rw [since_cons before within]
      rcases List.mem_cons.mp present with rfl | older
      · exact .inl List.mem_cons_self
      · exact (admits.free third older different).imp (List.mem_cons_of_mem _) id
  | @drops clock lease entry later stored ends =>
      refine ⟨Nat.le_succ_of_le within, admits.begun.trans later, fun third present different => ?_⟩
      rw [since_cons before within]
      obtain ⟨older, _⟩ := (mem_live_of_ends ends).mp present
      exact (admits.free third older different).imp (List.mem_cons_of_mem _) id

/-- A check without a conflict admits its grant. -/
theorem Good.admits {view : View} (good : view.Good) {grant : Grant} (later : view.clock ≤ grant.now)
    (noConflict : ∀ lease ∈ view.lease, ¬(lease.expiresAt > grant.now ∧ lease.holder ≠ grant.holder)) :
    Admits ⟨grant.now, view.lease, view.history⟩ grant view.history.length := by
  refine ⟨le_rfl, le_rfl, fun other present different => .inr ?_⟩
  rcases good.covered other present with ⟨lease, stored, owner, within⟩ | ended
  · refine within.trans (not_lt.mp fun unexpired => ?_)
    exact noConflict lease stored ⟨unexpired, owner ▸ different⟩
  · exact ended.trans later

end View

section Statements

/-- The grant does not end before the lease of the same holder that it replaces. -/
def Store.Lengthens (store : Store) (actionId : String) (grant : Grant) : Prop :=
  ∀ lease ∈ store.leases.lookup actionId, lease.holder = grant.holder →
    lease.expiresAt ≤ grant.expiresAt

def Entry.grantee : Entry → Option String
  | .granted grant => some grant.holder
  | _ => none

/-- No other holder has been granted the lease since the check. -/
def Store.Undisturbed (store : Store) (actionId : String) (grant : Grant) (seen : Nat) : Prop :=
  ∀ entry ∈ (store.view actionId).since seen, ∀ holder ∈ entry.grantee, holder = grant.holder

/-- A renewal of the action lengthens its lease. -/
def LeaseRequest.Steady (actionId : String) (store : Store) : LeaseRequest → Prop
  | .renew id holder now expiresAt => id = actionId → store.Lengthens actionId ⟨holder, now, expiresAt⟩
  | _ => True

/-- An insertion for the action is undisturbed since its check and shortens no lease of its holder. -/
def LeaseCall.Steady (actionId : String) (store : Store) : LeaseCall → Prop
  | .admitted id grant seen =>
      id = actionId → store.Undisturbed actionId grant seen ∧ store.Lengthens actionId grant
  | _ => True

/-- The turn grants the lease of the action on a check that still stands. -/
def Steady (actionId : String) (session : Session Store LeaseCall) : Turn LeaseRequest → Prop
  | .start request => request.Steady actionId session.shared
  | .resume index => ∀ call ∈ session.calls[index]?, call.Steady actionId session.shared

/-- An admitted call for the action still has its admission. -/
def Asserted (actionId : String) (store : Store) : LeaseCall → Prop
  | .admitted id grant seen => id = actionId → (store.view actionId).Admits grant seen
  | _ => True

theorem View.Moves.refl (view : View) : view.Moves view := .waits le_rfl

theorem lookup_owned {store : Store} {actionId holder : String}
    (owned : (store.leases.lookup actionId).any (Store.ownedBy actionId holder) = true) :
    ∃ lease, store.leases.lookup actionId = some lease ∧ lease.holder = holder := by
  obtain ⟨lease, found, owner⟩ := (Option.any_eq_true _ _).mp owned
  exact ⟨lease, found, (of_decide_eq_true owner).2⟩

/-- The statements on the lease of one action leave the leases of the others alone. -/
theorem not_ownedBy {store : Store} {actionId id holder : String} (other : actionId ≠ id) {lease : Lease}
    (found : store.leases.lookup actionId = some lease) : Store.ownedBy id holder lease = false := by
  have here := Table.key_of_lookup found
  simp [Store.ownedBy, here, other]

/-- A new lease replaces the old one of its action, and other actions see nothing of it. -/
theorem view_insertOrReplace (store : Store) (id : String) (grant : Grant) (actionId : String) :
    (store.insertOrReplace id grant).view actionId =
      if actionId = id then
        ⟨store.clock, some ⟨id, grant.holder, grant.now, grant.expiresAt, grant.now⟩,
          .granted grant :: store.history actionId⟩
      else store.view actionId := by
  by_cases same : actionId = id
  · subst same
    simp [Store.view, Store.insertOrReplace, Store.record, Table.lookup_upsert]
  · simp [Store.view, Store.insertOrReplace, Store.record, Table.lookup_upsert, same]

/-- An extension keeps the lease and moves its expiry. -/
theorem view_extend (store : Store) (id : String) (grant : Grant) (actionId : String) {lease : Lease}
    (found : store.leases.lookup id = some lease) (owner : lease.holder = grant.holder) :
    (store.extend id grant).view actionId =
      if actionId = id then
        ⟨store.clock, some { lease with expiresAt := grant.expiresAt, heartbeatAt := grant.now },
          .granted grant :: store.history actionId⟩
      else store.view actionId := by
  by_cases same : actionId = id
  · subst same
    have here := Table.key_of_lookup found
    simp [Store.view, Store.extend, Store.record, Table.lookup_modify, found, Store.ownedBy, here, owner]
  · have kept : (store.extend id grant).leases.lookup actionId = store.leases.lookup actionId := by
      rw [Store.extend, Store.record, Table.lookup_modify]
      cases other : store.leases.lookup actionId with
      | none => rfl
      | some row => simp [not_ownedBy same other]
    rw [if_neg same, Store.view, Store.view, kept]
    simp [Store.extend, Store.record, same]

/-- A dropped lease leaves its action without one. -/
theorem view_drop (store : Store) (id holder actionId : String) {lease : Lease}
    (found : store.leases.lookup id = some lease) (owner : lease.holder = holder) :
    (store.drop id holder).view actionId =
      if actionId = id then ⟨store.clock, none, .released holder :: store.history actionId⟩
      else store.view actionId := by
  by_cases same : actionId = id
  · subst same
    have here := Table.key_of_lookup found
    simp [Store.view, Store.drop, Store.record, Table.lookup_delete, found, Store.ownedBy, here, owner]
  · have kept : (store.drop id holder).leases.lookup actionId = store.leases.lookup actionId := by
      rw [Store.drop, Store.record, Table.lookup_delete]
      cases other : store.leases.lookup actionId with
      | none => rfl
      | some row => simp [not_ownedBy same other]
    rw [if_neg same, Store.view, Store.view, kept]
    simp [Store.drop, Store.record, same]

/-- A later clock value is a move. -/
theorem moves_atTime {store : Store} {now : Int} (later : store.clock ≤ now) (actionId : String) :
    (store.view actionId).Moves ((store.atTime now).view actionId) := .waits later

/-- A sweep drops the lease of an action when it has expired. -/
theorem moves_dropExpired {store : Store} {now : Int} (later : store.clock ≤ now) (actionId : String) :
    (store.view actionId).Moves (((store.atTime now).dropExpired now).view actionId) := by
  have swept : ((store.atTime now).dropExpired now).view actionId =
      ⟨now, (store.leases.lookup actionId).filter fun lease => !Store.expired now lease,
        Store.sweptHistory (store.leases.lookup actionId) now (store.history actionId)⟩ := by
    rw [Store.view, ← Table.lookup_delete]
    rfl
  rw [swept, Store.view, Store.sweptHistory]
  cases store.leases.lookup actionId with
  | none => exact .waits later
  | some lease =>
      by_cases expired : Store.expired now lease = true
      · simp only [Option.filter_some, expired, Bool.not_true, Bool.false_eq_true, if_false, if_true]
        exact .drops later rfl (.inr rfl)
      · simp only [Option.filter_some, expired, Bool.not_false, Bool.false_eq_true, if_false, if_true]
        exact .waits later

/-- The first statement of a call moves the lease of every action. -/
theorem moves_enterLease {request : LeaseRequest} {store : Store} {actionId : String}
    (clocked : ∀ now ∈ request.now?, store.clock ≤ now) (steady : request.Steady actionId store)
    (good : (store.view actionId).Good) :
    (store.view actionId).Moves ((enterLease request store).1.view actionId) := by
  cases request with
  | acquire id holder now expiresAt => exact moves_atTime (clocked now rfl) actionId
  | renew id holder now expiresAt =>
      simp only [enterLease]
      split
      · rename_i owned
        obtain ⟨lease, found, owner⟩ := lookup_owned owned
        rw [view_extend (store.atTime now) id ⟨holder, now, expiresAt⟩ actionId found owner]
        split
        · rename_i same
          subst same
          -- The holder owns the lease, so the live grants of the others have run out.
          refine .grants (clocked now rfl) le_rfl owner rfl (fun other present different => ?_)
            (steady rfl)
          rcases good.covered other present with ⟨held, stored, heldBy, _⟩ | ended
          · obtain rfl := Option.some.inj (found.symm.trans stored)
            exact absurd (heldBy.symm.trans owner) different
          · exact ended.trans (clocked now rfl)
        · exact moves_atTime (clocked now rfl) actionId
      · exact moves_atTime (clocked now rfl) actionId
  | release id holder =>
      simp only [enterLease]
      split
      · rename_i owned
        obtain ⟨lease, found, owner⟩ := lookup_owned owned
        rw [view_drop store id holder actionId found owner]
        split
        · rename_i same
          subst same
          exact .drops le_rfl found (.inl (by rw [owner]))
        · exact .refl _
      · exact .refl _
  | sweep now => exact moves_dropExpired (clocked now rfl) actionId

/-- A later statement of a call moves the lease of every action. -/
theorem moves_leaseStatement {call : LeaseCall} {store : Store} {actionId : String}
    (asserted : Asserted actionId store call) (steady : call.Steady actionId store) :
    (store.view actionId).Moves ((leaseStatement call store).1.view actionId) := by
  cases call with
  | admitted id grant seen =>
      rw [leaseStatement, view_insertOrReplace]
      split
      · rename_i same
        subst same
        obtain ⟨undisturbed, lengthens⟩ := steady rfl
        have admits := asserted rfl
        refine .grants le_rfl admits.begun rfl rfl (fun other present different => ?_) lengthens
        rcases admits.free other present different with since | ended
        · exact absurd (undisturbed (.granted other) since other.holder rfl) different
        · exact ended
      · exact .refl _
  | inserted id => exact .refl _
  | renewed id => exact .refl _
  | returned answer => exact .refl _

/-- A move interferes with no admitted call. -/
theorem Asserted.of_moves {before after : Store} {actionId : String}
    (moves : (before.view actionId).Moves (after.view actionId)) (call : LeaseCall)
    (asserted : Asserted actionId before call) : Asserted actionId after call := by
  cases call with
  | admitted id grant seen => exact fun same => (asserted same).of_moves moves
  | inserted id => trivial
  | renewed id => trivial
  | returned answer => trivial

/-- A new call leaves its check with an admission or needs none. -/
theorem asserted_enterLease {request : LeaseRequest} {store : Store} {actionId : String}
    (clocked : ∀ now ∈ request.now?, store.clock ≤ now) (good : (store.view actionId).Good) :
    Asserted actionId (enterLease request store).1 (enterLease request store).2 := by
  cases request with
  | acquire id holder now expiresAt =>
      simp only [enterLease]
      have admitted (free : ∀ lease ∈ store.leases.lookup id,
          ¬(lease.expiresAt > now ∧ lease.holder ≠ holder)) :
          Asserted actionId (store.atTime now)
            (.admitted id ⟨holder, now, expiresAt⟩ (store.history id).length) := by
        rintro rfl
        have later : (store.view id).clock ≤ (Grant.mk holder now expiresAt).now := clocked now rfl
        exact good.admits later free
      split
      · rename_i absent
        exact admitted (by simp [absent])
      · rename_i existing found
        split
        · trivial
        · rename_i free
          exact admitted (by simpa [found] using free)
  | renew id holder now expiresAt =>
      simp only [enterLease]
      split <;> trivial
  | release id holder =>
      simp only [enterLease]
      split <;> trivial
  | sweep now => trivial

/-- Every statement of a lease call asserts what it finds of its action. -/
theorem asserted_leaseStatement (call : LeaseCall) (store : Store) (actionId : String) :
    Asserted actionId (leaseStatement call store).1 (leaseStatement call store).2 := by
  cases call <;> trivial

end Statements

/-- One turn of a steady run keeps the invariant of the action and the admissions of its calls. -/
theorem outlined_leaseTurn {actionId : String} {session : Session Store LeaseCall}
    {turn : Turn LeaseRequest} (clocked : Clocked session turn) (steady : Steady actionId session turn)
    (outlined : session.Outlined (fun store => (store.view actionId).Good) (Asserted actionId)) :
    (leaseTurn session turn).Outlined (fun store => (store.view actionId).Good) (Asserted actionId) := by
  have good := outlined.store
  refine Session.outlined_next outlined ?_ ?_
  · rintro request rfl
    have moves := moves_enterLease clocked steady good
    exact ⟨good.of_moves moves, asserted_enterLease clocked good, Asserted.of_moves moves⟩
  · intro call resumed asserted
    have steadyCall : call.Steady actionId session.shared := by
      cases turn with
      | start request => cases resumed
      | resume index => exact steady call resumed
    have moves := moves_leaseStatement asserted steadyCall
    exact ⟨good.of_moves moves, asserted_leaseStatement call session.shared actionId,
      Asserted.of_moves moves⟩

/-- The leases of an action exclude each other in every run whose grants stand on a check that no
other holder has overtaken and never shorten the lease of their own holder. -/
theorem leases_exclusive (actionId : String) (start : Store) (unwritten : start.history actionId = [])
    (turns : List (Turn LeaseRequest)) (clocked : EveryStep leaseTurn Clocked ⟨start, []⟩ turns)
    (steady : EveryStep leaseTurn (Steady actionId) ⟨start, []⟩ turns) :
    Exclusive ((run leaseTurn ⟨start, []⟩ turns).shared.history actionId) := by
  have initially : Session.Outlined (fun store => (store.view actionId).Good) (Asserted actionId)
      (⟨start, []⟩ : Session Store LeaseCall) := by
    have empty : (start.view actionId).history = [] := unwritten
    refine ⟨⟨?_, by simp [empty, live]⟩, by simp⟩
    rw [empty]
    intro later between earlier first second split
    simp at split
  have kept : ∀ session turn, (Clocked session turn ∧ Steady actionId session turn) →
      session.Outlined (fun store => (store.view actionId).Good) (Asserted actionId) →
      (leaseTurn session turn).Outlined (fun store => (store.view actionId).Good) (Asserted actionId) :=
    fun session turn allowed => outlined_leaseTurn allowed.1 allowed.2
  exact (run_invariant kept (clocked.and steady) initially).store.exclusive

section Samples

instance (store : Store) (actionId : String) (grant : Grant) : Decidable (store.Lengthens actionId grant) :=
  inferInstanceAs (Decidable (∀ lease ∈ store.leases.lookup actionId, _ → _))

instance (store : Store) (actionId : String) (grant : Grant) (seen : Nat) :
    Decidable (store.Undisturbed actionId grant seen) :=
  inferInstanceAs (Decidable (∀ entry ∈ (store.view actionId).since seen, ∀ holder ∈ entry.grantee, _ = _))

instance (actionId : String) (store : Store) :
    (request : LeaseRequest) → Decidable (request.Steady actionId store)
  | .renew .. => inferInstanceAs (Decidable (_ → _))
  | .acquire .. | .release .. | .sweep .. => .isTrue trivial

instance (actionId : String) (store : Store) : (call : LeaseCall) → Decidable (call.Steady actionId store)
  | .admitted .. => inferInstanceAs (Decidable (_ → _ ∧ _))
  | .inserted .. | .renewed .. | .returned .. => .isTrue trivial

instance (actionId : String) (session : Session Store LeaseCall) :
    (turn : Turn LeaseRequest) → Decidable (Steady actionId session turn)
  | .start request => inferInstanceAs (Decidable (request.Steady actionId session.shared))
  | .resume index =>
      inferInstanceAs (Decidable (∀ call ∈ session.calls[index]?, call.Steady actionId session.shared))

def unleased : Store := ⟨0, .empty, fun _ => []⟩

/-- A conflict, a renewal and a takeover after the expiry. -/
def steadyTurns : List (Turn LeaseRequest) :=
  [.start (.acquire "a1" "ai:alice" 0 10), .resume 0, .start (.acquire "a1" "ai:bob" 5 15),
    .start (.renew "a1" "ai:alice" 8 20), .start (.acquire "a1" "ai:bob" 25 35), .resume 3]

theorem steadyTurns_exclusive :
    Exclusive ((run leaseTurn ⟨unleased, []⟩ steadyTurns).shared.history "a1") :=
  leases_exclusive "a1" unleased rfl steadyTurns (by decide +kernel) (by decide +kernel)

/-- Both calls check the free lease before either of them inserts. -/
def racingLeaseTurns : List (Turn LeaseRequest) :=
  [.start (.acquire "a1" "ai:alice" 0 10), .start (.acquire "a1" "ai:bob" 1 11),
    .resume 0, .resume 0, .resume 1, .resume 1]

/-- Both calls are told that they acquired the lease for times that overlap. -/
theorem racingLeaseTurns_overlap :
    EveryStep leaseTurn Clocked ⟨unleased, []⟩ racingLeaseTurns ∧
      (run leaseTurn ⟨unleased, []⟩ racingLeaseTurns).calls =
        [.returned (.acquire (.acquired ⟨"a1", "ai:alice", 0, 10, 0⟩)),
          .returned (.acquire (.acquired ⟨"a1", "ai:bob", 1, 11, 1⟩))] ∧
      ¬ Exclusive ((run leaseTurn ⟨unleased, []⟩ racingLeaseTurns).shared.history "a1") := by
  have history : (run leaseTurn ⟨unleased, []⟩ racingLeaseTurns).shared.history "a1" =
      [.granted ⟨"ai:bob", 1, 11⟩, .granted ⟨"ai:alice", 0, 10⟩] := by decide +kernel
  refine ⟨by decide +kernel, by decide +kernel, fun exclusive => ?_⟩
  have apart := exclusive [] [] [] ⟨"ai:alice", 0, 10⟩ ⟨"ai:bob", 1, 11⟩ history (by decide) (by simp)
    (by simp)
  exact apart 5 ⟨⟨by decide, by decide⟩, ⟨by decide, by decide⟩⟩

end Samples

end AiMemory.Actions
