import AiMemory.Library.Run

/-
This file develops calls that run against one shared store, one statement at a time.
-/

namespace AiMemory.Library

universe u v w
variable {Shared : Type u} {Call : Type v} {Request : Type w}

/-- A session holds the shared store and every call that has started. -/
structure Session (Shared : Type u) (Call : Type v) where
  shared : Shared
  calls : List Call

/-- A turn starts a call or runs the next statement of a started one. -/
inductive Turn (Request : Type w) where
  | start (request : Request)
  | resume (index : Nat)

namespace Session

section Step

variable (enter : Request → Shared → Shared × Call) (statement : Call → Shared → Shared × Call)

/-- The started call whose statement the turn runs. -/
def resumed (session : Session Shared Call) : Turn Request → Option Call
  | .start _ => none
  | .resume index => session.calls[index]?

/-- The statement acts on the store at once, and its call waits for its next turn. -/
def next (session : Session Shared Call) : Turn Request → Session Shared Call
  | .start request =>
      let after := enter request session.shared
      ⟨after.1, session.calls ++ [after.2]⟩
  | .resume index =>
      match session.calls[index]? with
      | none => session
      | some call =>
          let after := statement call session.shared
          ⟨after.1, session.calls.set index after.2⟩

end Step

variable {enter : Request → Shared → Shared × Call} {statement : Call → Shared → Shared × Call}

/-- A started call has run its entry. -/
theorem shared_start (session : Session Shared Call) (request : Request) :
    (session.next enter statement (.start request)).shared = (enter request session.shared).1 := rfl

/-- A turn without a call changes nothing. -/
theorem next_of_idle {session : Session Shared Call} {index : Nat}
    (idle : session.calls[index]? = none) :
    session.next enter statement (.resume index) = session := by
  simp only [next, idle]

/-- A turn runs one statement of its call. -/
theorem shared_resume {session : Session Shared Call} {index : Nat} {call : Call}
    (runs : session.calls[index]? = some call) :
    (session.next enter statement (.resume index)).shared = (statement call session.shared).1 := by
  simp only [next, runs]

/-- The store meets the invariant and every call meets its own assertion. -/
structure Outlined (invariant : Shared → Prop) (assertion : Shared → Call → Prop)
    (session : Session Shared Call) : Prop where
  store : invariant session.shared
  calls : ∀ call ∈ session.calls, assertion session.shared call

/-- A statement keeps an outline when it keeps the invariant, asserts its own call and interferes
with no other. -/
structure Keeps (invariant : Shared → Prop) (assertion : Shared → Call → Prop) (before : Shared)
    (after : Shared × Call) : Prop where
  store : invariant after.1
  own : assertion after.1 after.2
  others : ∀ call, assertion before call → assertion after.1 call

/-- A turn keeps an outline that its statement keeps. -/
theorem outlined_next {invariant : Shared → Prop} {assertion : Shared → Call → Prop}
    {session : Session Shared Call} {turn : Turn Request}
    (outlined : session.Outlined invariant assertion)
    (enters : ∀ request, turn = .start request →
      Keeps invariant assertion session.shared (enter request session.shared))
    (runs : ∀ call, session.resumed turn = some call → assertion session.shared call →
      Keeps invariant assertion session.shared (statement call session.shared)) :
    (session.next enter statement turn).Outlined invariant assertion := by
  cases turn with
  | start request =>
      have keeps := enters request rfl
      refine ⟨keeps.store, fun call present => ?_⟩
      rcases List.mem_append.mp present with waiting | fresh
      · exact keeps.others call (outlined.calls call waiting)
      · rw [List.mem_singleton.mp fresh]
        exact keeps.own
  | resume index =>
      cases held : session.calls[index]? with
      | none => rwa [next_of_idle held]
      | some call =>
          have keeps := runs call held (outlined.calls call (List.mem_of_getElem? held))
          simp only [next, held]
          refine ⟨keeps.store, fun other present => ?_⟩
          rcases List.mem_or_eq_of_mem_set present with waiting | rfl
          · exact keeps.others other (outlined.calls other waiting)
          · exact keeps.own

theorem filterMap_concat {View : Type*} {view : Call → Option View} (calls : List Call) (call : Call) :
    (calls ++ [call]).filterMap view = calls.filterMap view ++ (view call).toList := by
  rw [List.filterMap_append]
  cases seen : view call with
  | none => simp [seen]
  | some _ => simp [seen]

/-- A call that becomes visible adds its view to the views of the others. -/
theorem perm_filterMap_set {View : Type*} {view : Call → Option View} {calls : List Call} {index : Nat}
    {before after : Call} (held : calls[index]? = some before) (unseen : view before = none) :
    ((calls.set index after).filterMap view).Perm (calls.filterMap view ++ (view after).toList) := by
  induction calls generalizing index with
  | nil => cases held
  | cons call calls ih =>
      cases index with
      | zero =>
          obtain rfl := Option.some.inj held
          rw [List.set_cons_zero, List.filterMap_cons_none unseen]
          cases seen : view after with
          | none => simp [seen]
          | some _ =>
              rw [List.filterMap_cons_some seen]
              exact List.perm_append_singleton _ _ |>.symm
      | succ index =>
          have later := ih held
          rw [List.set_cons_succ]
          cases seen : view call with
          | none =>
              rw [List.filterMap_cons_none seen, List.filterMap_cons_none seen]
              exact later
          | some _ =>
              rw [List.filterMap_cons_some seen, List.filterMap_cons_some seen]
              exact later.cons _

end Session
end AiMemory.Library
