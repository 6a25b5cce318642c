import Mathlib.Data.Option.Basic

/-
This file follows one record through its row, its copy in an archive and its queued messages, up to its erasure.
-/

namespace AiMemory.Library

/-- The places that hold a record, and what was said of its erasure since it was last written. -/
structure Custody (Value : Type*) where
  live : Option Value
  copy : Option Value
  queued : Bool
  keyDestroyed : Bool
  forgotten : Bool

/-- A write may leave a copy of what it replaces, and an erasure may leave a copy of what it erases. -/
inductive Handling (Value : Type*) where
  | keep
  | write (value : Value) (copies : Bool)
  | queue
  | archive
  | restore
  | evict
  | forget (archive : Bool)

/-- A handling that erases nothing writes only values with the property. -/
def Handling.Gentle {Value : Type*} (property : Value → Prop) : Handling Value → Prop
  | .write value _ => property value
  | .evict => False
  | .forget _ => False
  | _ => True

namespace Custody

variable {Value : Type*} (hasKey : Value → Bool)

/-- Only a live record is archived or erased, and only a copy without a live record is restored. -/
def handle (custody : Custody Value) : Handling Value → Custody Value
  | .keep => custody
  | .write value copies =>
      { custody with
        live := some value
        copy := if copies then custody.live else custody.copy
        keyDestroyed := false
        forgotten := false }
  | .queue => { custody with queued := custody.queued || custody.live.isSome }
  | .archive =>
      match custody.live with
      | none => custody
      | some value => { custody with live := none, copy := some value }
  | .restore =>
      match custody.live, custody.copy with
      | none, some value => { custody with live := some value, copy := none, keyDestroyed := false, forgotten := false }
      | _, _ => custody
  | .evict =>
      match custody.live with
      | none => custody
      | some value => { custody with live := none, keyDestroyed := custody.keyDestroyed || hasKey value }
  | .forget archive =>
      match custody.live with
      | none => custody
      | some value =>
          { live := none
            copy := if archive then some value else custody.copy
            queued := false
            keyDestroyed := custody.keyDestroyed || hasKey value
            forgotten := custody.forgotten || !archive }

/-- A record that was erased is not live. -/
def Settled (custody : Custody Value) : Prop :=
  custody.keyDestroyed = true ∨ custody.forgotten = true → custody.live = none

/-- No key is left of a record whose key was destroyed, and nothing is left of a forgotten one. -/
structure Truthful (custody : Custody Value) : Prop where
  keyDestroyed : custody.keyDestroyed = true → ∀ value, value ∈ custody.live ∨ value ∈ custody.copy →
    hasKey value = false
  forgotten : custody.forgotten = true → custody.live = none ∧ (∀ value ∈ custody.copy, hasKey value = false) ∧
    custody.queued = false

/-- Every held value has the property. -/
def Holding (property : Value → Prop) (custody : Custody Value) : Prop :=
  ∀ value, value ∈ custody.live ∨ value ∈ custody.copy → property value

/-- The erasure leaves no copy that it does not reach. -/
def Clean (custody : Custody Value) : Handling Value → Prop
  | .evict => ∀ row ∈ custody.live, hasKey row = true → ∀ copy ∈ custody.copy, hasKey copy = false
  | .forget true => ∀ row ∈ custody.live, hasKey row = false
  | .forget false => custody.live.isSome → ∀ copy ∈ custody.copy, hasKey copy = false
  | _ => True

variable {hasKey} {custody : Custody Value}

/-- A settled value that is live has kept its key and is not forgotten. -/
theorem Settled.unmarked (settled : custody.Settled) {value : Value} (live : custody.live = some value) :
    custody.keyDestroyed = false ∧ custody.forgotten = false := by
  have unsettled : ¬ (custody.keyDestroyed = true ∨ custody.forgotten = true) := fun erased => by
    rw [settled erased] at live
    cases live
  rw [not_or, Bool.not_eq_true, Bool.not_eq_true] at unsettled
  exact unsettled

/-- Without a mark the custody is settled. -/
theorem settled_of_unmarked (keyDestroyed : custody.keyDestroyed = false) (forgotten : custody.forgotten = false) :
    custody.Settled := by
  intro erased
  rw [keyDestroyed, forgotten] at erased
  cases erased <;> contradiction

/-- Without a mark the custody is truthful. -/
theorem truthful_of_unmarked (keyDestroyed : custody.keyDestroyed = false) (forgotten : custody.forgotten = false) :
    custody.Truthful hasKey := by
  constructor
  · intro erased
    rw [keyDestroyed] at erased
    cases erased
  · intro erased
    rw [forgotten] at erased
    cases erased

/-- Every handling leaves an erased record without a row. -/
theorem settled_handle (settled : custody.Settled) (handling : Handling Value) :
    (custody.handle hasKey handling).Settled := by
  cases handling with
  | keep => exact settled
  | write value copies => exact settled_of_unmarked rfl rfl
  | queue => exact settled
  | archive =>
      unfold handle
      cases live : custody.live with
      | none => exact settled
      | some value => exact fun _ => rfl
  | restore =>
      simp only [handle]
      split
      · exact settled_of_unmarked rfl rfl
      · exact settled
  | evict =>
      unfold handle
      cases live : custody.live with
      | none => exact settled
      | some value => exact fun _ => rfl
  | forget archive =>
      unfold handle
      cases live : custody.live with
      | none => exact settled
      | some value => exact fun _ => rfl

/-- A gentle handling is clean. -/
theorem clean_of_gentle {property : Value → Prop} {handling : Handling Value} (gentle : handling.Gentle property) :
    custody.Clean hasKey handling := by
  cases handling with
  | evict => exact gentle.elim
  | forget archive => exact gentle.elim
  | keep => trivial
  | write value copies => trivial
  | queue => trivial
  | archive => trivial
  | restore => trivial

/-- A handling holds what was held, and what it writes. -/
theorem holding_handle {property : Value → Prop} (holding : custody.Holding property) (handling : Handling Value)
    (written : ∀ value copies, handling = .write value copies → property value) :
    (custody.handle hasKey handling).Holding property := by
  intro value present
  cases handling with
  | keep => exact holding value present
  | write landed copies =>
      rcases present with here | kept
      · rw [← Option.some.inj here]
        exact written landed copies rfl
      · cases copies with
        | true => exact holding value (.inl kept)
        | false => exact holding value (.inr kept)
  | queue => exact holding value present
  | archive =>
      simp only [handle] at present
      split at present
      · exact holding value present
      · rename_i held live
        rcases present with gone | kept
        · exact absurd gone (Option.not_mem_none _)
        · exact holding value (.inl (Option.some.inj kept ▸ live))
  | restore =>
      simp only [handle] at present
      split at present
      · rename_i held _ copy
        rcases present with here | gone
        · exact holding value (.inr (Option.some.inj here ▸ copy))
        · exact absurd gone (Option.not_mem_none _)
      · exact holding value present
  | evict =>
      simp only [handle] at present
      split at present
      · exact holding value present
      · rcases present with gone | kept
        · exact absurd gone (Option.not_mem_none _)
        · exact holding value (.inr kept)
  | forget archive =>
      simp only [handle] at present
      split at present
      · exact holding value present
      · rename_i held live
        rcases present with gone | kept
        · exact absurd gone (Option.not_mem_none _)
        · cases archive with
          | true => exact holding value (.inl (Option.some.inj kept ▸ live))
          | false => exact holding value (.inr kept)

/-- A handling keeps the account of the erasures true exactly when its own erasure is clean. -/
theorem truthful_handle_iff (settled : custody.Settled) (truthful : custody.Truthful hasKey)
    (handling : Handling Value) : (custody.handle hasKey handling).Truthful hasKey ↔ custody.Clean hasKey handling := by
  cases handling with
  | keep => exact iff_of_true truthful trivial
  | write value copies => exact iff_of_true (truthful_of_unmarked rfl rfl) trivial
  | queue =>
      refine iff_of_true ?_ trivial
      cases live : custody.live with
      | none =>
          have same : custody.handle hasKey .queue = custody := by
            rw [handle, live, Option.isSome_none, Bool.or_false, ← live]
          rw [same]
          exact truthful
      | some value => exact truthful_of_unmarked (settled.unmarked live).1 (settled.unmarked live).2
  | archive =>
      refine iff_of_true ?_ trivial
      unfold handle
      cases live : custody.live with
      | none => exact truthful
      | some value => exact truthful_of_unmarked (settled.unmarked live).1 (settled.unmarked live).2
  | restore =>
      refine iff_of_true ?_ trivial
      simp only [handle]
      split
      · exact truthful_of_unmarked rfl rfl
      · exact truthful
  | evict =>
      unfold handle Clean
      cases live : custody.live with
      | none => exact iff_of_true truthful fun _ absent => absurd absent (Option.not_mem_none _)
      | some value =>
          obtain ⟨unattested, remembered⟩ := settled.unmarked live
          simp only [unattested, Bool.false_or, Option.mem_some_iff, forall_eq']
          constructor
          · intro after held copy present
            exact after.keyDestroyed held copy (.inr present)
          · intro clean
            refine ⟨fun held copy present => ?_, fun erased => ?_⟩
            · rcases present with gone | kept
              · exact absurd gone (Option.not_mem_none _)
              · exact clean held copy kept
            · cases remembered.symm.trans erased
  | forget archive =>
      unfold handle
      cases live : custody.live with
      | none =>
          refine iff_of_true truthful ?_
          cases archive with
          | true => exact fun _ absent => absurd (live ▸ absent) (Option.not_mem_none _)
          | false =>
              intro present
              rw [live] at present
              cases present
      | some value =>
          obtain ⟨unattested, remembered⟩ := settled.unmarked live
          cases archive with
          | true =>
              simp only [Clean, live, unattested, remembered, Bool.false_or, Bool.not_true, if_true,
                Option.mem_some_iff, forall_eq']
              constructor
              · intro after
                by_contra held
                have destroyed := (Bool.not_eq_false _).mp held
                exact held (after.keyDestroyed destroyed value (.inr rfl))
              · intro plain
                refine ⟨fun held => ?_, fun erased => ?_⟩
                · cases plain.symm.trans held
                · cases erased
          | false =>
              simp only [Clean, live, unattested, remembered, Bool.false_or, Bool.not_false,
                Bool.false_eq_true, if_false, Option.isSome_some, forall_const]
              constructor
              · exact fun after => (after.forgotten rfl).2.1
              · intro clean
                refine ⟨fun _ copy present => ?_, fun _ => ⟨rfl, clean, rfl⟩⟩
                rcases present with gone | kept
                · exact absurd gone (Option.not_mem_none _)
                · exact clean copy kept

end Custody
end AiMemory.Library
