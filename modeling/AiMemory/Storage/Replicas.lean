import AiMemory.Crdt.Settling
import AiMemory.Storage.Columns
import AiMemory.Storage.Gates
import Mathlib.Logic.Function.Basic

/-
This file embeds two nodes that write locally and deliver their live rows to each other.
-/

namespace AiMemory.Storage
open AiMemory.Crdt AiMemory.Library AiMemory.Machine

inductive Node where
  | first | second
  deriving DecidableEq, Repr

def Node.other : Node → Node
  | first => second
  | second => first

@[simp] theorem Node.other_other (node : Node) : node.other.other = node := by cases node <;> rfl

theorem Node.other_ne (node : Node) : node.other ≠ node := by cases node <;> decide

theorem Node.eq_or_eq_other (node query : Node) : query = node ∨ query = node.other := by
  cases node <;> cases query <;> decide

abbrev Replicas := Node → Store

/-- Every node has its own environment and reads its own clock. -/
inductive ReplicaStep (env : Node → WriterEnvironment) where
  | insert (node : Node) (row : Memory) (now : (env node).chrono.Instant)
  | update (node : Node) (id : String) (patch : Patch) (expectedVersion : Option Int)
      (now : (env node).chrono.Instant)
  | deliver (sender : Node) (id : String) (now : (env sender.other).chrono.Instant)

section Step

variable (env : Node → WriterEnvironment) (skewSecs : Int) (replicas : Replicas)

/-- A failed call leaves its node. -/
def commitAt {Failure Answer : Type} (node : Node) (answer : Except Failure (Store × Answer)) : Replicas :=
  match answer with
  | .ok (written, _) => Function.update replicas node written
  | .error _ => replicas

/-- The receiver merges the row that the sender has now. -/
def receive (sender : Node) (row : Memory) (now : (env sender.other).chrono.Instant) :
    Except WriteError (Store × String) :=
  mergeInbound (env sender.other).toEnvironment (replicas sender.other) row now skewSecs

def replicaStep : ReplicaStep env → Replicas
  | .insert node row now => commitAt replicas node (insert (env node) (replicas node) row now)
  | .update node id patch expectedVersion now =>
      commitAt replicas node (updateWithExpectedVersion (env node) (replicas node) id patch expectedVersion now)
  | .deliver sender id now =>
      match (replicas sender).memories.find id with
      | some row => commitAt replicas sender.other (receive env skewSecs replicas sender row now)
      | none => replicas

/-- The delivery does not fail. -/
def Lands : ReplicaStep env → Prop
  | .deliver sender id now => ∀ row ∈ (replicas sender).memories.find id,
      ∃ written, receive env skewSecs replicas sender row now = .ok (written, id)
  | _ => True

end Step

section Exchange

variable (env : Node → WriterEnvironment) (skewSecs : Int)

/-- Every node reads its clock for each identifier that it receives. -/
abbrev ExchangeClock := (node : Node) → String → (env node).chrono.Instant

variable {env}

def deliveries (clock : ExchangeClock env) (sender : Node) (replicas : Replicas) : List (ReplicaStep env) :=
  (replicas sender).memories.rows.map fun row => .deliver sender row.id (clock sender.other row.id)

/-- A full exchange delivers every live row of the first node and then every live row of the second. -/
def exchange (clock : ExchangeClock env) (replicas : Replicas) : List (ReplicaStep env) :=
  let there := deliveries clock .first replicas
  there ++ deliveries clock .second (run (replicaStep env skewSecs) replicas there)

def rounds (clock : Nat → ExchangeClock env) (start : Replicas) : Nat → Replicas
  | 0 => start
  | count + 1 =>
      run (replicaStep env skewSecs) (rounds clock start count)
        (exchange skewSecs (clock count) (rounds clock start count))

/-- The next full exchange changes no live table. -/
def Still (clock : Nat → ExchangeClock env) (start : Replicas) (count : Nat) : Prop :=
  ∀ node, (rounds skewSecs clock start (count + 1) node).memories = (rounds skewSecs clock start count node).memories

end Exchange

section Columns

/-- The columns that the last writer decides. -/
def visible (row : Memory) : String × String × String × LifecycleState :=
  (row.title, row.namespace, row.content, row.lifecycleState)

/-- The tags of a row are a set. -/
def shown (row : Memory) : String × String × String × String × Finset String × LifecycleState :=
  (row.id, row.title, row.namespace, row.content, row.tags.toFinset, row.lifecycleState)

def shownRows (store : Store) : Set (String × String × String × String × Finset String × LifecycleState) :=
  {columns | ∃ row ∈ store.memories.rows, shown row = columns}

/-- Rows that are shown alike have one slot. -/
theorem slotOf_of_visible {first second : Memory} (same : visible first = visible second) :
    slotOf first = slotOf second := by
  simp only [visible, Prod.mk.injEq] at same
  rw [slotOf, slotOf, same.1, same.2.1]

end Columns

section Conditions

/-- The receiver's clock is not behind the time of the row by more than the skew. -/
def Timely (chrono : Chrono) (skewSecs : Int) (now : chrono.Instant) (updatedAt : String) : Prop :=
  ∀ clock ∈ chrono.parseFromRfc3339 (chrono.toRfc3339 now), ∀ updated ∈ chrono.parseFromRfc3339 updatedAt,
    chrono.later updated (chrono.addSeconds clock skewSecs) = false

variable (env : Node → WriterEnvironment) (skewSecs : Int) (replicas : Replicas)

/-- Every new row has its own identifier, and the clocks of the nodes agree. -/
def Admitted : ReplicaStep env → Prop
  | .insert _ row _ => ∀ node, (replicas node).memories.find row.id = none
  | .update .. => True
  | .deliver sender id now => ∀ row ∈ (replicas sender).memories.find id,
      Timely (env sender.other).chrono skewSecs now row.updatedAt

/-- The receiver's screen masks neither the title nor the content nor a tag. -/
def Unmasked (redactForStorage : String → Option String) (row : Memory) : Prop :=
  let masked := redactMemoryForStorage redactForStorage row
  masked.title = row.title ∧ masked.content = row.content ∧ masked.tags = row.tags

/-- The row needs a free slot where it is new, and a slot of its own where it is newer. -/
def Placeable (receiver : Store) (row : Memory) : Prop :=
  match receiver.memories.find row.id with
  | none => receiver.memories.findSlot (slotOf row) = none
  | some held => held.updatedAt < row.updatedAt →
      ∀ other ∈ receiver.memories.findSlot (slotOf row), other.id = row.id

/-- No two versions of a row share a time, and a delivered row finds its place. -/
def Apart : ReplicaStep env → Prop
  | .insert node row now =>
      let bound := localRow (env node) row now
      ∀ held ∈ (replicas node).memories.findSlot (slotOf bound),
        ∀ copy ∈ (replicas node.other).memories.find held.id, copy.updatedAt = row.updatedAt →
          visible { held with content := bound.content } = visible copy
  | .update node id patch _ now =>
      ∀ held ∈ (replicas node).memories.find id, ∀ copy ∈ (replicas node.other).memories.find id,
        copy.updatedAt = (env node).chrono.toRfc3339 now → visible (governedRow patch held) = visible copy
  | .deliver sender id _ => ∀ row ∈ (replicas sender).memories.find id,
      Placeable (replicas sender.other) row ∧
        ((replicas sender.other).memories.find id = none → Unmasked (env sender.other).redactForStorage row)

end Conditions

section Decide

instance (chrono : Chrono) (skewSecs : Int) (now : chrono.Instant) (updatedAt : String) :
    Decidable (Timely chrono skewSecs now updatedAt) :=
  inferInstanceAs (Decidable (∀ clock ∈ chrono.parseFromRfc3339 (chrono.toRfc3339 now),
    ∀ updated ∈ chrono.parseFromRfc3339 updatedAt, chrono.later updated (chrono.addSeconds clock skewSecs) = false))

instance (redactForStorage : String → Option String) (row : Memory) : Decidable (Unmasked redactForStorage row) :=
  inferInstanceAs (Decidable (_ ∧ _ ∧ _))

instance (receiver : Store) (row : Memory) : Decidable (Placeable receiver row) :=
  match found : receiver.memories.find row.id with
  | none => decidable_of_iff (receiver.memories.findSlot (slotOf row) = none) (by rw [Placeable, found])
  | some held => decidable_of_iff (held.updatedAt < row.updatedAt →
      ∀ other ∈ receiver.memories.findSlot (slotOf row), other.id = row.id) (by rw [Placeable, found])

variable {env : Node → WriterEnvironment} {skewSecs : Int} {replicas : Replicas}

instance (step : ReplicaStep env) : Decidable (Admitted env skewSecs replicas step) :=
  match step with
  | .insert _ row _ => decidable_of_iff
      ((replicas .first).memories.find row.id = none ∧ (replicas .second).memories.find row.id = none)
      ⟨fun both node => by cases node; exacts [both.1, both.2], fun each => ⟨each .first, each .second⟩⟩
  | .update .. => .isTrue trivial
  | .deliver sender id now => inferInstanceAs (Decidable (∀ row ∈ (replicas sender).memories.find id,
      Timely (env sender.other).chrono skewSecs now row.updatedAt))

instance (step : ReplicaStep env) : Decidable (Apart env replicas step) :=
  match step with
  | .insert node row now => inferInstanceAs (Decidable (∀ held ∈ (replicas node).memories.findSlot
      (slotOf (localRow (env node) row now)), ∀ copy ∈ (replicas node.other).memories.find held.id,
        copy.updatedAt = row.updatedAt →
          visible { held with content := (localRow (env node) row now).content } = visible copy))
  | .update node id patch _ now => inferInstanceAs (Decidable (∀ held ∈ (replicas node).memories.find id,
      ∀ copy ∈ (replicas node.other).memories.find id,
        copy.updatedAt = (env node).chrono.toRfc3339 now → visible (governedRow patch held) = visible copy))
  | .deliver sender id _ => inferInstanceAs (Decidable (∀ row ∈ (replicas sender).memories.find id,
      Placeable (replicas sender.other) row ∧
        ((replicas sender.other).memories.find id = none → Unmasked (env sender.other).redactForStorage row)))

end Decide
end AiMemory.Storage
