import Mathlib.Order.Basic
import Mathlib.Data.List.Forall2

/-
This file collects the induction rules for runs of a deterministic step function.
-/

namespace AiMemory.Library

universe u v
variable {State : Type u} {Label : Type v}

/-- A run applies its labels from left to right. -/
def run (step : State → Label → State) (start : State) (labels : List Label) : State :=
  labels.foldl step start

@[simp] theorem run_nil (step : State → Label → State) (start : State) :
    run step start [] = start := rfl

@[simp] theorem run_cons (step : State → Label → State) (start : State)
    (label : Label) (rest : List Label) :
    run step start (label :: rest) = run step (step start label) rest := rfl

/-- A run over two parts is the run over the second from the end of the first. -/
theorem run_append (step : State → Label → State) (start : State)
    (first second : List Label) :
    run step start (first ++ second) = run step (run step start first) second :=
  List.foldl_append

/-- Each step of the run meets the condition in the state before it. -/
def EveryStep (step : State → Label → State) (condition : State → Label → Prop) :
    State → List Label → Prop
  | _, [] => True
  | start, label :: rest =>
      condition start label ∧ EveryStep step condition (step start label) rest

theorem EveryStep.mono {step : State → Label → State}
    {strong weak : State → Label → Prop}
    (weaker : ∀ state label, strong state label → weak state label)
    {start : State} {labels : List Label} (every : EveryStep step strong start labels) :
    EveryStep step weak start labels := by
  induction labels generalizing start with
  | nil => trivial
  | cons label rest ih => exact ⟨weaker _ _ every.1, ih every.2⟩

theorem EveryStep.of_forall {step : State → Label → State} {condition : State → Label → Prop}
    (all : ∀ state label, condition state label) (start : State) (labels : List Label) :
    EveryStep step condition start labels := by
  induction labels generalizing start with
  | nil => trivial
  | cons label rest ih => exact ⟨all start label, ih _⟩

/-- A condition on the labels alone holds at every step of a run over such labels. -/
theorem EveryStep.of_labels {step : State → Label → State} {allowed : Label → Prop} {labels : List Label}
    (each : ∀ label ∈ labels, allowed label) (start : State) :
    EveryStep step (fun _ label => allowed label) start labels := by
  induction labels generalizing start with
  | nil => trivial
  | cons label rest ih =>
      exact ⟨each label List.mem_cons_self, ih (fun later present => each later (List.mem_cons_of_mem _ present)) _⟩

/-- Two conditions that hold at every step hold together. -/
theorem EveryStep.and {step : State → Label → State} {first second : State → Label → Prop}
    {start : State} {labels : List Label} (everyFirst : EveryStep step first start labels)
    (everySecond : EveryStep step second start labels) :
    EveryStep step (fun state label => first state label ∧ second state label) start labels := by
  induction labels generalizing start with
  | nil => trivial
  | cons label rest ih => exact ⟨⟨everyFirst.1, everySecond.1⟩, ih everyFirst.2 everySecond.2⟩

/-- A run meets a condition when its two parts do. -/
theorem EveryStep.append_iff {step : State → Label → State} {condition : State → Label → Prop}
    {start : State} {first second : List Label} :
    EveryStep step condition start (first ++ second) ↔
      EveryStep step condition start first ∧ EveryStep step condition (run step start first) second := by
  induction first generalizing start with
  | nil => exact (and_iff_right trivial).symm
  | cons label first ih =>
      rw [List.cons_append, EveryStep, EveryStep, ih, run_cons, and_assoc]

/-- A condition on the labels alone joins a condition on the steps. -/
theorem EveryStep.and_forall {step : State → Label → State}
    {condition : State → Label → Prop} {allowed : Label → Prop} {start : State}
    {labels : List Label} (every : EveryStep step condition start labels)
    (each : ∀ label ∈ labels, allowed label) :
    EveryStep step (fun state label => condition state label ∧ allowed label) start labels :=
  every.and (.of_labels each start)

/-- An invariant of the allowed steps holds before each step of an allowed run. -/
theorem EveryStep.and_invariant {step : State → Label → State}
    {condition : State → Label → Prop} {invariant : State → Prop}
    (preserved : ∀ state label, condition state label → invariant state →
      invariant (step state label))
    {start : State} {labels : List Label} (every : EveryStep step condition start labels)
    (initially : invariant start) :
    EveryStep step (fun state label => condition state label ∧ invariant state) start labels := by
  induction labels generalizing start with
  | nil => trivial
  | cons label rest ih =>
      exact ⟨⟨every.1, initially⟩, ih every.2 (preserved _ _ every.1 initially)⟩

instance EveryStep.decidable (step : State → Label → State)
    (condition : State → Label → Prop) [∀ state label, Decidable (condition state label)] :
    (start : State) → (labels : List Label) → Decidable (EveryStep step condition start labels)
  | _, [] => .isTrue trivial
  | start, label :: rest =>
      have := EveryStep.decidable step condition (step start label) rest
      inferInstanceAs (Decidable (_ ∧ _))

/-- An invariant of each allowed step is an invariant of each allowed run. -/
theorem run_invariant {step : State → Label → State} {condition : State → Label → Prop}
    {invariant : State → Prop}
    (preserved : ∀ state label, condition state label → invariant state →
      invariant (step state label))
    {start : State} {labels : List Label} (every : EveryStep step condition start labels)
    (initially : invariant start) : invariant (run step start labels) := by
  induction labels generalizing start with
  | nil => exact initially
  | cons label rest ih => exact ih every.2 (preserved _ _ every.1 initially)

/-- An invariant of every step is an invariant of every run. -/
theorem run_invariant_always {step : State → Label → State} {invariant : State → Prop}
    (preserved : ∀ state label, invariant state → invariant (step state label))
    {start : State} (labels : List Label) (initially : invariant start) :
    invariant (run step start labels) := by
  induction labels generalizing start with
  | nil => exact initially
  | cons label rest ih => exact ih (preserved _ _ initially)

/-- Where a condition on each step says exactly that the step keeps a property, it says over a run that the
property holds in every state reached. -/
theorem EveryStep.iff_reached {step : State → Label → State} {condition assumed : State → Label → Prop}
    {invariant reached : State → Prop}
    (preserved : ∀ state label, assumed state label → invariant state → invariant (step state label))
    (exactly : ∀ state label, assumed state label → invariant state → reached state →
      (condition state label ↔ reached (step state label)))
    {start : State} {labels : List Label} (every : EveryStep step assumed start labels)
    (initially : invariant start) (first : reached start) :
    EveryStep step condition start labels ↔
      ∀ taken rest, labels = taken ++ rest → reached (run step start taken) := by
  induction labels generalizing start with
  | nil =>
      refine ⟨fun _ taken rest split => ?_, fun _ => trivial⟩
      have empty : taken = [] := (List.append_eq_nil_iff.mp split.symm).1
      rw [empty]
      exact first
  | cons label labels ih =>
      have here := exactly start label every.1 initially first
      have later := fun next => ih every.2 (preserved start label every.1 initially) next
      constructor
      · rintro ⟨holds, tail⟩ taken rest split
        cases taken with
        | nil => exact first
        | cons other taken =>
            obtain ⟨rfl, remaining⟩ := List.cons.inj split
            exact (later (here.mp holds)).mp tail taken rest remaining
      · intro all
        have next : reached (step start label) := all [label] labels rfl
        refine ⟨here.mpr next, (later next).mpr ?_⟩
        intro taken rest split
        exact all (label :: taken) rest (congrArg (label :: ·) split)

/-- Two conditions that agree under an invariant, which the second one keeps, allow the same runs. -/
theorem EveryStep.congr_of_invariant {step : State → Label → State} {first second : State → Label → Prop}
    {invariant : State → Prop} (agree : ∀ state label, invariant state → (first state label ↔ second state label))
    (kept : ∀ state label, invariant state → second state label → invariant (step state label))
    {start : State} (labels : List Label) (initially : invariant start) :
    EveryStep step first start labels ↔ EveryStep step second start labels := by
  induction labels generalizing start with
  | nil => exact Iff.rfl
  | cons label labels ih =>
      rw [EveryStep, EveryStep, agree start label initially]
      exact and_congr_right fun holds => ih (kept start label initially holds)

/-- Where no step restores a property that was lost, the condition says over a run that the property holds at
its end. -/
theorem EveryStep.iff_last {step : State → Label → State} {condition : State → Label → Prop}
    {reached : State → Prop} (lost : ∀ state label, reached (step state label) → reached state)
    (exactly : ∀ state label, reached state → (condition state label ↔ reached (step state label)))
    {start : State} {labels : List Label} (first : reached start) :
    EveryStep step condition start labels ↔ reached (run step start labels) := by
  induction labels generalizing start with
  | nil => exact iff_of_true trivial first
  | cons label labels ih =>
      rw [EveryStep, exactly start label first, run_cons]
      constructor
      · rintro ⟨next, rest⟩
        exact (ih next).mp rest
      · intro last
        have next : reached (step start label) := by
          by_contra gone
          exact @run_invariant_always State Label step (fun state => ¬ reached state)
            (fun state label gone next => gone (lost state label next)) _ labels gone last
        exact ⟨next, (ih next).mpr last⟩

section Sweep

variable {Key Entry : Type*} [DecidableEq Key] {step : State → Label → State} {condition : State → Label → Prop}
  {key : Label → Key} {entry : State → Key → Entry} {change : Label → Entry → Entry}

/-- A sweep leaves the entries of the keys that it does not name. -/
theorem entry_sweep_of_notMem
    (acts : ∀ state label, condition state label → ∀ query,
      entry (step state label) query = if query = key label then change label (entry state query)
        else entry state query)
    {start : State} {labels : List Label} (every : EveryStep step condition start labels) {query : Key}
    (unnamed : query ∉ labels.map key) : entry (run step start labels) query = entry start query := by
  induction labels generalizing start with
  | nil => rfl
  | cons label rest ih =>
      rw [List.map_cons, List.mem_cons, not_or] at unnamed
      rw [run_cons, ih every.2 unnamed.2, acts start label every.1, if_neg unnamed.1]

/-- A sweep over distinct keys changes the entry of each named key once. -/
theorem entry_sweep_of_mem
    (acts : ∀ state label, condition state label → ∀ query,
      entry (step state label) query = if query = key label then change label (entry state query)
        else entry state query)
    {start : State} {labels : List Label} (every : EveryStep step condition start labels)
    (distinct : (labels.map key).Nodup) {label : Label} (named : label ∈ labels) :
    entry (run step start labels) (key label) = change label (entry start (key label)) := by
  induction labels generalizing start with
  | nil => cases named
  | cons head rest ih =>
      rw [List.map_cons, List.nodup_cons] at distinct
      rw [run_cons]
      rcases List.mem_cons.mp named with rfl | later
      · rw [entry_sweep_of_notMem acts every.2 distinct.1, acts start label every.1, if_pos rfl]
      · have apart : key label ≠ key head := by
          intro same
          exact distinct.1 (same ▸ List.mem_map_of_mem later)
        rw [ih every.2 distinct.2 later, acts start head every.1, if_neg apart]

/-- The step of a named key finds the entry that the sweep began with. -/
theorem condition_sweep_of_mem
    (acts : ∀ state label, condition state label → ∀ query,
      entry (step state label) query = if query = key label then change label (entry state query)
        else entry state query)
    {start : State} {labels : List Label} (every : EveryStep step condition start labels)
    (distinct : (labels.map key).Nodup) {label : Label} (named : label ∈ labels) :
    ∃ before, condition before label ∧ entry before (key label) = entry start (key label) := by
  induction labels generalizing start with
  | nil => cases named
  | cons head rest ih =>
      rw [List.map_cons, List.nodup_cons] at distinct
      rcases List.mem_cons.mp named with rfl | later
      · exact ⟨start, every.1, rfl⟩
      · have apart : key label ≠ key head := by
          intro same
          exact distinct.1 (same ▸ List.mem_map_of_mem later)
        obtain ⟨before, holds, same⟩ := ih every.2 distinct.2 later
        rw [acts start head every.1, if_neg apart] at same
        exact ⟨before, holds, same⟩

end Sweep

/-- A pass that keeps its choice or takes the next item chooses one of the items. -/
theorem foldl_choice_mem {Item : Type*} {choose : Option Item → Item → Option Item}
    (chooses : ∀ held item, choose held item = held ∨ choose held item = some item) {items : List Item}
    {start : Option Item} {chosen : Item} (read : items.foldl choose start = some chosen) :
    start = some chosen ∨ chosen ∈ items := by
  induction items generalizing start with
  | nil => exact .inl read
  | cons item rest ih =>
      rcases ih read with here | later
      · rcases chooses start item with kept | taken
        · exact .inl (kept.symm.trans here)
        · exact .inr (Option.some.inj (taken.symm.trans here) ▸ List.mem_cons_self)
      · exact .inr (List.mem_cons_of_mem _ later)

section Fallible

variable {Error : Type*} {Value Result : Type u}

/-- A sequence succeeds exactly when both of its parts do. -/
theorem bind_eq_ok {first : Except Error Value} {rest : Value → Except Error Result} {result : Result} :
    first >>= rest = .ok result ↔ ∃ value, first = .ok value ∧ rest value = .ok result := by
  cases first with
  | error _ => exact iff_of_false (fun same => nomatch same) fun ⟨_, same, _⟩ => nomatch same
  | ok value => exact ⟨fun done => ⟨value, rfl, done⟩, fun ⟨_, same, done⟩ => Except.ok.inj same ▸ done⟩

/-- A mapped computation succeeds when its argument does. -/
theorem map_eq_ok {first : Except Error Value} {convert : Value → Result} {result : Result} :
    first.map convert = .ok result ↔ ∃ value, first = .ok value ∧ convert value = result := by
  cases first with
  | error _ => exact iff_of_false (fun same => nomatch same) fun ⟨_, same, _⟩ => nomatch same
  | ok value =>
      exact ⟨fun done => ⟨value, rfl, Except.ok.inj done⟩,
        fun ⟨_, same, done⟩ => congrArg Except.ok (Except.ok.inj same ▸ done)⟩

/-- Only the errors are mapped. -/
theorem mapError_eq_ok {Other : Type*} {first : Except Error Value} {convert : Error → Other} {value : Value} :
    first.mapError convert = .ok value ↔ first = .ok value := by
  cases first with
  | error _ => exact iff_of_false (fun same => nomatch same) fun same => nomatch same
  | ok held => exact ⟨fun same => congrArg Except.ok (Except.ok.inj same),
      fun same => congrArg Except.ok (Except.ok.inj same)⟩

/-- A list is converted when each of its items is. -/
theorem mapM_eq_ok {Item : Type*} {convert : Item → Except Error Value} {items : List Item} {values : List Value} :
    items.mapM convert = .ok values ↔ List.Forall₂ (fun item value => convert item = .ok value) items values := by
  induction items generalizing values with
  | nil =>
      rw [List.mapM_nil, List.forall₂_nil_left_iff]
      exact ⟨fun done => (Except.ok.inj done).symm, fun none => congrArg Except.ok none.symm⟩
  | cons item rest ih =>
      rw [List.mapM_cons, bind_eq_ok, List.forall₂_cons_left_iff]
      constructor
      · rintro ⟨value, first, converted⟩
        obtain ⟨others, later, done⟩ := bind_eq_ok.mp converted
        exact ⟨value, others, first, ih.mp later, (Except.ok.inj done).symm⟩
      · rintro ⟨value, others, first, later, rfl⟩
        exact ⟨value, first, bind_eq_ok.mpr ⟨others, ih.mpr later, rfl⟩⟩

/-- All items are converted exactly when each is. -/
theorem exists_mapM_eq_ok {Item : Type*} {convert : Item → Except Error Value} {items : List Item} :
    (∃ values, items.mapM convert = .ok values) ↔ ∀ item ∈ items, ∃ value, convert item = .ok value := by
  simp only [mapM_eq_ok]
  constructor
  · rintro ⟨values, converted⟩
    induction converted with
    | nil => simp
    | cons first _ ih => exact List.forall_mem_cons.mpr ⟨⟨_, first⟩, ih⟩
  · intro each
    induction items with
    | nil => exact ⟨[], .nil⟩
    | cons item rest ih =>
        obtain ⟨⟨value, first⟩, later⟩ := List.forall_mem_cons.mp each
        obtain ⟨values, converted⟩ := ih later
        exact ⟨value :: values, .cons first converted⟩

/-- A converted value comes from a listed item. -/
theorem mem_of_converted {Item : Type*} {convert : Item → Except Error Value} {items : List Item} {values : List Value}
    (converted : List.Forall₂ (fun item value => convert item = .ok value) items values) {value : Value} :
    value ∈ values ↔ ∃ item ∈ items, convert item = .ok value := by
  induction converted with
  | nil => simp
  | @cons item first _ _ same _ ih =>
      have firstly : convert item = .ok value ↔ value = first := by
        rw [same]
        exact ⟨fun equal => (Except.ok.inj equal).symm, fun equal => congrArg Except.ok equal.symm⟩
      rw [List.mem_cons, List.exists_mem_cons_iff, ih, firstly]

/-- A found value is the only success. -/
theorem elim_error_eq_ok {found : Option Value} {error : Error} {value : Value} :
    found.elim (.error error) .ok = (.ok value : Except Error Value) ↔ found = some value := by
  cases found with
  | none => exact iff_of_false (fun same => nomatch same) fun same => nomatch same
  | some held =>
      exact ⟨fun same => congrArg some (Except.ok.inj same),
        fun same => congrArg Except.ok (Option.some.inj same)⟩

/-- A fallible run succeeds exactly when its first step and the rest of it do. -/
theorem foldlM_cons_eq_ok {step : State → Label → Except Error State} {start final : State}
    {label : Label} {rest : List Label} :
    (label :: rest).foldlM step start = .ok final ↔
      ∃ middle, step start label = .ok middle ∧ rest.foldlM step middle = .ok final := by
  rw [List.foldlM_cons, bind_eq_ok]

/-- What every successful step preserves holds after a successful run. -/
theorem foldlM_invariant {step : State → Label → Except Error State} {invariant : State → Prop}
    (preserved : ∀ state label next, invariant state → step state label = .ok next → invariant next)
    {start final : State} {labels : List Label} (done : labels.foldlM step start = .ok final)
    (initially : invariant start) : invariant final := by
  induction labels generalizing start with
  | nil => exact Except.ok.inj done ▸ initially
  | cons label rest ih =>
      obtain ⟨middle, first, later⟩ := foldlM_cons_eq_ok.mp done
      exact ih later (preserved start label middle initially first)

end Fallible

/-- A measure that no step lowers is never lowered by a run. -/
theorem run_monotone {Value : Type*} [Preorder Value] {step : State → Label → State}
    {measure : State → Value}
    (grows : ∀ state label, measure state ≤ measure (step state label))
    (start : State) (labels : List Label) : measure start ≤ measure (run step start labels) := by
  induction labels generalizing start with
  | nil => exact le_refl _
  | cons label rest ih => exact (grows _ _).trans (ih _)

end AiMemory.Library
