import Mathlib.Data.List.Forall2
import Mathlib.Data.List.Induction

/-
This file proves that who knows no secret can only extend the chains of codes that it was given.
-/

namespace AiMemory.Library

universe u v
variable {Value : Type u} {Data : Type v}

/-- Each code of a chain is keyed with the code before it. -/
def chain (mac : Value → Data → Value) (secret : Value) (blocks : List Data) : Value :=
  blocks.foldl mac secret

@[simp] theorem chain_concat (mac : Value → Data → Value) (secret : Value) (blocks : List Data)
    (block : Data) :
    chain mac secret (blocks ++ [block]) = mac (chain mac secret blocks) block := by
  rw [chain, List.foldl_append, List.foldl_cons, List.foldl_nil, ← chain]

/-- Different keys or data give different codes. -/
def KeyedInjective (mac : Value → Data → Value) : Prop :=
  ∀ ⦃key data key' data'⦄, mac key data = mac key' data' → key = key' ∧ data = data'

/-- An attacker knows what it was given, what is neither a code nor hidden, and the codes under known keys. -/
inductive Knows (mac : Value → Data → Value) (hidden given : Value → Prop) : Value → Prop
  | given {value : Value} (received : given value) : Knows mac hidden given value
  | atom {value : Value} (unkeyed : ∀ key data, mac key data ≠ value) (free : ¬ hidden value) :
      Knows mac hidden given value
  | mac {key : Value} (known : Knows mac hidden given key) (data : Data) :
      Knows mac hidden given (mac key data)

section Knowledge

variable {mac : Value → Data → Value} {hidden given : Value → Prop}

/-- A hidden value that is no code and was not given stays unknown. -/
theorem not_knows_of_hidden {value : Value} (secret : hidden value)
    (unkeyed : ∀ key data, mac key data ≠ value) (kept : ¬ given value) : ¬ Knows mac hidden given value := by
  intro known
  cases known with
  | given received => exact kept received
  | atom _ free => exact free secret
  | mac _ data => exact unkeyed _ _ rfl

/-- A code is known because it was given or because its key is known. -/
theorem knows_mac (injective : KeyedInjective mac) {key : Value} {data : Data}
    (known : Knows mac hidden given (mac key data)) :
    given (mac key data) ∨ Knows mac hidden given key := by
  generalize same : mac key data = code at known
  cases known with
  | given received => exact .inl received
  | atom unkeyed _ => exact absurd same (unkeyed key data)
  | mac knownKey _ => exact .inr ((injective same).1 ▸ knownKey)

/-- A known chain under an unknown secret extends a chain that was given. -/
theorem exists_given_of_knows_chain (injective : KeyedInjective mac) {secret : Value} {blocks : List Data}
    (unknown : ¬ Knows mac hidden given secret) (known : Knows mac hidden given (chain mac secret blocks)) :
    ∃ earlier, earlier <+: blocks ∧ given (chain mac secret earlier) := by
  induction blocks using List.reverseRecOn with
  | nil => exact absurd known unknown
  | append_singleton blocks block ih =>
      rw [chain_concat] at known
      rcases knows_mac injective known with received | knownKey
      · exact ⟨blocks ++ [block], List.prefix_rfl, chain_concat mac secret blocks block ▸ received⟩
      · obtain ⟨earlier, start, received⟩ := ih knownKey
        exact ⟨earlier, start.trans (List.prefix_append _ _), received⟩

end Knowledge

/-- Chains whose first blocks occur nowhere later are equal only block by block. -/
theorem chain_inj {mac : Value → Data → Value} (injective : KeyedInjective mac) {secret secret' : Value}
    {root root' : Data} {blocks blocks' : List Data} (later : root ∉ blocks') (later' : root' ∉ blocks)
    (same : chain mac secret (root :: blocks) = chain mac secret' (root' :: blocks')) :
    root = root' ∧ blocks = blocks' := by
  induction blocks using List.reverseRecOn generalizing blocks' with
  | nil =>
      rcases blocks'.eq_nil_or_concat' with rfl | ⟨rest, last, rfl⟩
      · exact ⟨(injective same).2, rfl⟩
      · rw [← List.cons_append, chain_concat] at same
        exact absurd ((injective same).2 ▸ List.mem_append_cons_self) later
  | append_singleton blocks block ih =>
      rw [← List.cons_append, chain_concat] at same
      rcases blocks'.eq_nil_or_concat' with rfl | ⟨rest, last, rfl⟩
      · exact absurd ((injective same).2 ▸ List.mem_append_cons_self) later'
      · rw [← List.cons_append, chain_concat] at same
        obtain ⟨sameChain, rfl⟩ := injective same
        have earlier := ih (fun present => later (List.mem_append_left _ present))
          (fun present => later' (List.mem_append_left _ present)) sameChain
        exact ⟨earlier.1, congrArg (· ++ [block]) earlier.2⟩

/-- The partner of a beginning of the second list is a beginning of the first list. -/
theorem isPrefix_of_forall₂ {Source : Type*} {relation : Source → Data → Prop}
    (unique : Relator.LeftUnique relation) {sources short : List Source} {blocks earlier : List Data}
    (whole : List.Forall₂ relation sources blocks) (part : List.Forall₂ relation short earlier)
    (start : earlier <+: blocks) : short <+: sources := by
  have taken := List.forall₂_take earlier.length whole
  rw [← List.prefix_iff_eq_take.mp start] at taken
  rw [List.left_unique_forall₂' unique part taken]
  exact List.take_prefix _ _

end AiMemory.Library
