import Mathlib.Data.List.Basic
import Mathlib.Logic.Function.Basic

/-
This file develops codes whose words can be read off the front of a longer word.
-/

namespace AiMemory.Library

universe u v w
variable {Source : Type u} {Other : Type v} {Letter : Type w}

/-- A word and its remainder determine the source value and the remainder. -/
def PrefixCode (encode : Source → List Letter) : Prop :=
  ∀ first second firstRest secondRest,
    encode first ++ firstRest = encode second ++ secondRest →
      first = second ∧ firstRest = secondRest

namespace PrefixCode

variable {encode : Source → List Letter}

/-- A prefix code writes no two values alike. -/
theorem injective (code : PrefixCode encode) : Function.Injective encode := fun first second same =>
  (code first second [] [] (congrArg (· ++ []) same)).1

/-- An injective code of one width is a prefix code. -/
theorem of_width {width : Nat} (injective : Function.Injective encode)
    (sameWidth : ∀ value, (encode value).length = width) : PrefixCode encode := by
  intro first second firstRest secondRest same
  obtain ⟨words, rests⟩ := List.append_inj same ((sameWidth first).trans (sameWidth second).symm)
  exact ⟨injective words, rests⟩

/-- A reader that takes a word off the front makes a prefix code. -/
theorem of_reader {read : List Letter → Option (Source × List Letter)}
    (reads : ∀ value rest, read (encode value ++ rest) = some (value, rest)) : PrefixCode encode := by
  intro first second firstRest secondRest same
  have read := (reads first firstRest).symm.trans ((congrArg read same).trans (reads second secondRest))
  exact Prod.mk.inj (Option.some.inj read)

/-- A letter that starts no word ends a sequence of words. -/
theorem terminated (code : PrefixCode encode) {last : Letter}
    (starts : ∀ value, ∃ head tail, encode value = head :: tail ∧ head ≠ last) :
    PrefixCode fun values : List Source => values.flatMap encode ++ [last] := by
  intro first second firstRest secondRest same
  induction first generalizing second with
  | nil =>
      cases second with
      | nil => exact ⟨rfl, by simpa using same⟩
      | cons other others =>
          obtain ⟨head, tail, word, apart⟩ := starts other
          simp [word, apart.symm] at same
  | cons value values ih =>
      cases second with
      | nil =>
          obtain ⟨head, tail, word, apart⟩ := starts value
          simp [word, apart] at same
      | cons other others =>
          simp only [List.flatMap_cons, List.append_assoc] at same
          obtain ⟨rfl, rest⟩ := code _ _ _ _ same
          obtain ⟨rfl, rests⟩ := ih others (by simpa using rest)
          exact ⟨rfl, rests⟩

/-- A prefix code stays one when its values are read from others. -/
theorem comp (code : PrefixCode encode) {reads : Other → Source}
    (injective : Function.Injective reads) : PrefixCode fun value => encode (reads value) := by
  intro first second firstRest secondRest same
  obtain ⟨words, rests⟩ := code _ _ _ _ same
  exact ⟨injective words, rests⟩

/-- A header that tells the length of its body makes the body readable. -/
theorem with_length {header : Source → List Letter} {size : Source → Nat}
    (headers : ∀ first second firstRest secondRest,
      header first ++ firstRest = header second ++ secondRest →
        size first = size second ∧ firstRest = secondRest)
    (injective : Function.Injective encode)
    (sized : ∀ value, (encode value).length = size value) :
    PrefixCode fun value => header value ++ encode value := by
  intro first second firstRest secondRest same
  simp only [List.append_assoc] at same
  obtain ⟨sizes, bodies⟩ := headers _ _ _ _ same
  obtain ⟨words, rests⟩ := List.append_inj bodies (by rw [sized, sized, sizes])
  exact ⟨injective words, rests⟩

/-- Two different tags separate an absent value from a present one. -/
theorem option (code : PrefixCode encode) {absent present : Letter} (distinct : absent ≠ present) :
    PrefixCode fun value : Option Source =>
      value.elim [absent] fun value => present :: encode value := by
  intro first second firstRest secondRest same
  cases first <;> cases second
  · exact ⟨rfl, by simpa using same⟩
  · simp [distinct] at same
  · simp [distinct.symm] at same
  · simp only [Option.elim_some, List.cons_append, List.cons.injEq, true_and] at same
    obtain ⟨rfl, rests⟩ := code _ _ _ _ same
    exact ⟨rfl, rests⟩

end PrefixCode

/-- A sequence of words that each tell a part of their value tells the parts in order. -/
theorem map_eq_of_flatMap_eq {encode : Source → List Letter} {part : Source → Other}
    (code : ∀ first second firstRest secondRest,
      encode first ++ firstRest = encode second ++ secondRest →
        part first = part second ∧ firstRest = secondRest)
    (nonempty : ∀ value, encode value ≠ []) {firsts seconds : List Source}
    (same : firsts.flatMap encode = seconds.flatMap encode) : firsts.map part = seconds.map part := by
  induction firsts generalizing seconds with
  | nil =>
      cases seconds with
      | nil => rfl
      | cons second seconds =>
          rw [List.flatMap_nil, List.flatMap_cons] at same
          exact absurd (List.append_eq_nil_iff.mp same.symm).1 (nonempty second)
  | cons first firsts ih =>
      cases seconds with
      | nil =>
          rw [List.flatMap_nil, List.flatMap_cons] at same
          exact absurd (List.append_eq_nil_iff.mp same).1 (nonempty first)
      | cons second seconds =>
          obtain ⟨parts, rests⟩ := code _ _ _ _ same
          rw [List.map_cons, List.map_cons, parts, ih rests]

/-- A value can be read off the front of a longer word among the allowed values. -/
def ReadsBack (encode : Source → List Letter) (allowed : Source → Prop) (first : Source) : Prop :=
  ∀ second, allowed second → ∀ firstRest secondRest,
    encode first ++ firstRest = encode second ++ secondRest →
      first = second ∧ firstRest = secondRest

section ReadsBack

variable {encode : Source → List Letter} {allowed : Source → Prop}

/-- Values that all read back form a prefix code. -/
theorem PrefixCode.of_readsBack (reads : ∀ value, allowed value → ReadsBack encode allowed value) :
    PrefixCode fun value : {value // allowed value} => encode value.1 := by
  intro first second firstRest secondRest same
  obtain ⟨values, rests⟩ := reads first.1 first.2 second.1 second.2 firstRest secondRest same
  exact ⟨Subtype.ext values, rests⟩

/-- Two sequences of one length read back item by item. -/
theorem ReadsBack.flatMap {firsts seconds : List Source} {firstRest secondRest : List Letter}
    (reads : ∀ first ∈ firsts, ReadsBack encode allowed first)
    (permitted : ∀ second ∈ seconds, allowed second) (sameLength : firsts.length = seconds.length)
    (same : firsts.flatMap encode ++ firstRest = seconds.flatMap encode ++ secondRest) :
    firsts = seconds ∧ firstRest = secondRest := by
  induction firsts generalizing seconds with
  | nil =>
      obtain rfl := List.length_eq_zero_iff.mp sameLength.symm
      exact ⟨rfl, same⟩
  | cons first firsts ih =>
      obtain ⟨second, seconds, rfl⟩ := List.exists_cons_of_length_eq_add_one sameLength.symm
      obtain ⟨readsFirst, readsRest⟩ := List.forall_mem_cons.mp reads
      obtain ⟨permittedFirst, permittedRest⟩ := List.forall_mem_cons.mp permitted
      simp only [List.flatMap_cons, List.append_assoc] at same
      obtain ⟨rfl, sameRest⟩ := readsFirst second permittedFirst _ _ same
      obtain ⟨rfl, rests⟩ := ih readsRest permittedRest (Nat.succ.inj sameLength) sameRest
      exact ⟨rfl, rests⟩

end ReadsBack

section Cursor

/-- The codeword stands at the position, and the next position is behind it. -/
def Consumes (word : List Letter) (position : Nat) (codeword : List Letter) (next : Nat) : Prop :=
  codeword <+: word.drop position ∧ next = position + codeword.length

variable {word first second codeword : List Letter} {position middle next : Nat}

/-- What is consumed is followed by the rest of the word. -/
theorem Consumes.drop_next (consumed : Consumes word position codeword next) :
    word.drop position = codeword ++ word.drop next := by
  obtain ⟨⟨rest, whole⟩, rfl⟩ := consumed
  rw [← List.drop_drop, ← whole, List.drop_left]

/-- A read that starts inside the word ends inside it. -/
theorem Consumes.le_length (consumed : Consumes word position codeword next) (inside : position ≤ word.length) :
    next ≤ word.length := by
  obtain ⟨front, rfl⟩ := consumed
  have shorter := front.length_le
  rw [List.length_drop] at shorter
  omega

/-- Two codewords are consumed one after the other. -/
theorem consumes_append :
    Consumes word position (first ++ second) next ↔
      ∃ middle, Consumes word position first middle ∧ Consumes word middle second next := by
  constructor
  · rintro ⟨⟨rest, whole⟩, rfl⟩
    rw [List.append_assoc] at whole
    refine ⟨position + first.length, ⟨⟨second ++ rest, whole⟩, rfl⟩, ⟨rest, ?_⟩, ?_⟩
    · rw [← List.drop_drop, ← whole, List.drop_left]
    · rw [List.length_append, Nat.add_assoc]
  · rintro ⟨middle, consumed, ⟨rest, whole⟩, rfl⟩
    refine ⟨⟨rest, ?_⟩, ?_⟩
    · rw [consumed.drop_next, ← whole, List.append_assoc]
    · rw [consumed.2, List.length_append, Nat.add_assoc]

/-- A codeword that is consumed from the first position to the last is the whole word. -/
theorem consumes_whole : Consumes word 0 codeword word.length ↔ codeword = word := by
  constructor
  · rintro ⟨front, same⟩
    rw [List.drop_zero] at front
    exact front.eq_of_length (by omega)
  · rintro rfl
    exact ⟨List.prefix_refl _, (Nat.zero_add _).symm⟩

end Cursor
end AiMemory.Library
