import Mathlib.Data.List.Infix

/-
This file develops patterns with wildcards and an escape mark, and what an escaped prefix matches.
-/

namespace AiMemory.Library

universe u
variable {Letter : Type u}

/-- A pattern is read into these parts; a lone escape at its end matches nothing. -/
inductive LikePart (Letter : Type u) where
  | exact (letter : Letter)
  | one
  | run
  | never
  deriving DecidableEq

structure LikeMarks (Letter : Type u) where
  escape : Letter
  one : Letter
  run : Letter

namespace LikeMarks

variable [DecidableEq Letter] (marks : LikeMarks Letter)

def read : List Letter → List (LikePart Letter)
  | [] => []
  | letter :: rest =>
      if letter = marks.escape then
        match rest with
        | [] => [.never]
        | literal :: rest => .exact literal :: read rest
      else if letter = marks.run then .run :: read rest
      else if letter = marks.one then .one :: read rest
      else .exact letter :: read rest

/-- The escaped text puts the escape mark before both wildcards. -/
def escapeLetter (letter : Letter) : List Letter :=
  if letter = marks.run ∨ letter = marks.one then [marks.escape, letter] else [letter]

def escaped (text : List Letter) : List Letter := text.flatMap marks.escapeLetter

theorem escaped_cons (letter : Letter) (text : List Letter) :
    marks.escaped (letter :: text) = marks.escapeLetter letter ++ marks.escaped text := List.flatMap_cons

@[simp] theorem read_escape (literal : Letter) (rest : List Letter) :
    marks.read (marks.escape :: literal :: rest) = .exact literal :: marks.read rest := by
  rw [read.eq_def]
  simp

/-- A letter other than the escape mark is read by itself. -/
theorem read_plain {letter : Letter} (plain : letter ≠ marks.escape) (rest : List Letter) :
    marks.read (letter :: rest) =
      (if letter = marks.run then .run else if letter = marks.one then .one else .exact letter) ::
        marks.read rest := by
  rw [read.eq_def]
  simp only [if_neg plain]
  split_ifs <;> rfl

/-- The letters that are read in the place of an escaped text: an escape mark of the text gives way to the letter after
it. There are none where it frees a wildcard. -/
def unescaped : List Letter → Option (List Letter)
  | [] => some []
  | letter :: rest =>
      if letter = marks.escape then
        match rest with
        | [] => some []
        | next :: rest => if next = marks.run ∨ next = marks.one then none else (unescaped rest).map (next :: ·)
      else (unescaped rest).map (letter :: ·)

/-- A text without the escape mark keeps its letters. -/
theorem unescaped_plain {text : List Letter} (plain : marks.escape ∉ text) : marks.unescaped text = some text := by
  induction text with
  | nil => rw [unescaped]
  | cons letter text ih =>
      rw [List.mem_cons, not_or] at plain
      rw [unescaped.eq_def]
      simp only [if_neg (Ne.symm plain.1), ih plain.2, Option.map_some]

/-- Before a letter that is no mark an escaped text is read as its letters. -/
theorem read_unescaped (apart : marks.escape ≠ marks.run ∧ marks.escape ≠ marks.one) {text letters : List Letter}
    (reads : marks.unescaped text = some letters) {last : Letter}
    (ends : last ≠ marks.escape ∧ last ≠ marks.run ∧ last ≠ marks.one) (rest : List Letter) :
    marks.read (marks.escaped text ++ last :: rest) = letters.map .exact ++ .exact last :: marks.read rest := by
  have lone : marks.escapeLetter marks.escape = [marks.escape] := if_neg (not_or.mpr apart)
  fun_induction marks.unescaped text generalizing letters with
  | case1 =>
      obtain rfl := Option.some.inj reads
      show marks.read (last :: rest) = _
      rw [read_plain marks ends.1, if_neg ends.2.1, if_neg ends.2.2]
      rfl
  | case2 =>
      obtain rfl := Option.some.inj reads
      rw [escaped_cons, lone]
      exact read_escape marks last rest
  | case3 => cases reads
  | case4 next text plain ih =>
      obtain ⟨more, moreReads, rfl⟩ := Option.map_eq_some_iff.mp reads
      have kept : marks.escapeLetter next = [next] := if_neg plain
      rw [escaped_cons, lone, escaped_cons, kept]
      show marks.read (marks.escape :: next :: (marks.escaped text ++ last :: rest)) = _
      rw [read_escape, ih moreReads]
      rfl
  | case5 letter text plain ih =>
      obtain ⟨more, moreReads, rfl⟩ := Option.map_eq_some_iff.mp reads
      rw [escaped_cons, escapeLetter]
      by_cases wild : letter = marks.run ∨ letter = marks.one
      · rw [if_pos wild]
        show marks.read (marks.escape :: letter :: (marks.escaped text ++ last :: rest)) = _
        rw [read_escape, ih moreReads]
        rfl
      · rw [if_neg wild]
        show marks.read (letter :: (marks.escaped text ++ last :: rest)) = _
        rw [read_plain marks plain, ih moreReads, if_neg (not_or.mp wild).1, if_neg (not_or.mp wild).2]
        rfl

section Apart

variable {Image : Type*} {fold : Letter → Image} {last : Letter}
  (lone : ∀ letter, fold letter = fold marks.escape → letter = marks.escape) (ends : last ≠ marks.escape)
include lone ends

/-- Behind further escape marks a text does not start with what is read in its place. -/
theorem not_prefix_of_escape {text letters : List Letter} (reads : marks.unescaped text = some letters)
    (rest : List Letter) (more : Nat) :
    ¬ (letters ++ [last]).map fold <+:
      (List.replicate (more + 1) marks.escape ++ (text ++ last :: rest)).map fold := by
  have apart : fold last ≠ fold marks.escape := fun same => ends (lone last same)
  fun_induction marks.unescaped text generalizing letters more with
  | case1 =>
      obtain rfl := Option.some.inj reads
      simp [List.replicate_succ, List.cons_prefix_cons, apart]
  | case2 =>
      obtain rfl := Option.some.inj reads
      simp [List.replicate_succ, List.cons_prefix_cons, apart]
  | case3 => cases reads
  | case4 next text plain ih =>
      obtain ⟨found, foundReads, rfl⟩ := Option.map_eq_some_iff.mp reads
      intro below
      rw [List.replicate_succ, List.cons_append, List.cons_append, List.map_cons, List.map_cons,
        List.cons_prefix_cons] at below
      -- The freed letter is itself an escape mark, so one more of them stands before the rest.
      obtain rfl := lone next below.1
      apply ih foundReads (more + 1)
      have marked : List.replicate more marks.escape ++ (marks.escape :: marks.escape :: text ++ last :: rest) =
          List.replicate (more + 1 + 1) marks.escape ++ (text ++ last :: rest) := by
        rw [List.replicate_succ', List.replicate_succ']
        simp
      rw [← marked]
      exact below.2
  | case5 letter text plain ih =>
      obtain ⟨found, foundReads, rfl⟩ := Option.map_eq_some_iff.mp reads
      rw [List.replicate_succ, List.cons_append, List.cons_append, List.map_cons, List.map_cons,
        List.cons_prefix_cons]
      exact fun below => plain (lone letter below.1)

/-- A text with an escape mark does not start with what is read in its place. -/
theorem not_prefix_unescaped {text letters : List Letter} (reads : marks.unescaped text = some letters)
    (escaping : marks.escape ∈ text) (rest : List Letter) :
    ¬ (letters ++ [last]).map fold <+: (text ++ last :: rest).map fold := by
  fun_induction marks.unescaped text generalizing letters with
  | case1 => exact absurd escaping List.not_mem_nil
  | case2 =>
      obtain rfl := Option.some.inj reads
      have apart : fold last ≠ fold marks.escape := fun same => ends (lone last same)
      simp [List.cons_prefix_cons, apart]
  | case3 => cases reads
  | case4 next text plain ih =>
      obtain ⟨found, foundReads, rfl⟩ := Option.map_eq_some_iff.mp reads
      intro below
      rw [List.cons_append, List.cons_append, List.map_cons, List.map_cons, List.cons_prefix_cons] at below
      obtain rfl := lone next below.1
      exact not_prefix_of_escape marks lone ends foundReads rest 0 below.2
  | case5 letter text plain ih =>
      obtain ⟨found, foundReads, rfl⟩ := Option.map_eq_some_iff.mp reads
      have later : marks.escape ∈ text := (List.mem_cons.mp escaping).resolve_left (Ne.symm plain)
      rw [List.cons_append, List.cons_append, List.map_cons, List.map_cons, List.cons_prefix_cons]
      exact fun below => ih foundReads later below.2

end Apart

end LikeMarks

section Match

variable {Image : Type*} [DecidableEq Image] (fold : Letter → Image)

/-- Two letters match when they fold to the same image. -/
def likeMatch : List (LikePart Letter) → List Letter → Bool
  | [], text => text.isEmpty
  | .run :: parts, text => text.tails.any (likeMatch parts)
  | .exact letter :: parts, other :: text => fold letter = fold other && likeMatch parts text
  | .one :: parts, _ :: text => likeMatch parts text
  | _ :: _, _ => false

/-- Letters and a final run match the texts that start with a variant of the letters. -/
theorem likeMatch_start_iff (start text : List Letter) :
    likeMatch fold (start.map .exact ++ [.run]) text = true ↔ start.map fold <+: text.map fold := by
  induction start generalizing text with
  | nil =>
      have last : [] ∈ text.tails := (List.mem_tails _ _).mpr List.nil_suffix
      have matched : likeMatch fold ([] : List (LikePart Letter)) [] = true := rfl
      have found : text.tails.any (likeMatch fold []) = true := List.any_eq_true.mpr ⟨[], last, matched⟩
      exact iff_of_true found List.nil_prefix
  | cons letter start ih =>
      cases text with
      | nil => simp [likeMatch]
      | cons other text => simp [likeMatch, ih, List.cons_prefix_cons]

end Match
end AiMemory.Library
