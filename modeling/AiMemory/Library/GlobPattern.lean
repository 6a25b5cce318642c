import Mathlib.Data.List.Infix
import Mathlib.Data.Nat.Find

/-
This file develops patterns of letters and runs, where one kind of run may not cross a mark.
-/

namespace AiMemory.Library

universe u
variable {Letter : Type u}

inductive GlobPart (Letter : Type u) where
  | exact (letter : Letter)
  | run (crosses : Bool)
  deriving DecidableEq

/-- The letters before the next run. -/
def literals : List (GlobPart Letter) → List Letter
  | .exact letter :: parts => letter :: literals parts
  | _ => []

def hasRun : List (GlobPart Letter) → Bool
  | [] => false
  | .exact _ :: parts => hasRun parts
  | .run _ :: _ => true

/-- The letters before a further run can be read here. -/
def Locks (parts : List (GlobPart Letter)) (text : List Letter) : Prop :=
  hasRun parts = true ∧ literals parts <+: text

variable (mark : Letter)

/-- Each run takes some letters; a run that does not cross takes no mark. -/
inductive Covers : List (GlobPart Letter) → List Letter → Prop
  | done : Covers [] []
  | exact {letter : Letter} {parts : List (GlobPart Letter)} {text : List Letter} :
      Covers parts text → Covers (.exact letter :: parts) (letter :: text)
  | run {crosses : Bool} {parts : List (GlobPart Letter)} {taken text : List Letter} :
      (crosses = true ∨ mark ∉ taken) → Covers parts text → Covers (.run crosses :: parts) (taken ++ text)

/-- Each run but the last stops at the first place where the letters before the next run can be read. -/
inductive Commits : List (GlobPart Letter) → List Letter → Prop
  | done : Commits [] []
  | exact {letter : Letter} {parts : List (GlobPart Letter)} {text : List Letter} :
      Commits parts text → Commits (.exact letter :: parts) (letter :: text)
  | run {crosses : Bool} {parts : List (GlobPart Letter)} {taken text : List Letter} :
      (crosses = true ∨ mark ∉ taken) →
      (∀ less rest, less ++ rest = taken ++ text → less.length < taken.length → ¬ Locks parts rest) →
      Commits parts text → Commits (.run crosses :: parts) (taken ++ text)

variable {mark} {parts : List (GlobPart Letter)} {text : List Letter}

/-- A parse that commits is a parse. -/
theorem Commits.covers (commits : Commits mark parts text) : Covers mark parts text := by
  induction commits with
  | done => exact .done
  | exact _ ih => exact .exact ih
  | run takes _ _ ih => exact .run takes ih

/-- What a pattern covers starts with its first letters. -/
theorem Covers.literals_prefix (covers : Covers mark parts text) : literals parts <+: text := by
  induction covers with
  | done => exact List.prefix_rfl
  | exact _ ih => exact (List.prefix_cons_inj _).mpr ih
  | run _ _ _ => exact List.nil_prefix

@[simp] theorem literals_map_exact (letters : List Letter) (parts : List (GlobPart Letter)) :
    literals (letters.map .exact ++ parts) = letters ++ literals parts := by
  induction letters with
  | nil => rfl
  | cons letter letters ih => rw [List.map_cons, List.cons_append, literals, ih, List.cons_append]

/-- The empty pattern reads the empty text only. -/
theorem commits_nil_iff : Commits mark [] text ↔ text = [] := by
  constructor
  · intro commits
    cases commits
    rfl
  · rintro rfl
    exact .done

/-- A letter is read first. -/
theorem commits_exact_iff {letter : Letter} :
    Commits mark (.exact letter :: parts) text ↔ ∃ rest, text = letter :: rest ∧ Commits mark parts rest := by
  constructor
  · intro commits
    cases commits with
    | exact rest => exact ⟨_, rfl, rest⟩
  · rintro ⟨rest, rfl, commits⟩
    exact .exact commits

/-- A run stops here, or it takes one letter more where the next letters cannot be read. -/
theorem commits_run_iff {crosses : Bool} :
    Commits mark (.run crosses :: parts) text ↔
      Commits mark parts text ∨
        ¬ Locks parts text ∧ ∃ letter rest, text = letter :: rest ∧ (crosses = true ∨ letter ≠ mark) ∧
          Commits mark (.run crosses :: parts) rest := by
  constructor
  · intro commits
    cases commits with
    | @run _ _ taken rest takes first commits =>
        cases taken with
        | nil => exact .inl commits
        | cons letter taken =>
            refine .inr ⟨first [] _ rfl (Nat.zero_lt_succ _), letter, taken ++ rest, rfl, ?_, .run ?_ ?_ commits⟩
            · exact takes.imp_right fun absent same => absent (same ▸ List.mem_cons_self)
            · exact takes.imp_right fun absent present => absent (List.mem_cons_of_mem _ present)
            · intro less after same shorter
              exact first (letter :: less) after (congrArg (List.cons letter) same) (Nat.succ_lt_succ shorter)
  · rintro (commits | ⟨unlocked, letter, rest, rfl, allowed, commits⟩)
    · exact @Commits.run _ mark crosses parts [] text (.inr List.not_mem_nil)
        (fun _ _ _ none => absurd none (Nat.not_lt_zero _)) commits
    · cases commits with
      | @run _ _ taken rest takes first commits =>
          have grown : crosses = true ∨ mark ∉ letter :: taken := by
            rcases allowed with crosses | other
            · exact .inl crosses
            · exact takes.imp_right fun absent present =>
                (List.mem_cons.mp present).elim (fun same => other same.symm) absent
          refine @Commits.run _ mark crosses parts (letter :: taken) rest grown
            (fun less after same shorter => ?_) commits
          cases less with
          | nil =>
              rw [List.nil_append] at same
              rw [same]
              exact unlocked
          | cons head less =>
              exact first less after (List.cons.inj same).2 (Nat.lt_of_succ_lt_succ shorter)

/-- A run takes a part of the text, without a mark unless it crosses. -/
theorem covers_run_iff {crosses : Bool} :
    Covers mark (.run crosses :: parts) text ↔
      ∃ taken rest, text = taken ++ rest ∧ (crosses = true ∨ mark ∉ taken) ∧ Covers mark parts rest := by
  constructor
  · intro covers
    cases covers with
    | @run _ _ taken rest takes covers => exact ⟨taken, rest, rfl, takes, covers⟩
  · rintro ⟨taken, rest, rfl, takes, covers⟩
    exact .run takes covers

/-- The letters before a run are read, and then the run takes its part. -/
theorem covers_literals (found : hasRun parts = true) :
    ∃ crosses later, (.run crosses ∈ parts ∧ later <:+ parts) ∧
      ∀ text, Covers mark parts text ↔
        ∃ rest, text = literals parts ++ rest ∧ Covers mark (.run crosses :: later) rest := by
  induction parts with
  | nil => cases found
  | cons part parts ih =>
      cases part with
      | run crosses =>
          refine ⟨crosses, parts, ⟨List.mem_cons_self, List.suffix_cons _ _⟩, fun text => ?_⟩
          constructor
          · exact fun covers => ⟨text, rfl, covers⟩
          · rintro ⟨rest, rfl, covers⟩
            exact covers
      | exact letter =>
          obtain ⟨crosses, later, ⟨held, tail⟩, reads⟩ := ih found
          refine ⟨crosses, later, ⟨List.mem_cons_of_mem _ held, tail.trans (List.suffix_cons _ _)⟩, fun text => ?_⟩
          constructor
          · intro covers
            cases covers with
            | exact inner =>
                obtain ⟨rest, rfl, onward⟩ := (reads _).mp inner
                exact ⟨rest, rfl, onward⟩
          · rintro ⟨rest, rfl, covers⟩
            exact .exact ((reads _).mpr ⟨rest, rfl, covers⟩)

/-- No run after a crossing one stays within a segment. -/
def Widening (parts : List (GlobPart Letter)) : Prop :=
  parts.Pairwise fun first second => first = .run true → second ≠ .run false

/-- The letters before the first mark are determined. -/
theorem before_mark_unique {first second after other : List Letter}
    (same : first ++ mark :: after = second ++ mark :: other)
    (firstFree : mark ∉ first) (secondFree : mark ∉ second) : first = second := by
  induction first generalizing second with
  | nil =>
      cases second with
      | nil => rfl
      | cons letter second => exact absurd (List.cons.inj same).1 (List.ne_of_not_mem_cons secondFree)
  | cons letter first ih =>
      cases second with
      | nil => exact absurd (List.cons.inj same).1.symm (List.ne_of_not_mem_cons firstFree)
      | cons head second =>
          obtain ⟨rfl, onward⟩ := List.cons.inj same
          rw [ih onward (fun held => firstFree (List.mem_cons_of_mem _ held))
            (fun held => secondFree (List.mem_cons_of_mem _ held))]

/-- A shorter first run hands what it leaves to the next run, unless that one would have to cross a mark. -/
theorem exchange {lits taken less rest tail second : List Letter}
    (same : taken ++ (lits ++ (second ++ rest)) = less ++ (lits ++ tail)) (shorter : less.length ≤ taken.length) :
    ∃ moved, tail = moved ++ rest ∧ (mark ∉ taken → mark ∉ second → mark ∉ moved) := by
  obtain ⟨extra, rfl⟩ : less <+: taken :=
    List.prefix_of_prefix_length_le (same ▸ List.prefix_append less _) (List.prefix_append taken _) shorter
  rw [List.append_assoc, List.append_right_inj] at same
  have longer : lits ++ tail = (extra ++ (lits ++ second)) ++ rest := by
    rw [← same]
    simp only [List.append_assoc]
  obtain ⟨moved, grown⟩ : lits <+: extra ++ (lits ++ second) := by
    refine List.prefix_of_prefix_length_le (longer ▸ List.prefix_append lits tail) (List.prefix_append _ rest) ?_
    simp only [List.length_append]
    omega
  refine ⟨moved, ?_, fun free clear present => ?_⟩
  · rw [← grown, List.append_assoc, List.append_right_inj] at longer
    exact longer
  · by_cases between : mark ∈ lits
    · -- A mark in the letters between the runs fixes where the first run ends.
      obtain ⟨before, after, rfl, first⟩ := List.eq_append_cons_of_mem between
      have aligned : before ++ mark :: (after ++ moved) = (extra ++ before) ++ mark :: (after ++ second) := by
        simpa only [List.append_assoc, List.cons_append] using grown
      have clearBefore : mark ∉ extra ++ before := fun held =>
        (List.mem_append.mp held).elim (fun held => free (List.mem_append_right _ held)) first
      have none : extra = [] := List.self_eq_append_left.mp (before_mark_unique aligned first clearBefore)
      rw [none, List.nil_append, List.append_right_inj] at grown
      exact clear (grown ▸ present)
    · have held : mark ∈ extra ++ (lits ++ second) := grown ▸ List.mem_append_right _ present
      rcases List.mem_append.mp held with inExtra | inRest
      · exact free (List.mem_append_right _ inExtra)
      · exact (List.mem_append.mp inRest).elim between clear

/-- The first place where the next letters can be read still covers the rest, if the pattern only widens. -/
theorem Covers.advance {crosses : Bool} (widening : Widening (.run crosses :: parts)) (later : hasRun parts = true)
    {taken rest less tail : List Letter} (takes : crosses = true ∨ mark ∉ taken) (covers : Covers mark parts rest)
    (same : less ++ tail = taken ++ rest) (shorter : less.length ≤ taken.length) (locks : Locks parts tail) :
    Covers mark parts tail := by
  obtain ⟨next, onward, ⟨held, _⟩, reads⟩ := @covers_literals _ mark parts later
  obtain ⟨behind, rfl, inner⟩ := (reads rest).mp covers
  obtain ⟨second, final, rfl, takesSecond, inner⟩ := covers_run_iff.mp inner
  obtain ⟨ahead, rfl⟩ := locks.2
  obtain ⟨moved, rfl, free⟩ := @exchange _ mark _ _ _ _ _ _ same.symm shorter
  refine (reads _).mpr ⟨_, rfl, .run ?_ inner⟩
  cases next with
  | true => exact .inl rfl
  | false =>
      -- A run within a segment follows only runs within a segment.
      have stays : crosses ≠ true := fun same =>
        (List.pairwise_cons.mp widening).1 _ held (congrArg GlobPart.run same) rfl
      exact .inr (free (takes.resolve_left stays) (takesSecond.resolve_left Bool.false_ne_true))

/-- A pattern that only widens is covered with every run but the last taking as little as it can. -/
theorem Covers.commits (widening : Widening parts) (covers : Covers mark parts text) :
    Commits mark parts text := by
  induction parts generalizing text with
  | nil =>
      cases covers
      exact .done
  | cons part parts ih =>
      have behind : Widening parts := (List.pairwise_cons.mp widening).2
      cases part with
      | exact letter =>
          cases covers with
          | exact inner => exact .exact (ih behind inner)
      | run crosses =>
          obtain ⟨taken, rest, rfl, takes, inner⟩ := covers_run_iff.mp covers
          by_cases later : hasRun parts = true
          · classical
            have reachable : ∃ length less tail, less ++ tail = taken ++ rest ∧ less.length = length ∧
                Locks parts tail := ⟨_, taken, rest, rfl, rfl, later, inner.literals_prefix⟩
            obtain ⟨less, tail, same, shortest, locks⟩ := Nat.find_spec reachable
            have shorter : less.length ≤ taken.length := shortest ▸
              Nat.find_min' reachable ⟨taken, rest, rfl, rfl, later, inner.literals_prefix⟩
            have start : less <+: taken :=
              List.prefix_of_prefix_length_le (same ▸ List.prefix_append less tail) (List.prefix_append _ _) shorter
            rw [← same]
            refine .run (takes.imp_right fun absent held => absent (start.subset held)) ?_
              (ih behind (inner.advance widening later takes same shorter locks))
            intro smaller after equal before locked
            exact Nat.find_min reachable (shortest ▸ before) ⟨smaller, after, equal.trans same, rfl, locked⟩
          · exact .run takes (fun _ _ _ _ locked => later locked.1) (ih behind inner)

end AiMemory.Library
