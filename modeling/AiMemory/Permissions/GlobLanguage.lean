import AiMemory.Library.GlobPattern
import AiMemory.Permissions.Glob

/-
This file proves which values the iterative matcher accepts.
-/

namespace AiMemory.Permissions
open AiMemory.Library AiMemory.Machine

/-- Two stars in a row are one token, read from the left. -/
def tokens : Bytes → List (GlobPart UInt8)
  | [] => []
  | [byte] => if byte = star then [.run false] else [.exact byte]
  | byte :: next :: rest =>
      if byte = star then if next = star then .run true :: tokens rest else .run false :: tokens (next :: rest)
      else .exact byte :: tokens (next :: rest)

section Tokens

theorem tokens_exact {byte : UInt8} (literal : byte ≠ star) (rest : Bytes) :
    tokens (byte :: rest) = .exact byte :: tokens rest := by
  cases rest with
  | nil => simp only [tokens, if_neg literal]
  | cons next rest => rw [tokens, if_neg literal]

theorem tokens_double (rest : Bytes) : tokens (star :: star :: rest) = .run true :: tokens rest := by
  rw [tokens, if_pos rfl, if_pos rfl]

theorem tokens_single {rest : Bytes} (single : rest.head? ≠ some star) :
    tokens (star :: rest) = .run false :: tokens rest := by
  cases rest with
  | nil => rfl
  | cons next rest =>
      have other : next ≠ star := fun same => single (congrArg some same)
      rw [tokens, if_pos rfl, if_neg other]

/-- Only stars are left exactly when the empty value is accepted. -/
theorem commits_tokens_nil (pat : Bytes) :
    Commits slash (tokens pat) [] ↔ (pat.all fun byte => byte = star) = true := by
  induction pat using tokens.induct with
  | case1 => exact iff_of_true .done rfl
  | case2 =>
      rw [tokens, if_pos rfl, commits_run_iff]
      exact iff_of_true (.inl .done) (by decide)
  | case3 byte literal =>
      rw [tokens, if_neg literal, commits_exact_iff]
      refine iff_of_false (fun ⟨_, missing, _⟩ => by cases missing) ?_
      simpa using literal
  | case4 rest ih =>
      rw [tokens_double, commits_run_iff, ih]
      simp
  | case5 next rest literal ih =>
      rw [tokens, if_pos rfl, if_neg literal, commits_run_iff, ih]
      simp
  | case6 byte next rest literal ih =>
      rw [tokens, if_neg literal, commits_exact_iff]
      refine iff_of_false (fun ⟨_, missing, _⟩ => by cases missing) ?_
      simp [literal]

end Tokens

section Search

variable (pat val : Bytes) (state : GlobState)

/-- The pattern behind the last star. -/
def afterStar (sp : Nat) : Bytes := pat.drop (sp + if state.starDouble then 2 else 1)

/-- The last star takes the next byte and goes on. -/
def Retries : Prop :=
  ∃ sp ∈ state.starP, ∃ byte rest, val.drop state.starV = byte :: rest ∧
    (state.starDouble = true ∨ byte ≠ slash) ∧
    Commits slash (.run state.starDouble :: tokens (afterStar pat state sp)) rest

/-- The matcher accepts from here on, or its last star goes on where the next letters cannot be read. -/
def Accepts : Prop :=
  Commits slash (tokens (pat.drop state.p)) (val.drop state.v) ∨
    ¬ Locks (tokens (pat.drop state.p)) (val.drop state.v) ∧ Retries pat val state

/-- The bytes since the last star are those between the two cursors. -/
def Aligned : Prop :=
  ∀ sp ∈ state.starP, ∃ read, val.drop state.starV = read ++ val.drop state.v ∧
    tokens (afterStar pat state sp) = read.map .exact ++ tokens (pat.drop state.p)

variable {pat val state}

/-- The start of the search is aligned. -/
theorem aligned_start : Aligned pat val .start := fun _ none => by cases none

/-- At a new star the current attempt begins. -/
theorem accepts_of_star {next : GlobState} {sp : Nat} (last : next.starP = some sp)
    (cursor : next.p = sp + if next.starDouble then 2 else 1) (behind : next.starV = next.v) :
    Accepts pat val next ↔
      Commits slash (.run next.starDouble :: tokens (pat.drop next.p)) (val.drop next.v) := by
  have after : afterStar pat next sp = pat.drop next.p := by rw [afterStar, cursor]
  rw [Accepts, commits_run_iff, Retries, last, behind]
  simp only [Option.mem_def, Option.some.injEq, exists_eq_left', after]

/-- A state behind a star is aligned. -/
theorem aligned_of_star {next : GlobState} {sp : Nat} (last : next.starP = some sp)
    (cursor : next.p = sp + if next.starDouble then 2 else 1) (behind : next.starV = next.v) :
    Aligned pat val next := by
  intro other held
  obtain rfl := Option.some.inj (last.symm.trans held)
  refine ⟨[], by rw [behind]; rfl, ?_⟩
  rw [afterStar, ← cursor]
  rfl

/-- Where the current attempt is dead, the last star takes one byte more or the matcher gives up. -/
theorem retreat_accepts (aligned : Aligned pat val state) (inside : state.v < val.length)
    (dead : ¬ Commits slash (tokens (pat.drop state.p)) (val.drop state.v))
    (unlocked : ¬ Locks (tokens (pat.drop state.p)) (val.drop state.v)) :
    (∀ next, retreat val state = some next →
        Aligned pat val next ∧ (Accepts pat val next ↔ Accepts pat val state)) ∧
      (retreat val state = none → ¬ Accepts pat val state) := by
  have retries : Accepts pat val state ↔ Retries pat val state :=
    (or_iff_right dead).trans (and_iff_right unlocked)
  rw [retries, retreat]
  cases last : state.starP with
  | none =>
      refine ⟨fun next same => ?_, fun _ retrying => ?_⟩
      · cases same
      · obtain ⟨sp, held, _⟩ := retrying
        rw [last] at held
        cases held
  | some sp =>
      obtain ⟨read, split, _⟩ := aligned sp last
      have room : state.starV < val.length := by
        have lengths := congrArg List.length split
        simp only [List.length_append, List.length_drop] at lengths
        omega
      have byteAt : val[state.starV]? = some val[state.starV] := List.getElem?_eq_getElem room
      have cut := List.drop_eq_getElem_cons room
      have goesOn : Retries pat val state ↔ (state.starDouble = true ∨ val[state.starV] ≠ slash) ∧
          Commits slash (.run state.starDouble :: tokens (afterStar pat state sp)) (val.drop (state.starV + 1)) := by
        rw [Retries, last, cut]
        constructor
        · rintro ⟨other, held, byte, rest, same, allowed, commits⟩
          obtain rfl := Option.some.inj held
          obtain ⟨rfl, rfl⟩ := List.cons.inj same
          exact ⟨allowed, commits⟩
        · rintro ⟨allowed, commits⟩
          exact ⟨sp, rfl, _, _, rfl, allowed, commits⟩
      simp only [byteAt, Option.some.injEq]
      by_cases barred : state.starDouble = false ∧ val[state.starV] = slash
      · rw [if_pos barred]
        refine ⟨fun next same => ?_, fun _ held => ?_⟩
        · cases same
        · rcases (goesOn.mp held).1 with crosses | other
          · exact absurd (barred.1.symm.trans crosses) Bool.false_ne_true
          · exact other barred.2
      · rw [if_neg barred]
        have allowed : state.starDouble = true ∨ val[state.starV] ≠ slash := by
          rw [not_and_or, Bool.not_eq_false] at barred
          exact barred
        refine ⟨fun next same => ?_, fun missing => ?_⟩
        · rw [goesOn, ← Option.some.inj same]
          refine ⟨aligned_of_star rfl rfl rfl, ?_⟩
          rw [accepts_of_star rfl rfl rfl]
          exact (and_iff_right allowed).symm
        · cases missing

/-- At a star the pattern goes on with a run. -/
theorem tokens_star {cursor : Nat} (found : pat[cursor]? = some star) :
    tokens (pat.drop cursor) =
      .run (decide (cursor + 1 < pat.length ∧ pat[cursor + 1]? = some star)) ::
        tokens (pat.drop (cursor +
          if decide (cursor + 1 < pat.length ∧ pat[cursor + 1]? = some star) then 2 else 1)) := by
  obtain ⟨room, same⟩ := List.getElem?_eq_some_iff.mp found
  rw [List.drop_eq_getElem_cons room, same]
  by_cases double : cursor + 1 < pat.length ∧ pat[cursor + 1]? = some star
  · obtain ⟨_, second⟩ := List.getElem?_eq_some_iff.mp double.2
    rw [decide_eq_true double, if_pos rfl, List.drop_eq_getElem_cons double.1, second, tokens_double]
  · rw [decide_eq_false double, if_neg Bool.false_ne_true, tokens_single]
    rw [List.head?_drop]
    exact fun second => double ⟨(List.getElem?_eq_some_iff.mp second).1, second⟩

/-- Before a run nothing has to be read, so the matcher commits to the attempt. -/
theorem accepts_iff_of_run {crosses : Bool} {parts : List (GlobPart UInt8)}
    (ahead : tokens (pat.drop state.p) = .run crosses :: parts) :
    Accepts pat val state ↔ Commits slash (tokens (pat.drop state.p)) (val.drop state.v) := by
  have locked : Locks (tokens (pat.drop state.p)) (val.drop state.v) := by
    rw [ahead]
    exact ⟨rfl, List.nil_prefix⟩
  exact or_iff_left fun other => other.1 locked

/-- A literal that stands next in the value is passed on both sides. -/
theorem advance_accepts (aligned : Aligned pat val state) (room : state.p < pat.length)
    (inside : state.v < val.length) (literal : pat[state.p] ≠ star) (same : pat[state.p] = val[state.v]) :
    Aligned pat val { state with p := state.p + 1, v := state.v + 1 } ∧
      (Accepts pat val { state with p := state.p + 1, v := state.v + 1 } ↔ Accepts pat val state) := by
  have here := List.drop_eq_getElem_cons inside
  have head := tokens_exact literal (pat.drop (state.p + 1))
  rw [← List.drop_eq_getElem_cons room] at head
  constructor
  · intro sp held
    obtain ⟨read, split, between⟩ := aligned sp held
    refine ⟨read ++ [val[state.v]], ?_, ?_⟩
    · rw [split, here, List.append_assoc]
      rfl
    · show tokens (afterStar pat state sp) = _
      rw [between, head, List.map_append, List.append_assoc, same]
      rfl
  · have locks : Locks (tokens (pat.drop state.p)) (val.drop state.v) ↔
        Locks (tokens (pat.drop (state.p + 1))) (val.drop (state.v + 1)) := by
      rw [head, here, same]
      exact and_congr_right fun _ => List.prefix_cons_inj _
    have commits : Commits slash (tokens (pat.drop state.p)) (val.drop state.v) ↔
        Commits slash (tokens (pat.drop (state.p + 1))) (val.drop (state.v + 1)) := by
      rw [head, here, same, commits_exact_iff]
      constructor
      · rintro ⟨rest, split, commits⟩
        rw [(List.cons.inj split).2]
        exact commits
      · exact fun commits => ⟨_, rfl, commits⟩
    rw [Accepts, Accepts, locks, commits]
    rfl

/-- One iteration keeps what is accepted, and the matcher gives up only where nothing is. -/
theorem globStep_accepts (aligned : Aligned pat val state) (inside : state.v < val.length) :
    (∀ next, globStep pat val state = some next →
        Aligned pat val next ∧ (Accepts pat val next ↔ Accepts pat val state)) ∧
      (globStep pat val state = none → ¬ Accepts pat val state) := by
  have here := List.drop_eq_getElem_cons inside
  have byteAt : val[state.v]? = some val[state.v] := List.getElem?_eq_getElem inside
  unfold globStep
  by_cases room : state.p < pat.length
  · have ahead := List.drop_eq_getElem_cons room
    have partAt : pat[state.p]? = some pat[state.p] := List.getElem?_eq_getElem room
    rw [if_pos room]
    by_cases starred : pat[state.p]? = some star
    · rw [if_pos starred]
      refine ⟨fun next same => ?_, fun missing => ?_⟩
      · rw [accepts_iff_of_run (tokens_star starred), ← Option.some.inj same]
        refine ⟨aligned_of_star rfl rfl rfl, ?_⟩
        rw [accepts_of_star rfl rfl rfl, tokens_star starred]
      · cases missing
    · rw [if_neg starred]
      have literal : pat[state.p] ≠ star := fun same => starred (same ▸ partAt)
      have head := tokens_exact literal (pat.drop (state.p + 1))
      rw [← ahead] at head
      by_cases equal : pat[state.p]? = val[state.v]?
      · rw [if_pos equal]
        have same : pat[state.p] = val[state.v] := by
          rw [partAt, byteAt] at equal
          exact Option.some.inj equal
        refine ⟨fun next stepped => ?_, fun missing => ?_⟩
        · rw [← Option.some.inj stepped]
          exact advance_accepts aligned room inside literal same
        · cases missing
      · rw [if_neg equal]
        have differs : pat[state.p] ≠ val[state.v] := fun same => equal (by rw [partAt, byteAt, same])
        apply retreat_accepts aligned inside
        · rw [head, here, commits_exact_iff]
          rintro ⟨rest, split, _⟩
          exact differs (List.cons.inj split).1.symm
        · rw [head, here]
          exact fun locked => differs (List.cons_prefix_cons.mp locked.2).1
  · rw [if_neg room]
    have ended : pat.drop state.p = [] := List.drop_eq_nil_of_le (Nat.le_of_not_lt room)
    apply retreat_accepts aligned inside
    · rw [ended, here, tokens, commits_nil_iff]
      exact List.cons_ne_nil _ _
    · rw [ended]
      exact fun locked => Bool.false_ne_true locked.1

/-- At the end of the value the rest of the pattern must be stars, for no later attempt has room. -/
theorem trailing_accepts (aligned : Aligned pat val state) (ended : val.length ≤ state.v) :
    trailing pat state = true ↔ Accepts pat val state := by
  have empty : val.drop state.v = [] := List.drop_eq_nil_of_le ended
  rw [trailing, ← commits_tokens_nil, Accepts, empty]
  refine ⟨.inl, fun accepts => accepts.elim id fun later => ?_⟩
  obtain ⟨_, sp, held, byte, rest, split, _, commits⟩ := later
  obtain ⟨read, between, parts⟩ := aligned sp held
  rw [empty, List.append_nil, split] at between
  -- The letters that the next attempt has to read are more than the bytes that it has left.
  obtain ⟨taken, left, rfl, _, covers⟩ := covers_run_iff.mp commits.covers
  have long := covers.literals_prefix.length_le
  rw [parts, literals_map_exact, List.length_append, ← between, List.length_cons, List.length_append] at long
  omega

/-- The answer of an aligned loop is that its state accepts. -/
theorem globLoop_accepts {fuel : Nat} {answer : Bool} (aligned : Aligned pat val state)
    (answers : globLoop pat val fuel state = some answer) : answer = true ↔ Accepts pat val state := by
  induction fuel generalizing state with
  | zero => cases answers
  | succ fuel ih =>
      rw [globLoop] at answers
      by_cases inside : state.v < val.length
      · rw [if_pos inside] at answers
        obtain ⟨goesOn, givesUp⟩ := globStep_accepts aligned inside
        cases stepped : globStep pat val state with
        | none =>
            rw [stepped] at answers
            exact iff_of_false (fun accepted => by rw [← Option.some.inj answers] at accepted; cases accepted)
              (givesUp stepped)
        | some next =>
            rw [stepped] at answers
            obtain ⟨alignedNext, same⟩ := goesOn next stepped
            rw [ih alignedNext answers, same]
      · rw [if_neg inside] at answers
        rw [← Option.some.inj answers]
        exact trailing_accepts aligned (Nat.le_of_not_lt inside)

variable (pat val)

/-- The matcher accepts exactly the values that the pattern covers with every star but the last taking the least. -/
theorem globInner_iff_commits : globInner pat val = true ↔ Commits slash (tokens pat) val := by
  rw [globLoop_accepts aligned_start (globLoop_answers pat val)]
  exact or_iff_left fun later => by
    obtain ⟨_, sp, none, _⟩ := later
    cases none

/-- The pattern does not cover the value, or it covers it although every star but the last takes the least. -/
def LeastCovers : Prop := Covers slash (tokens pat) val → Commits slash (tokens pat) val

/-- The matcher ends, and it agrees with the language of the pattern exactly where the least stars cover the value. -/
theorem globInner_exact_iff :
    (globLoop pat val (globFuel pat val) .start = some (globInner pat val) ∧
        (globInner pat val = true ↔ Covers slash (tokens pat) val)) ↔ LeastCovers pat val := by
  rw [and_iff_right (globLoop_answers pat val), globInner_iff_commits]
  exact ⟨fun both => both.mpr, fun least => ⟨Commits.covers, least⟩⟩

/-- A pattern without a single star after a double one is matched exactly. -/
theorem globInner_of_widening (widening : Widening (tokens pat)) :
    globInner pat val = true ↔ Covers slash (tokens pat) val := by
  rw [globInner_iff_commits]
  exact ⟨Commits.covers, Covers.commits widening⟩

end Search

/-- The double star stops at the first slash, and the single star after it cannot pass the next one. -/
theorem doubleThenSingle_not_matched :
    Covers slash (tokens (utf8 "**/*")) (utf8 "a/b/c") ∧ globMatches "**/*" "a/b/c" = false ∧
      ¬ (globInner (utf8 "**/*") (utf8 "a/b/c") = true ↔ Covers slash (tokens (utf8 "**/*")) (utf8 "a/b/c")) := by
  have covers : Covers slash (tokens (utf8 "**/*")) (utf8 "a/b/c") := by
    rw [show tokens (utf8 "**/*") = [.run true, .exact 47, .run false] by decide +kernel,
      show utf8 "a/b/c" = [97, 47, 98] ++ 47 :: ([99] ++ []) by decide +kernel]
    exact .run (.inl rfl) (.exact (.run (.inr (by decide)) .done))
  have refused : globMatches "**/*" "a/b/c" = false := by decide +kernel
  refine ⟨covers, refused, fun exact => ?_⟩
  have accepted := exact.mpr covers
  rw [globMatches] at refused
  rw [refused] at accepted
  cases accepted

end AiMemory.Permissions
