import AiMemory.Machine.Bytes

/-
This file embeds the iterative matcher of the permission patterns and bounds its iterations.
-/

namespace AiMemory.Permissions
open AiMemory.Machine

def star : UInt8 := 42

def slash : UInt8 := 47

/-- The matcher holds two cursors and the last star that it passed. -/
structure GlobState where
  p : Nat
  v : Nat
  starP : Option Nat
  starV : Nat
  starDouble : Bool
  deriving DecidableEq

namespace GlobState

def start : GlobState := ⟨0, 0, none, 0, false⟩

end GlobState

section Matcher

variable (pat val : Bytes)

/-- A mismatch returns to the last star, which then takes one more byte. -/
def retreat (state : GlobState) : Option GlobState :=
  match state.starP with
  | some sp =>
      if state.starDouble = false ∧ val[state.starV]? = some slash then none
      else some { state with
        starV := state.starV + 1
        p := sp + if state.starDouble then 2 else 1
        v := state.starV + 1 }
  | none => none

/-- One iteration of the loop goes on or reports a mismatch. -/
def globStep (state : GlobState) : Option GlobState :=
  if state.p < pat.length then
    if pat[state.p]? = some star then
      let double : Bool := state.p + 1 < pat.length ∧ pat[state.p + 1]? = some star
      some { state with
        starP := some state.p
        starDouble := double
        p := state.p + if double then 2 else 1
        starV := state.v }
    else if pat[state.p]? = val[state.v]? then some { state with p := state.p + 1, v := state.v + 1 }
    else retreat val state
  else retreat val state

/-- The rest of the pattern must be stars. -/
def trailing (state : GlobState) : Bool := (pat.drop state.p).all fun byte => byte = star

/-- The loop runs while the value has bytes left. -/
def globLoop : Nat → GlobState → Option Bool
  | 0, _ => none
  | fuel + 1, state =>
      if state.v < val.length then
        match globStep pat val state with
        | some next => globLoop fuel next
        | none => some false
      else some (trailing pat state)

/-- One pass over the value takes at most this many iterations for each byte that the star takes. -/
def sweep : Nat := pat.length + val.length + 1

def globFuel : Nat := (pat.length + 1) * ((val.length + 1) * sweep pat val) + 1

def globInner : Bool := (globLoop pat val (globFuel pat val) .start).getD false

end Matcher

def globMatches (pattern value : String) : Bool :=
  globInner (utf8 pattern) (utf8 value)

/-- The score is the length of the literal start of the pattern. -/
def patternSpecificity (pattern : String) : Nat :=
  ((utf8 pattern).takeWhile fun byte => byte ≠ star).length

section Termination

variable {pat val : Bytes} {state next : GlobState}

/-- The last star lies before the cursor of the pattern, and its byte lies before the other cursor. -/
structure GlobState.Valid (pat : Bytes) (state : GlobState) : Prop where
  bounded : state.p ≤ pat.length
  before : ∀ sp ∈ state.starP, sp < state.p ∧ sp + (if state.starDouble then 2 else 1) ≤ pat.length
  behind : state.starV ≤ state.v

/-- The stars that lie ahead come first, then the bytes that the last star can still take. -/
def GlobState.remaining (pat val : Bytes) (state : GlobState) : Nat :=
  (pat.length - state.starP.elim 0 (· + 1)) * ((val.length + 1) * sweep pat val) +
    (val.length - state.starV) * sweep pat val + ((pat.length - state.p) + (val.length - state.v))

theorem GlobState.valid_start : GlobState.start.Valid pat :=
  ⟨Nat.zero_le _, fun _ present => (nomatch present), Nat.le_refl 0⟩

/-- A decrease of the leading count outweighs the two counts that follow it. -/
theorem weight_lt {outer inner low outer' inner' low' width size : Nat} (innerSmall : inner' < width)
    (lowSmall : low' < size)
    (decreases : outer' < outer ∨ outer' = outer ∧ (inner' < inner ∨ inner' = inner ∧ low' < low)) :
    outer' * (width * size) + inner' * size + low' < outer * (width * size) + inner * size + low := by
  rcases decreases with less | ⟨rfl, less | ⟨rfl, less⟩⟩
  · have whole : (outer' + 1) * (width * size) ≤ outer * (width * size) := Nat.mul_le_mul_right _ less
    have part : (inner' + 1) * size ≤ width * size := Nat.mul_le_mul_right _ innerSmall
    rw [Nat.succ_mul] at whole part
    omega
  · have part : (inner' + 1) * size ≤ inner * size := Nat.mul_le_mul_right _ less
    rw [Nat.succ_mul] at part
    omega
  · omega

/-- A retreat keeps the state valid and leaves less to do. -/
theorem retreat_remaining (valid : state.Valid pat) (inside : state.v < val.length)
    (goesOn : retreat val state = some next) :
    next.Valid pat ∧ next.remaining pat val < state.remaining pat val := by
  unfold retreat at goesOn
  split at goesOn
  · rename_i sp last
    split at goesOn
    · cases goesOn
    · obtain rfl := Option.some.inj goesOn
      obtain ⟨ahead, fits⟩ := valid.before sp last
      have behind := valid.behind
      constructor
      · refine ⟨fits, ?_, Nat.le_refl _⟩
        intro position present
        obtain rfl := Option.some.inj (last.symm.trans present)
        exact ⟨Nat.lt_add_of_pos_right (by split <;> decide), fits⟩
      · unfold GlobState.remaining sweep
        apply weight_lt
        · omega
        · omega
        · exact .inr ⟨rfl, .inl (by simp only; omega)⟩
  · cases goesOn

/-- A step keeps the state valid and leaves less to do. -/
theorem globStep_remaining (valid : state.Valid pat) (inside : state.v < val.length)
    (goesOn : globStep pat val state = some next) :
    next.Valid pat ∧ next.remaining pat val < state.remaining pat val := by
  unfold globStep at goesOn
  split at goesOn
  · rename_i room
    split at goesOn
    · -- The new star lies behind every earlier one.
      obtain rfl := Option.some.inj goesOn
      have fits : ∀ double : Bool, double = decide (state.p + 1 < pat.length ∧
          pat[state.p + 1]? = some star) → state.p + (if double then 2 else 1) ≤ pat.length := by
        intro double known
        cases double with
        | false => exact room
        | true => exact (of_decide_eq_true known.symm).1
      constructor
      · refine ⟨fits _ rfl, ?_, Nat.le_refl _⟩
        intro position present
        obtain rfl := Option.some.inj present
        exact ⟨Nat.lt_add_of_pos_right (by split <;> decide), fits _ rfl⟩
      · unfold GlobState.remaining sweep
        apply weight_lt
        · omega
        · simp only
          omega
        · refine .inl ?_
          cases last : state.starP with
          | none =>
              simp only [Option.elim_none, Option.elim_some]
              omega
          | some sp =>
              have ahead := (valid.before sp last).1
              simp only [Option.elim_some]
              omega
    · split at goesOn
      · obtain rfl := Option.some.inj goesOn
        constructor
        · refine ⟨room, ?_, Nat.le_succ_of_le valid.behind⟩
          intro sp last
          obtain ⟨ahead, fits⟩ := valid.before sp last
          exact ⟨Nat.lt_succ_of_lt ahead, fits⟩
        · unfold GlobState.remaining sweep
          apply weight_lt
          · omega
          · simp only
            omega
          · exact .inr ⟨rfl, .inr ⟨rfl, by simp only; omega⟩⟩
      · exact retreat_remaining valid inside goesOn
  · exact retreat_remaining valid inside goesOn

/-- More fuel than the remaining iterations always reaches an answer. -/
theorem globLoop_isSome {fuel : Nat} (valid : state.Valid pat)
    (enough : state.remaining pat val < fuel) : (globLoop pat val fuel state).isSome := by
  induction fuel generalizing state with
  | zero => exact absurd enough (Nat.not_lt_zero _)
  | succ fuel ih =>
      unfold globLoop
      split
      · rename_i inside
        cases stepped : globStep pat val state with
        | none => rfl
        | some next =>
            obtain ⟨validNext, less⟩ := globStep_remaining valid inside stepped
            exact ih validNext (Nat.lt_of_lt_of_le less (Nat.le_of_lt_succ enough))
      · rfl

/-- The matcher answers on every pattern and every value. -/
theorem globLoop_answers (pat val : Bytes) :
    globLoop pat val (globFuel pat val) .start = some (globInner pat val) := by
  have answers : (globLoop pat val (globFuel pat val) .start).isSome := by
    apply globLoop_isSome GlobState.valid_start
    unfold GlobState.remaining globFuel GlobState.start
    simp only [Option.elim_none, Nat.sub_zero]
    have sizes : (val.length + 1) * sweep pat val =
        val.length * sweep pat val + (pat.length + val.length + 1) := by
      rw [Nat.succ_mul]
      rfl
    rw [Nat.succ_mul (pat.length)]
    omega
  obtain ⟨answer, found⟩ := Option.isSome_iff_exists.mp answers
  rw [globInner, found, Option.getD_some]

end Termination

example : globMatches "secrets/*" "secrets/a" = true ∧ globMatches "secrets/*" "secrets/a/b" = false ∧
    globMatches "**/x" "a/b/x" = true := by decide +kernel

end AiMemory.Permissions
