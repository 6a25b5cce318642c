import Mathlib.Algebra.Order.Ring.Int

/-
This file fixes the wrapping arithmetic of the signed machine words and the comparison of double-precision floats.
-/

namespace AiMemory.Machine

def i64Max : Int := 2 ^ 63 - 1

/-- The release build wraps a signed sum at 64 bits. -/
def wrappingAdd (left right : Int) : Int := (left + right).bmod (2 ^ 64)

def i64Min : Int := -2 ^ 63

/-- A saturating sum stops at the ends of the range. -/
def saturatingAdd (left right : Int) : Int := max i64Min (min (left + right) i64Max)

def saturatingSub (left right : Int) : Int := max i64Min (min (left - right) i64Max)

/-- A difference is positive exactly when the left side is larger. -/
theorem saturatingSub_pos {left right : Int} : 0 < saturatingSub left right ↔ right < left := by
  unfold saturatingSub i64Min i64Max
  omega

/-- A sum inside the range is the ordinary sum. -/
theorem wrappingAdd_inside (left right : Int) (low : -2 ^ 63 ≤ left + right)
    (high : left + right ≤ i64Max) : wrappingAdd left right = left + right := by
  unfold wrappingAdd
  unfold i64Max at high
  rw [Int.bmod_eq_of_le] <;> omega

/-- The words keep the order of the numbers that fit. -/
theorem int64_ofNat_lt {first second : Nat} (smaller : first < second) (fits : second < 2 ^ 63) :
    Int64.ofNat first < Int64.ofNat second := by
  rw [Int64.lt_iff_toInt_lt, Int64.toInt_ofNat_of_lt (Nat.lt_trans smaller fits),
    Int64.toInt_ofNat_of_lt fits]
  exact Int.ofNat_lt.mpr smaller

/-- The greater of two words bounds what both bound. -/
instance lawfulOrderMax_int64 : Std.LawfulOrderMax Int64 where
  max_eq_or left right := by
    show (if left ≤ right then right else left) = left ∨ (if left ≤ right then right else left) = right
    split
    · exact .inr rfl
    · exact .inl rfl
  max_le_iff left right bound := by
    show (if left ≤ right then right else left) ≤ bound ↔ _
    split
    case isTrue below => exact ⟨fun above => ⟨Int64.le_trans below above, above⟩, And.right⟩
    case isFalse above =>
      have below : right ≤ left := Int64.le_of_lt (Int64.not_le.mp above)
      exact ⟨fun higher => ⟨higher, Int64.le_trans below higher⟩, And.left⟩

/-- A double keeps its sign, exponent and fraction bits. -/
structure F64 where
  bits : BitVec 64
  deriving DecidableEq, Repr

namespace F64

/-- The magnitude drops the sign bit. -/
def magnitude (value : F64) : Nat := value.bits.toNat % 2 ^ 63

/-- A magnitude above the infinity pattern encodes no number. -/
def isNan (value : F64) : Bool := value.magnitude > 0x7FF0000000000000

/-- The key orders the numbers and identifies the two zeros. -/
def key (value : F64) : Int :=
  if value.bits.toNat < 2 ^ 63 then value.magnitude else -value.magnitude

instance : LT F64 := ⟨fun left right => ¬ left.isNan ∧ ¬ right.isNan ∧ left.key < right.key⟩

instance (left right : F64) : Decidable (left < right) :=
  inferInstanceAs (Decidable (¬ left.isNan ∧ ¬ right.isNan ∧ left.key < right.key))

/-- One float is below another exactly when neither is a NaN and the keys are. -/
theorem lt_iff (left right : F64) :
    left < right ↔ ¬ left.isNan ∧ ¬ right.isNan ∧ left.key < right.key := Iff.rfl

theorem not_lt_self (value : F64) : ¬ value < value := fun below =>
  Int.lt_irrefl _ below.2.2

/-- Numeric equality identifies the zeros, and two patterns without a number agree as well. -/
def Same (left right : F64) : Prop :=
  left.isNan = right.isNan ∧ (¬ left.isNan → left.key = right.key)

instance (left right : F64) : Decidable (left.Same right) :=
  inferInstanceAs (Decidable (_ ∧ _))

end F64

end AiMemory.Machine
