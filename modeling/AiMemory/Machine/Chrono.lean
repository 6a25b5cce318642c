import AiMemory.Machine.Strings
import Mathlib.Data.List.Basic

/-
This file fixes what the code uses of the calendar library, its dates and the order of their texts.
-/

namespace AiMemory.Machine

/-- The calendar library reads, shifts, compares and prints instants. -/
structure Chrono where
  Instant : Type
  parseFromRfc3339 : String → Option Instant
  later : Instant → Instant → Bool
  addSeconds : Instant → Int → Instant
  withTimezoneUtc : Instant → Instant
  toRfc3339 : Instant → String

/-- A table of texts gives their distances in seconds from its first text. -/
def Chrono.ofTable (table : List (String × Int)) : Chrono where
  Instant := Int
  parseFromRfc3339 text := table.lookup text
  later left right := right < left
  addSeconds instant seconds := instant + seconds
  withTimezoneUtc instant := instant
  toRfc3339 instant := ((table.find? fun entry => entry.2 = instant).map (·.1)).getD ""

/-- Every fourth year is a leap year, but of the centuries only every fourth is. -/
def leapYear (year : Int) : Bool := year % 4 = 0 ∧ (year % 100 ≠ 0 ∨ year % 400 = 0)

def daysIn (year : Int) (month : Nat) : Nat :=
  if month = 2 then if leapYear year then 29 else 28 else if month ∈ [4, 6, 9, 11] then 30 else 31

theorem daysIn_le (year : Int) (month : Nat) : daysIn year month ≤ 31 := by
  unfold daysIn
  split_ifs <;> decide

/-- A day of the proleptic Gregorian calendar. -/
structure NaiveDate where
  year : Int
  month : Nat
  day : Nat
  months : 1 ≤ month ∧ month ≤ 12
  days : 1 ≤ day ∧ day ≤ daysIn year month
  deriving DecidableEq

namespace NaiveDate

/-- The years before the common era count backwards from one. -/
def yearCe (date : NaiveDate) : Int := if 0 < date.year then date.year else 1 - date.year

def digit (number : Nat) : Char := Char.ofNat (48 + number % 10)

/-- The last digits of a number fill a fixed width. -/
def padded : Nat → Nat → List Char
  | 0, _ => []
  | width + 1, number => padded width (number / 10) ++ [digit number]

/-- A year of other than four digits carries its sign. -/
def formatYear (year : Int) : List Char :=
  if 0 ≤ year ∧ year ≤ 9999 then padded 4 year.toNat
  else (if 0 ≤ year then '+' else '-') :: padded (max 4 (Nat.toDigits 10 year.natAbs).length) year.natAbs

/-- The text of the date as year, month and day between dashes. -/
def format (date : NaiveDate) : String :=
  String.ofList (formatYear date.year ++ '-' :: (padded 2 date.month ++ '-' :: padded 2 date.day))

def code (date : NaiveDate) : Int := date.yearCe * 10000 + date.month * 100 + date.day

/-- The year is written without a sign. -/
def FourDigits (date : NaiveDate) : Prop := 0 < date.year ∧ date.year ≤ 9999

instance (date : NaiveDate) : Decidable date.FourDigits := inferInstanceAs (Decidable (_ ∧ _))

section Order

@[simp] theorem length_padded (width number : Nat) : (padded width number).length = width := by
  induction width generalizing number with
  | zero => rfl
  | succ width ih => simp [padded, ih]

theorem digit_lt {first second : Nat} (below : first % 10 < second % 10) : digit first < digit second := by
  have table : ∀ low < 10, ∀ high < 10, low < high →
      Char.ofNat (48 + low) < Char.ofNat (48 + high) := by
    decide
  exact table _ (Nat.mod_lt _ (by decide)) _ (Nat.mod_lt _ (by decide)) below

/-- Of two texts of one length the smaller start decides. -/
theorem append_lt_append {first second : List Char} (same : first.length = second.length)
    (below : first < second) (firstRest secondRest : List Char) :
    first ++ firstRest < second ++ secondRest := by
  induction first generalizing second with
  | nil =>
      obtain rfl : second = [] := List.length_eq_zero_iff.mp same.symm
      exact absurd below (List.lt_irrefl [])
  | cons head first ih =>
      cases second with
      | nil => exact absurd same (Nat.succ_ne_zero _)
      | cons other second =>
          rw [List.cons_append, List.cons_append, List.cons_lt_cons_iff]
          rcases List.cons_lt_cons_iff.mp below with less | ⟨heads, rest⟩
          · exact .inl less
          · exact .inr ⟨heads, ih (Nat.succ.inj same) rest⟩

/-- The digits of a fixed width order the numbers that fit it. -/
theorem padded_lt {width first second : Nat} (below : first < second) (fits : second < 10 ^ width) :
    padded width first < padded width second := by
  induction width generalizing first second with
  | zero => exact absurd below (by omega)
  | succ width ih =>
      have higher : second / 10 < 10 ^ width := Nat.div_lt_of_lt_mul (by rw [Nat.pow_succ] at fits; omega)
      rw [padded, padded]
      by_cases same : first / 10 = second / 10
      · rw [same]
        have last : digit first < digit second := digit_lt (by omega)
        exact List.append_left_lt (List.cons_lt_cons_iff.mpr (.inl last))
      · exact append_lt_append (by simp) (ih (by omega) higher) _ _

/-- The texts of dates with years of four digits are in the order of the dates. -/
theorem format_lt {first second : NaiveDate} (firstShort : first.FourDigits) (secondShort : second.FourDigits)
    (below : first.code < second.code) : first.format < second.format := by
  obtain ⟨firstYear, firstMonth, firstDay, firstMonths, firstDays⟩ := first
  obtain ⟨secondYear, secondMonth, secondDay, secondMonths, secondDays⟩ := second
  simp only [FourDigits] at firstShort secondShort
  have firstBound := daysIn_le firstYear firstMonth
  have secondBound := daysIn_le secondYear secondMonth
  simp only [code, yearCe, firstShort.1, secondShort.1, if_true] at below
  rw [String.lt_iff_toList_lt]
  simp only [format, String.toList_ofList, formatYear]
  rw [if_pos (by omega), if_pos (by omega)]
  by_cases years : firstYear < secondYear
  · exact append_lt_append (by simp) (padded_lt (by omega) (by omega)) _ _
  · have sameYear : firstYear = secondYear := by omega
    rw [sameYear]
    apply List.append_left_lt
    rw [List.cons_lt_cons_iff]
    refine .inr ⟨rfl, ?_⟩
    by_cases earlier : firstMonth < secondMonth
    · exact append_lt_append (by simp) (padded_lt earlier (by omega)) _ _
    · have sameMonth : firstMonth = secondMonth := by omega
      rw [sameMonth]
      apply List.append_left_lt
      rw [List.cons_lt_cons_iff]
      exact .inr ⟨rfl, padded_lt (by omega) (by omega)⟩

/-- The code determines a date of the common era. -/
theorem eq_of_code {first second : NaiveDate} (firstShort : first.FourDigits)
    (secondShort : second.FourDigits) (same : first.code = second.code) : first = second := by
  obtain ⟨firstYear, firstMonth, firstDay, firstMonths, firstDays⟩ := first
  obtain ⟨secondYear, secondMonth, secondDay, secondMonths, secondDays⟩ := second
  simp only [FourDigits] at firstShort secondShort
  have firstBound := daysIn_le firstYear firstMonth
  have secondBound := daysIn_le secondYear secondMonth
  simp only [code, yearCe, firstShort.1, secondShort.1, if_true] at same
  have years : firstYear = secondYear := by omega
  have months : firstMonth = secondMonth := by omega
  have days : firstDay = secondDay := by omega
  subst years months days
  rfl

/-- The text of a day has ten letters. -/
theorem length_format {date : NaiveDate} (short : date.FourDigits) : date.format.toList.length = 10 := by
  have bounds := short
  simp only [FourDigits] at bounds
  simp only [format, String.toList_ofList, formatYear]
  rw [if_pos (by omega)]
  simp

end Order

end NaiveDate

end AiMemory.Machine
