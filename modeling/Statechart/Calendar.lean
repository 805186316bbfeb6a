/-!
The proleptic Gregorian calendar: dates and their day numbers, counted from 1970-01-01.
-/

namespace Statechart.Calendar

/-- A date by year, month and day; the years run through zero. -/
structure Date where
  year : Int
  month : Nat
  day : Nat
  deriving DecidableEq

/-- Whether a year has a leap day. -/
def isLeap (year : Int) : Bool := year % 4 = 0 && (year % 100 ≠ 0 || year % 400 = 0)

def monthLength (year : Int) (month : Nat) : Nat :=
  match month with
  | 2 => if isLeap year then 29 else 28
  | 4 | 6 | 9 | 11 => 30
  | _ => 31

def Date.Exists (d : Date) : Prop :=
  1 ≤ d.month ∧ d.month ≤ 12 ∧ 1 ≤ d.day ∧ d.day ≤ monthLength d.year d.month

instance (d : Date) : Decidable d.Exists := by unfold Date.Exists; infer_instance

/-- The days from 1 March of year zero to 1970-01-01. -/
def epoch : Int := 719468

def cycle : Int := 146097

/-- The day number of a date. The year is counted from March, so that the leap day is its last. -/
def Date.number (d : Date) : Int :=
  let y := if d.month ≤ 2 then d.year - 1 else d.year
  let m : Int := if d.month ≤ 2 then d.month + 9 else d.month - 3
  let inCycle := y % 400
  let inYear := (153 * m + 2) / 5 + d.day - 1
  y / 400 * cycle + (inCycle * 365 + inCycle / 4 - inCycle / 100 + inYear) - epoch

/-- The date of a day number. -/
def Date.ofNumber (n : Int) : Date :=
  let z := n + epoch
  let inCycle := z % cycle
  let y := (inCycle - inCycle / 1460 + inCycle / 36524 - inCycle / 146096) / 365
  let inYear := inCycle - (365 * y + y / 4 - y / 100)
  let m := (5 * inYear + 2) / 153
  let day := inYear - (153 * m + 2) / 5 + 1
  let month := if m < 10 then m + 3 else m - 9
  let year := y + z / cycle * 400 + (if month ≤ 2 then 1 else 0)
  ⟨year, month.toNat, day.toNat⟩

end Statechart.Calendar
