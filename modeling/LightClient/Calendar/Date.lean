/-!
Dates of the Gregorian calendar, carried back before its first year, and the days between them.
-/

namespace LightClient

/-- A year, a month from 1 and a day from 1. -/
structure Date where
  year : Int
  month : Nat
  day : Nat
  deriving DecidableEq

namespace Date

def isLeap (year : Int) : Bool :=
  year % 4 = 0 && (year % 100 ≠ 0 || year % 400 = 0)

def monthLength (year : Int) (month : Nat) : Nat :=
  if month = 2 then (if isLeap year then 29 else 28)
  else if month = 4 ∨ month = 6 ∨ month = 9 ∨ month = 11 then 30
  else 31

def valid (d : Date) : Bool :=
  1 ≤ d.month && d.month ≤ 12 && 1 ≤ d.day && d.day ≤ monthLength d.year d.month

/-- The days from the start of year 1 to the start of a year. -/
def daysBeforeYear (year : Int) : Int :=
  365 * (year - 1) + (year - 1) / 4 - (year - 1) / 100 + (year - 1) / 400

/-- The days from the start of a year to the start of a month. -/
def daysBeforeMonth (year : Int) : Nat → Nat
  | 0 => 0
  | 1 => 0
  | month + 2 => daysBeforeMonth year (month + 1) + monthLength year (month + 1)

/-- The days from the start of year 1 to the start of 1970. -/
def epoch : Int := 719162

def toDays (d : Date) : Int :=
  daysBeforeYear d.year + daysBeforeMonth d.year d.month + (d.day - 1) - epoch

/-- The year of a day counted from the start of year 1. Years have 146097 / 400 days on average,
and a guess from that is wrong by a year at most. -/
def yearOf (days : Int) : Int :=
  let guess := days * 400 / 146097 + 1
  if days < daysBeforeYear guess then guess - 1
  else if daysBeforeYear (guess + 1) ≤ days then guess + 1
  else guess

/-- The month and day that lie `days` days after the start of `month`, found within so many
months. -/
def monthOf (year : Int) : Nat → Nat → Nat → Nat × Nat
  | 0, month, days => (month, days + 1)
  | more + 1, month, days =>
    let length := monthLength year month
    if days < length then (month, days + 1) else monthOf year more (month + 1) (days - length)

def ofDays (days : Int) : Date :=
  let days := days + epoch
  let year := yearOf days
  let (month, day) := monthOf year 11 1 (days - daysBeforeYear year).toNat
  ⟨year, month, day⟩

end Date

end LightClient
