import LightClient.Calendar.Date

/-!
Moments in universal time, and their text.
-/

namespace LightClient

/-- A second since the start of 1970 and nanoseconds within it. A billion nanoseconds and more lie
in the leap second that follows. -/
structure Moment where
  second : Int
  nanos : Nat
  deriving DecidableEq

namespace Moment

/-- The milliseconds since the start of 1970, rounded down. -/
def millis (m : Moment) : Int :=
  m.second * 1000 + (m.nanos / 1000000 : Nat)

def ofMillis (millis : Int) : Moment :=
  ⟨millis / 1000, (millis % 1000).toNat * 1000000⟩

def date (m : Moment) : Date :=
  .ofDays (m.second / 86400)

def secondOfDay (m : Moment) : Nat :=
  (m.second % 86400).toNat

def digits (width n : Nat) : List Char :=
  let cs := Nat.toDigits 10 n
  List.replicate (width - cs.length) '0' ++ cs

/-- A year in at least four digits, with a sign where it does not have just four. -/
def yearChars (year : Int) : List Char :=
  if 0 ≤ year ∧ year ≤ 9999 then digits 4 year.toNat
  else (if year < 0 then '-' else '+') :: digits 4 year.natAbs

def dateChars (d : Date) : List Char :=
  yearChars d.year ++ '-' :: digits 2 d.month ++ '-' :: digits 2 d.day

/-- Hour, minute and second; a leap second is second 60. -/
def timeChars (m : Moment) : List Char :=
  let s := m.secondOfDay
  digits 2 (s / 3600) ++ ':' :: digits 2 (s / 60 % 60) ++
    ':' :: digits 2 (s % 60 + m.nanos / 1000000000)

/-- The fraction of the second in three, six or nine digits, the fewest that are exact; nothing
for a whole second. -/
def fractionChars (m : Moment) : List Char :=
  let n := m.nanos % 1000000000
  if n = 0 then []
  else if n % 1000000 = 0 then '.' :: digits 3 (n / 1000000)
  else if n % 1000 = 0 then '.' :: digits 6 (n / 1000)
  else '.' :: digits 9 n

def text (m : Moment) : String :=
  String.ofList (dateChars m.date ++ ' ' :: timeChars m ++ fractionChars m) ++ " UTC"

instance : ToString Moment := ⟨text⟩

/-- The moment with `T` between date and time, and always three digits of its fraction. -/
def isoText (m : Moment) : String :=
  String.ofList (dateChars m.date ++ 'T' :: timeChars m ++
    '.' :: digits 3 (m.nanos % 1000000000 / 1000000))

end Moment

end LightClient
