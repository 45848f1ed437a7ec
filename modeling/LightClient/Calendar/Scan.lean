import LightClient.Calendar.Moment
import LightClient.Text.Basic

/-!
Reading a moment from text: date and time with `T` between them, and milliseconds if they are
there. White space may stand before a number, and a number may have fewer digits than usual.
-/

namespace LightClient.Moment

inductive Fault where
  | tooShort
  | invalid
  | outOfRange
  | trailing
  deriving DecidableEq

def Fault.message : Fault → String
  | .tooShort => "premature end of input"
  | .invalid => "input contains invalid characters"
  | .outOfRange => "input is out of range"
  | .trailing => "trailing input"

abbrev Scanner := StateT (List Char) (Except Fault)

namespace Scanner

def literal (c : Char) : Scanner Unit
  | [] => .error .tooShort
  | d :: rest => if d = c then .ok ((), rest) else .error .invalid

/-- The number in the first digits, at least one and at most `width`. -/
def number (width : Nat) : Scanner Nat := fun cs =>
  let digits := (cs.take width).takeWhile Char.isDigit
  match cs, digits with
  | [], _ => .error .tooShort
  | _, [] => .error .invalid
  | cs, digits =>
    .ok (digits.foldl (fun n c => n * 10 + (c.toNat - 0x30)) 0, cs.drop digits.length)

def skipBlank : Scanner Unit := fun cs =>
  .ok ((), cs.dropWhile isBlank)

/-- A number of at most two digits between the bounds. -/
def between (low high : Nat) : Scanner Nat := do
  skipBlank
  let n ← number 2
  if low ≤ n ∧ n ≤ high then return n else throw .outOfRange

/-- A year of at most four digits, or behind a sign of any number of digits. -/
def year : Scanner Int := do
  skipBlank
  let value : Int ← fun cs =>
    match cs with
    | '-' :: rest => ((fun (n : Nat) => -(n : Int)) <$> number rest.length).run rest
    | '+' :: rest => ((fun (n : Nat) => (n : Int)) <$> number rest.length).run rest
    | cs => ((fun (n : Nat) => (n : Int)) <$> number 4).run cs
  if -0x80000000 ≤ value ∧ value < 0x80000000 then return value else throw .outOfRange

/-- Three digits behind a point, or nothing. -/
def millis : Scanner Nat
  | '.' :: a :: b :: c :: rest =>
    if a.isDigit ∧ b.isDigit ∧ c.isDigit then (number 3).run (a :: b :: c :: rest)
    else .error .invalid
  | '.' :: _ => .error .tooShort
  | cs => .ok (0, cs)

def finish : Scanner Unit
  | [] => .ok ((), [])
  | _ => .error .trailing

/-- A moment; the fraction is read only if it is asked for. -/
def moment (fraction : Bool) : Scanner Moment := do
  let year ← year
  literal '-'
  let month ← between 1 12
  literal '-'
  let day ← between 1 31
  literal 'T'
  let hour ← between 0 23
  literal ':'
  let minute ← between 0 59
  literal ':'
  let second ← between 0 60
  let millis ← if fraction then millis else pure 0
  finish
  let date : Date := ⟨year, month, day⟩
  if !date.valid ∨ year < -262143 ∨ 262142 < year then throw .outOfRange
  let leap := second / 60
  return ⟨date.toDays * 86400 + (hour * 3600 + minute * 60 + (second - leap) : Nat),
    leap * 1000000000 + millis * 1000000⟩

end Scanner

/-- Reads a moment, with a fraction or else without one; if neither works, the reason is that of
the second. -/
def ofText (text : String) : Except Fault Moment :=
  match (Scanner.moment true).run' text.toList with
  | .ok m => .ok m
  | .error _ => (Scanner.moment false).run' text.toList

end LightClient.Moment
