import LightClient.Text.Quoted

/-!
Hexadecimal text: two digits a byte, lower case when written, either case when read.
-/

namespace LightClient.Hex

inductive Error where
  | oddLength
  /-- The byte at this position is no digit. -/
  | badDigit (byte : UInt8) (position : Nat)
  deriving DecidableEq

/-- The reason in words. A byte is shown as the character of its number. -/
def Error.message : Error → String
  | .oddLength => "Odd number of digits"
  | .badDigit byte position =>
    "Invalid character " ++ Quoted.char (Char.ofNat byte.toNat) ++ s!" at position {position}"

/-- The lower-case digit of a value below 16. -/
def digitChar (n : Nat) : Char :=
  if n < 10 then Char.ofNat (0x30 + n) else Char.ofNat (0x57 + n)

def digitValue? (byte : UInt8) : Option Nat :=
  let n := byte.toNat
  if 0x30 ≤ n ∧ n ≤ 0x39 then some (n - 0x30)
  else if 0x61 ≤ n ∧ n ≤ 0x66 then some (n - 0x57)
  else if 0x41 ≤ n ∧ n ≤ 0x46 then some (n - 0x37)
  else none

/-- The digits of a byte string, the high half of each byte first. -/
def encodeChars (bytes : List UInt8) : List Char :=
  bytes.flatMap fun b => [digitChar (b.toNat / 16), digitChar (b.toNat % 16)]

def encode (bytes : List UInt8) : String :=
  String.ofList (encodeChars bytes)

/-- The value of the digit that stands at `position`. -/
def digitAt (position : Nat) (byte : UInt8) : Except Error Nat :=
  match digitValue? byte with
  | some n => .ok n
  | none => .error (.badDigit byte position)

/-- Reads pairs of digits, the first at `position`. A single byte at the end is dropped. -/
def decodePairs (position : Nat) : List UInt8 → Except Error (List UInt8)
  | high :: low :: rest => do
    let h ← digitAt position high
    let l ← digitAt (position + 1) low
    let bytes ← decodePairs (position + 2) rest
    return UInt8.ofNat (h * 16 + l) :: bytes
  | _ => .ok []

/-- Reads a text of digits of either case; an odd length is found before any bad digit. -/
def decode (text : String) : Except Error (List UInt8) :=
  let bytes := utf8 text
  if bytes.length % 2 = 1 then .error .oddLength else decodePairs 0 bytes

end LightClient.Hex
