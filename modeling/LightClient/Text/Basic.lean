/-!
Texts and their characters: UTF-8, sets of code points, white space, and decimal numbers.
-/

namespace LightClient

/-! ## Bytes -/

/-- The bytes of a text: each character in UTF-8, in order. -/
def utf8 (text : String) : List UInt8 :=
  text.toList.flatMap String.utf8EncodeChar

/-! ## Sets of code points -/

/-- Whether `n` lies in one of the ranges `lo..=hi`, which ascend and do not meet. -/
def inRanges (n : Nat) : List (Nat × Nat) → Bool
  | [] => false
  | (lo, hi) :: rest =>
    if n < lo then false
    else if n ≤ hi then true
    else inRanges n rest

/-- The code points of white space, as the Unicode property of that name has it. -/
def blankRanges : List (Nat × Nat) := [
  (0x9, 0xd), (0x20, 0x20), (0x85, 0x85), (0xa0, 0xa0), (0x1680, 0x1680), (0x2000, 0x200a),
  (0x2028, 0x2029), (0x202f, 0x202f), (0x205f, 0x205f), (0x3000, 0x3000)]

def isBlank (c : Char) : Bool :=
  inRanges c.toNat blankRanges

/-! ## Decimal numbers -/

/-- The number that decimal digits stand for; there must be at least one. -/
def digits? (cs : List Char) : Option Nat :=
  if !cs.isEmpty && cs.all Char.isDigit then
    some (cs.foldl (fun n c => n * 10 + (c.toNat - 0x30)) 0)
  else none

/-- The number in a text of decimal digits, which may stand behind a sign. -/
def decimal? (text : String) : Option Int :=
  match text.toList with
  | '-' :: rest => (digits? rest).map fun n => -(n : Int)
  | '+' :: rest => (digits? rest).map Int.ofNat
  | cs => (digits? cs).map Int.ofNat

end LightClient
