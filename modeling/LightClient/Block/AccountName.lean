import LightClient.Json.Reader
import LightClient.Packed.Layout

/-!
Account names: up to thirteen characters in 64 bits. Twelve take five bits each, from the top
down, and the thirteenth takes the four that are left.
-/

namespace LightClient

structure AccountName where
  value : UInt64
  deriving DecidableEq

namespace AccountName

inductive Fault where
  | tooLong
  | badCharacter
  | badLast
  deriving DecidableEq

def Fault.reason : Fault → String
  | .tooLong => "longer than 13 characters"
  | .badCharacter => "character outside .1-5a-z"
  | .badLast => "13th character must be one of .1-5a-j"

structure ParseError where
  text : String
  fault : Fault
  deriving DecidableEq

def ParseError.message (e : ParseError) : String :=
  "invalid account name " ++ Quoted.text e.text ++ ": " ++ e.fault.reason

def symbol? (byte : UInt8) : Option Nat :=
  let n := byte.toNat
  if 0x61 ≤ n ∧ n ≤ 0x7a then some (n - 0x61 + 6)
  else if 0x31 ≤ n ∧ n ≤ 0x35 then some (n - 0x31 + 1)
  else if n = 0x2e then some 0
  else none

/-- The character of a number below 32. -/
def symbolChar (n : Nat) : Char :=
  if n = 0 then '.'
  else if n ≤ 5 then Char.ofNat (0x30 + n)
  else Char.ofNat (0x61 + (n - 6))

def ofBase32 (digits : List Nat) : Nat :=
  digits.foldl (fun n d => n * 32 + d) 0

def base32 : Nat → Nat → List Nat
  | 0, _ => []
  | width + 1, n => base32 width (n / 32) ++ [n % 32]

def symbols (text : String) : Except Fault (List Nat) := do
  let bytes := utf8 text
  if bytes.length > 13 then throw .tooLong
  let symbols ← bytes.mapM fun b =>
    match symbol? b with
    | some n => .ok n
    | none => .error Fault.badCharacter
  if symbols.getD 12 0 > 15 then throw .badLast
  return symbols

/-- The number with these symbols, which stand for themselves and zeros after them. -/
def pack13 (symbols : List Nat) : Nat :=
  let all := symbols ++ List.replicate (13 - symbols.length) 0
  ofBase32 (all.take 12) * 16 + all.getD 12 0

/-- The thirteen symbols of a number. -/
def unpack13 (value : Nat) : List Nat :=
  base32 12 (value / 16) ++ [value % 16]

def ofText (text : String) : Except ParseError AccountName :=
  match symbols text with
  | .ok symbols => .ok ⟨UInt64.ofNat (pack13 symbols)⟩
  | .error fault => .error ⟨text, fault⟩

/-- The characters without the dots at their end. -/
def dropDots (cs : List Char) : List Char :=
  (cs.reverse.dropWhile (· = '.')).reverse

/-- The shortest text of a name. -/
def text (name : AccountName) : String :=
  String.ofList (dropDots ((unpack13 name.value.toNat).map symbolChar))

instance : ToString AccountName := ⟨text⟩

def label (name : AccountName) : String :=
  s!"Name({name})"

instance : Layout AccountName where
  pack name := littleEndian 8 name.value.toNat
  unpack := AccountName.mk <$> .u64 "name"
  minSize := 8
  record := "ibc_block::name::Name"

instance : JsonForm AccountName where
  toJson name := .string name.text
  ofJson _ := Json.viaText fun s => (ofText s).mapError ParseError.message

end AccountName

end LightClient
