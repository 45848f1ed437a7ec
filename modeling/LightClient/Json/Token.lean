/-!
The tokens of a JSON text. A text that stops being JSON ends in a token that says so.
-/

namespace LightClient.Json

inductive Token where
  | openBrace
  | closeBrace
  | openBracket
  | closeBracket
  | colon
  | comma
  | null
  | bool (value : Bool)
  | integer (value : Int)
  | decimal (literal : String)
  | string (text : String)
  | halfString
  | bad
  deriving DecidableEq

namespace Token

/-- The four characters that may stand between tokens. -/
def isSpace (c : Char) : Bool :=
  c = ' ' || c = '\n' || c = '\t' || c = '\r'

def hexValue? (c : Char) : Option Nat :=
  if '0' ≤ c ∧ c ≤ '9' then some (c.toNat - 0x30)
  else if 'a' ≤ c ∧ c ≤ 'f' then some (c.toNat - 0x57)
  else if 'A' ≤ c ∧ c ≤ 'F' then some (c.toNat - 0x37)
  else none

def hex4? (a b c d : Char) : Option Nat := do
  let a ← hexValue? a
  let b ← hexValue? b
  let c ← hexValue? c
  let d ← hexValue? d
  return ((a * 16 + b) * 16 + c) * 16 + d

/-- The character that a backslash and this one stand for. -/
def unescape? (c : Char) : Option Char :=
  if c = '\x22' || c = '\\' || c = '/' then some c
  else if c = 'b' then some '\x08'
  else if c = 'f' then some '\x0c'
  else if c = 'n' then some '\n'
  else if c = 'r' then some '\r'
  else if c = 't' then some '\t'
  else none

/-- The code units of a string up to its closing quote, and what follows. An escape may give half
of a surrogate pair. -/
def scanString : List Char → Option (List Nat × List Char)
  | [] => none
  | '\\' :: 'u' :: a :: b :: c :: d :: rest => do
    let unit ← hex4? a b c d
    let (units, rest) ← scanString rest
    return (unit :: units, rest)
  | '\\' :: c :: rest => do
    let c ← unescape? c
    let (units, rest) ← scanString rest
    return (c.toNat :: units, rest)
  | c :: rest =>
    if c = '\x22' then some ([], rest)
    else if c.toNat < 0x20 || c = '\\' then none
    else do
      let (units, rest) ← scanString rest
      return (c.toNat :: units, rest)

/-- The characters of code units, with pairs of halves joined; none if a half stands alone. -/
def joinHalves : List Nat → Option (List Char)
  | [] => some []
  | n :: rest =>
    if 0xd800 ≤ n ∧ n < 0xdc00 then
      match rest with
      | m :: rest =>
        if 0xdc00 ≤ m ∧ m < 0xe000 then
          (joinHalves rest).map (Char.ofNat (0x10000 + (n - 0xd800) * 0x400 + (m - 0xdc00)) :: ·)
        else none
      | [] => none
    else if 0xdc00 ≤ n ∧ n < 0xe000 then none
    else (joinHalves rest).map (Char.ofNat n :: ·)

/-- The token of a string with these code units. -/
def ofUnits (units : List Nat) : Token :=
  match joinHalves units with
  | some cs => .string (String.ofList cs)
  | none => .halfString

def ofDigits (digits : List Char) : Nat :=
  digits.foldl (fun n c => n * 10 + (c.toNat - 0x30)) 0

def isExponent : List Char → Bool
  | [] => true
  | e :: rest =>
    let digits := match rest with
      | '+' :: digits => digits
      | '-' :: digits => digits
      | digits => digits
    (e = 'e' || e = 'E') && !digits.isEmpty && digits.all Char.isDigit

/-- Whether the characters are an optional fraction and exponent. -/
def isTail : List Char → Bool
  | '.' :: rest =>
    let digits := rest.takeWhile Char.isDigit
    !digits.isEmpty && isExponent (rest.drop digits.length)
  | rest => isExponent rest

/-- The token of a number without its sign. -/
def ofUnsigned? (negative : Bool) (literal : List Char) : Option Token :=
  let digits := literal.takeWhile Char.isDigit
  let tail := literal.drop digits.length
  let n := ofDigits digits
  let leadingZero := digits.head? = some '0' && digits.length != 1
  if digits.isEmpty || leadingZero || !isTail tail then none
  else if negative then
    if tail.isEmpty && n != 0 then some (.integer (-n))
    else some (.decimal (String.ofList ('-' :: literal)))
  else if tail.isEmpty then some (.integer n)
  else some (.decimal (String.ofList literal))

def ofNumber? : List Char → Option Token
  | '-' :: rest => ofUnsigned? true rest
  | literal => ofUnsigned? false literal

def ofWord? (word : List Char) : Option Token :=
  if word = ['n', 'u', 'l', 'l'] then some .null
  else if word = ['t', 'r', 'u', 'e'] then some (.bool true)
  else if word = ['f', 'a', 'l', 's', 'e'] then some (.bool false)
  else none

def isNumeric (c : Char) : Bool :=
  c.isDigit || c = '+' || c = '-' || c = '.' || c = 'e' || c = 'E'

def ofPunctuation? (c : Char) : Option Token :=
  if c = '\x7b' then some .openBrace
  else if c = '\x7d' then some .closeBrace
  else if c = '[' then some .openBracket
  else if c = ']' then some .closeBracket
  else if c = ':' then some .colon
  else if c = ',' then some .comma
  else none

/-- The token at the front of a text that does not start with a space, and what follows. -/
def next (c : Char) (rest : List Char) : Option (Token × List Char) :=
  match ofPunctuation? c with
  | some t => some (t, rest)
  | none =>
    if c = '\x22' then (scanString rest).map fun (units, rest) => (ofUnits units, rest)
    else if c = '-' || c.isDigit then
      let literal := (c :: rest).takeWhile isNumeric
      (ofNumber? literal).map (·, (c :: rest).drop literal.length)
    else
      let word := (c :: rest).takeWhile Char.isAlpha
      (ofWord? word).map (·, (c :: rest).drop word.length)

/-- At most `limit` tokens from the front of a text. -/
def scan : Nat → List Char → List Token
  | 0, _ => []
  | limit + 1, cs =>
    match cs.dropWhile isSpace with
    | [] => []
    | c :: rest =>
      match next c rest with
      | some (t, rest) => t :: scan limit rest
      | none => [.bad]

/-- The tokens of a text. A token takes at least one character, so the text's length bounds their
number. -/
def ofText (text : String) : List Token :=
  let cs := text.toList
  scan (cs.length + 1) cs

end Token

end LightClient.Json
