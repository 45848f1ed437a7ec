import LightClient.Json.Basic
import LightClient.Text.Hex

/-!
Writing JSON: without any space, or with one member or item a line.
-/

namespace LightClient.Json

/-- A character as it stands in a string: quote, backslash and controls are escaped. -/
def escapeChar (c : Char) : List Char :=
  if c = '\x22' || c = '\\' then ['\\', c]
  else if c = '\x08' then ['\\', 'b']
  else if c = '\x0c' then ['\\', 'f']
  else if c = '\n' then ['\\', 'n']
  else if c = '\r' then ['\\', 'r']
  else if c = '\t' then ['\\', 't']
  else if c.toNat < 0x20 then
    ['\\', 'u', '0', '0', Hex.digitChar (c.toNat / 16), Hex.digitChar (c.toNat % 16)]
  else [c]

def quoteChars (text : String) : List Char :=
  '\x22' :: text.toList.flatMap escapeChar ++ ['\x22']

def scalarChars : Json → List Char
  | .bool true => ['t', 'r', 'u', 'e']
  | .bool false => ['f', 'a', 'l', 's', 'e']
  | .integer n => (toString n).toList
  | .decimal literal => literal.toList
  | .string text => quoteChars text
  | _ => ['n', 'u', 'l', 'l']

mutual

/-- The characters of the text without spaces. -/
def compactChars : Json → List Char
  | .array items _ => '[' :: compactItems items ++ [']']
  | .object members _ => '\x7b' :: compactMembers members ++ ['\x7d']
  | j => scalarChars j

def compactItems : List Json → List Char
  | [] => []
  | [j] => compactChars j
  | j :: rest => compactChars j ++ ',' :: compactItems rest

def compactMembers : List (String × Json) → List Char
  | [] => []
  | [(k, v)] => quoteChars k ++ ':' :: compactChars v
  | (k, v) :: rest => quoteChars k ++ ':' :: compactChars v ++ ',' :: compactMembers rest

end

/-- A line break and two spaces for each level. -/
def newline (level : Nat) : List Char :=
  '\n' :: List.replicate (2 * level) ' '

mutual

/-- The characters of the text with one item or member a line, at this level; empty arrays and
objects stay on one line. -/
def prettyChars (level : Nat) : Json → List Char
  | .array [] _ => ['[', ']']
  | .array items _ =>
    '[' :: newline (level + 1) ++ prettyItems (level + 1) items ++ newline level ++ [']']
  | .object [] _ => ['\x7b', '\x7d']
  | .object members _ =>
    '\x7b' :: newline (level + 1) ++ prettyMembers (level + 1) members ++ newline level ++
      ['\x7d']
  | j => scalarChars j

/-- The items, each on a line of its own. -/
def prettyItems (level : Nat) : List Json → List Char
  | [] => []
  | [j] => prettyChars level j
  | j :: rest => prettyChars level j ++ ',' :: newline level ++ prettyItems level rest

/-- The members, each on a line of its own. -/
def prettyMembers (level : Nat) : List (String × Json) → List Char
  | [] => []
  | [(k, v)] => quoteChars k ++ ':' :: ' ' :: prettyChars level v
  | (k, v) :: rest =>
    quoteChars k ++ ':' :: ' ' :: prettyChars level v ++ ',' :: newline level ++
      prettyMembers level rest

end

def compact (j : Json) : String :=
  String.ofList (compactChars j)

/-- The text with one item or member a line. -/
def pretty (j : Json) : String :=
  String.ofList (prettyChars 0 j)

end LightClient.Json
