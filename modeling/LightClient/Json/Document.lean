import LightClient.Json.Basic
import LightClient.Json.Token

/-!
The value of a JSON text, built token by token. Where the text breaks off, what stands before the
break is kept, so that a reader can find the first fault in the order of the text. An object with
a name that no text can hold is left open before that name, though the text goes on.
-/

namespace LightClient.Json

/-- A value that is not finished yet; what is done stands latest first. -/
inductive Frame where
  | items (done : List Json)
  /-- An object between two members. -/
  | members (done : List (String × Json))
  /-- An object whose next member is named but has no value yet. -/
  | member (done : List (String × Json)) (name : String)
  /-- An object after a name that no text can hold: no further member is kept. -/
  | nameless (done : List (String × Json))

/-- What may come next. -/
inductive Want where
  | value
  /-- A value, or the end of the array. -/
  | firstItem
  /-- A comma, or the end of the array or object. -/
  | separator
  /-- A name, or the end of the object. -/
  | firstName
  | name
  | colon
  deriving DecidableEq

/-- A JSON text as far as it can be read. -/
structure Document where
  /-- The value at the front; none if no value starts there. -/
  value : Option Json
  /-- The value is complete and nothing follows it. -/
  clean : Bool

/-- How far a text has been read. -/
inductive Progress where
  | reading (stack : List Frame) (want : Want)
  | finished (value : Json)
  | broken (document : Document)

namespace Progress

def start : Progress :=
  .reading [] .value

/-- The unfinished values as they stand, with the value inside them, if there is one. -/
def collapse : Option Json → List Frame → Option Json
  | inner, [] => inner
  | inner, .items done :: stack =>
    collapse (some (.array (inner.toList.reverse ++ done).reverse false)) stack
  | _, .members done :: stack => collapse (some (.object done.reverse false)) stack
  | inner, .member done name :: stack =>
    let last := inner.toList.map (name, ·)
    collapse (some (.object (last ++ done).reverse false)) stack
  | _, .nameless done :: stack => collapse (some (.object done.reverse false)) stack

/-- Breaks off inside these unfinished values. -/
def fail (stack : List Frame) : Progress :=
  .broken ⟨collapse none stack, false⟩

/-- Puts a complete value into the innermost unfinished one. -/
def put (value : Json) : List Frame → Progress
  | [] => .finished value
  | .items done :: stack => .reading (.items (value :: done) :: stack) .separator
  | .member done name :: stack => .reading (.members ((name, value) :: done) :: stack) .separator
  | .nameless done :: stack => .reading (.nameless done :: stack) .separator
  | .members done :: stack => fail (.members done :: stack)

def scalar? : Token → Option Json
  | .null => some .null
  | .bool b => some (.bool b)
  | .integer n => some (.integer n)
  | .decimal literal => some (.decimal literal)
  | .string text => some (.string text)
  | .halfString => some .halfString
  | _ => none

/-- A token where a value may start. -/
def startValue (stack : List Frame) (t : Token) : Progress :=
  match t with
  | .openBracket => .reading (.items [] :: stack) .firstItem
  | .openBrace => .reading (.members [] :: stack) .firstName
  | t =>
    match scalar? t with
    | some j => put j stack
    | none => fail stack

def step : Progress → Token → Progress
  | .broken document, _ => .broken document
  | .finished value, _ => .broken ⟨some value, false⟩
  | .reading stack want, t =>
    match want, t, stack with
    | .firstItem, .closeBracket, .items done :: outer => put (.array done.reverse) outer
    | .separator, .closeBracket, .items done :: outer => put (.array done.reverse) outer
    | .separator, .comma, .items done :: outer => .reading (.items done :: outer) .value
    | .firstName, .closeBrace, .members done :: outer => put (.object done.reverse) outer
    | .separator, .closeBrace, .members done :: outer => put (.object done.reverse) outer
    | .separator, .comma, .members done :: outer => .reading (.members done :: outer) .name
    | .firstName, .string name, .members done :: outer =>
      .reading (.member done name :: outer) .colon
    | .name, .string name, .members done :: outer => .reading (.member done name :: outer) .colon
    | .firstName, .halfString, .members done :: outer => .reading (.nameless done :: outer) .colon
    | .name, .halfString, .members done :: outer => .reading (.nameless done :: outer) .colon
    | .name, .string _, .nameless done :: outer => .reading (.nameless done :: outer) .colon
    | .name, .halfString, .nameless done :: outer => .reading (.nameless done :: outer) .colon
    | .separator, .comma, .nameless done :: outer => .reading (.nameless done :: outer) .name
    | .separator, .closeBrace, .nameless done :: outer => put (.object done.reverse false) outer
    | .colon, .colon, stack => .reading stack .value
    | .value, t, stack => startValue stack t
    | .firstItem, t, stack => startValue stack t
    | _, _, stack => fail stack

/-- What was read when the tokens end. -/
def document : Progress → Document
  | .reading stack _ => ⟨collapse none stack, false⟩
  | .finished value => ⟨some value, true⟩
  | .broken document => document

end Progress

def Document.ofTokens (tokens : List Token) : Document :=
  (tokens.foldl Progress.step .start).document

def Document.ofText (text : String) : Document :=
  .ofTokens (Token.ofText text)

end LightClient.Json
