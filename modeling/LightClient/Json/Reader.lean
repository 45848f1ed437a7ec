import LightClient.Json.Document
import LightClient.Json.Text

/-!
Reading typed values from JSON. The first fault counts: in an object the one whose member stands
first, and a missing member comes after all that are present.
-/

namespace LightClient

namespace Json

inductive Error where
  /-- The text is no JSON, or the value has the wrong type, range or members. -/
  | malformed
  /-- The reader of a value that is written as text, or checked as a whole, gives this reason. -/
  | refused (reason : String)
  deriving DecidableEq

/-- Whether a value is there as a whole when reading starts, or comes in token by token. -/
inductive Arrival where
  | whole
  | streamed
  deriving DecidableEq

end Json

/-- A type whose values are written as JSON. -/
class JsonForm (α : Type) where
  toJson : α → Json
  ofJson : Json.Arrival → Json → Except Json.Error α

export JsonForm (toJson ofJson)

namespace Json

/-- A natural number below the bound. -/
def natural (bound : Nat) : Json → Except Error Nat
  | .integer (.ofNat n) => if n < bound then .ok n else .error .malformed
  | _ => .error .malformed

def text : Json → Except Error String
  | .string s => .ok s
  | _ => .error .malformed

/-- A value written as text, whose own reader gives the reason of a refusal. -/
def viaText {α : Type} (parse : String → Except String α) (j : Json) : Except Error α := do
  let s ← j.text
  (parse s).mapError .refused

instance : JsonForm UInt8 where
  toJson n := .integer n.toNat
  ofJson _ j := UInt8.ofNat <$> j.natural UInt8.size

instance : JsonForm UInt16 where
  toJson n := .integer n.toNat
  ofJson _ j := UInt16.ofNat <$> j.natural UInt16.size

instance : JsonForm UInt32 where
  toJson n := .integer n.toNat
  ofJson _ j := UInt32.ofNat <$> j.natural UInt32.size

instance : JsonForm UInt64 where
  toJson n := .integer n.toNat
  ofJson _ j := UInt64.ofNat <$> j.natural UInt64.size

instance {α : Type} [JsonForm α] : JsonForm (List α) where
  toJson items := .array (items.map toJson)
  ofJson
    | arrival, .array items closed => do
      let values ← items.mapM (ofJson arrival)
      if closed then return values else throw .malformed
    | _, _ => .error .malformed

instance {α : Type} [JsonForm α] : JsonForm (Option α) where
  toJson
    | none => .null
    | some a => toJson a
  ofJson
    | _, .null => .ok none
    | arrival, j => some <$> ofJson arrival j

/-- The fields of a record, read from the members of an object in any order, or from the items of
an array in the record's own order. A fault carries the place of its member or item. -/
structure Fields (α : Type) where
  names : List String
  ofMembers : Arrival → List (String × Json) → Except (Nat × Error) α
  ofItems : Arrival → List Json → Except (Nat × Error) α

namespace Fields

/-- Joins two results; of two faults the one at the lower place counts. -/
def join {α β : Type} :
    Except (Nat × Error) (α → β) → Except (Nat × Error) α → Except (Nat × Error) β
  | .ok f, .ok a => .ok (f a)
  | .ok _, .error e => .error e
  | .error e, .ok _ => .error e
  | .error (i, e), .error (j, e') => if j < i then .error (j, e') else .error (i, e)

instance : Applicative Fields where
  pure a := ⟨[], fun _ _ => .ok a, fun _ _ => .ok a⟩
  seq f x :=
    let x := x ()
    { names := f.names ++ x.names
      ofMembers := fun arrival members =>
        join (f.ofMembers arrival members) (x.ofMembers arrival members)
      ofItems := fun arrival items =>
        join (f.ofItems arrival items)
          ((x.ofItems arrival (items.drop f.names.length)).mapError
            fun (place, e) => (place + f.names.length, e)) }

/-- One field; `absent` is its value where it is missing. -/
def fieldOr {α : Type} [JsonForm α] (name : String) (absent : Except Error α) : Fields α where
  names := [name]
  ofMembers arrival members :=
    match findMember name 0 members with
    | some (place, j) => (ofJson arrival j).mapError (place, ·)
    | none => absent.mapError (members.length, ·)
  ofItems
    | arrival, j :: _ => (ofJson arrival j).mapError (0, ·)
    | _, [] => absent.mapError (0, ·)

/-- The place of the first member, counted from `place`, that names a field named before. -/
def firstRepeat (names seen : List String) (place : Nat) : List (String × Json) → Option Nat
  | [] => none
  | (k, _) :: rest =>
    if seen.contains k then some place
    else firstRepeat names (if names.contains k then k :: seen else seen) (place + 1) rest

/-- Reads the record. Members of other names are skipped, a repeated field is a fault. -/
def read {α : Type} (fields : Fields α) (arrival : Arrival) : Json → Except Error α
  | .object members closed =>
    match firstRepeat fields.names [] 0 members, fields.ofMembers arrival members with
    | some i, .error (j, e) => .error (if j < i then e else .malformed)
    | some _, .ok _ => .error .malformed
    | none, .error (_, e) => .error e
    | none, .ok a => if closed then .ok a else .error .malformed
  | .array items closed =>
    match fields.ofItems arrival items with
    | .error (_, e) => .error e
    | .ok a =>
      if closed && items.length ≤ fields.names.length then .ok a else .error .malformed
  | _ => .error .malformed

end Fields

def field {α : Type} [JsonForm α] (name : String) : Fields α :=
  .fieldOr name (.error .malformed)

/-- A field that has this value where it is missing. -/
def fieldD {α : Type} [JsonForm α] (name : String) (value : α) : Fields α :=
  .fieldOr name (.ok value)

/-- The typed value of a JSON value that is there as a whole; the names of an object are taken in
ascending order. -/
def decode {α : Type} [JsonForm α] (j : Json) : Except Error α :=
  ofJson .whole j.sorted

/-- The typed value of a JSON text. -/
def decodeText {α : Type} [JsonForm α] (s : String) : Except Error α :=
  let document := Document.ofText s
  match document.value with
  | none => .error .malformed
  | some j => do
    let a ← ofJson .streamed j
    if document.clean then return a else throw .malformed

end Json

/-- A byte string in JSON: its hexadecimal text. The reason why a text is none is not kept. -/
structure HexBytes where
  bytes : List UInt8

instance : JsonForm HexBytes where
  toJson b := .string (Hex.encode b.bytes)
  ofJson _ j := do
    let s ← j.text
    match Hex.decode s with
    | .ok bytes => return ⟨bytes⟩
    | .error _ => throw .malformed

end LightClient
