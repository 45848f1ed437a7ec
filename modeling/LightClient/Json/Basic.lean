/-!
JSON values, also those whose text breaks off: an array or object then holds what stands before
the break and is not closed. An object with a name that no text can hold holds what stands before
that name, and is not closed either.
-/

namespace LightClient

inductive Json where
  | null
  | bool (value : Bool)
  /-- A number without fraction and exponent, other than minus zero. -/
  | integer (value : Int)
  /-- Any other number, as it is written. -/
  | decimal (literal : String)
  | string (text : String)
  /-- A string with an escape for half a character, which no text can hold. -/
  | halfString
  | array (items : List Json) (closed : Bool := true)
  | object (members : List (String × Json)) (closed : Bool := true)

namespace Json

instance : Inhabited Json := ⟨.null⟩

/-- Puts a member into members that ascend by name, in place of one of the same name. -/
def insertMember (name : String) (value : Json) : List (String × Json) → List (String × Json)
  | [] => [(name, value)]
  | (k, v) :: rest =>
    if name < k then (name, value) :: (k, v) :: rest
    else if name = k then (name, value) :: rest
    else (k, v) :: insertMember name value rest

mutual

/-- The value with the members of every object in ascending order of their names; of several
members of one name the last is kept. -/
def sorted : Json → Json
  | .array items closed => .array (sortedItems items) closed
  | .object members closed => .object (sortedMembers members []) closed
  | j => j

def sortedItems : List Json → List Json
  | [] => []
  | j :: rest => j.sorted :: sortedItems rest

/-- The members, each sorted, put one by one into `before`. -/
def sortedMembers : List (String × Json) → List (String × Json) → List (String × Json)
  | [], before => before
  | (k, v) :: rest, before => sortedMembers rest (insertMember k v.sorted before)

end

/-- The first member of that name and its place, counted from `place`. -/
def findMember (name : String) (place : Nat) : List (String × Json) → Option (Nat × Json)
  | [] => none
  | (k, v) :: rest => if k = name then some (place, v) else findMember name (place + 1) rest

/-- The member of an object; none of any other value. -/
def member? (j : Json) (name : String) : Option Json :=
  match j with
  | .object members _ => (findMember name 0 members).map (·.2)
  | _ => none

end Json

end LightClient
