/-!
Finite maps as lists of entries in ascending order of their keys.
-/

namespace LightClient

structure Table (κ ν : Type) where
  entries : List (κ × ν)
  deriving DecidableEq

namespace Table

variable {κ ν : Type}

def empty : Table κ ν := ⟨[]⟩

instance : Inhabited (Table κ ν) := ⟨empty⟩

def keys (t : Table κ ν) : List κ :=
  t.entries.map (·.1)

variable [LT κ] [DecidableLT κ] [DecidableEq κ]

/-- The value of the first entry of that key. -/
def findIn (key : κ) : List (κ × ν) → Option ν
  | [] => none
  | (k, v) :: rest => if k = key then some v else findIn key rest

/-- The entries with this one in its place, instead of one of the same key. -/
def insertIn (key : κ) (value : ν) : List (κ × ν) → List (κ × ν)
  | [] => [(key, value)]
  | (k, v) :: rest =>
    if k = key then (key, value) :: rest
    else if key < k then (key, value) :: (k, v) :: rest
    else (k, v) :: insertIn key value rest

def find? (t : Table κ ν) (key : κ) : Option ν :=
  findIn key t.entries

def insert (t : Table κ ν) (key : κ) (value : ν) : Table κ ν :=
  ⟨insertIn key value t.entries⟩

def erase (t : Table κ ν) (key : κ) : Table κ ν :=
  ⟨t.entries.filter (·.1 ≠ key)⟩

/-- The values at keys from `low` to `high`, both included. -/
def range (t : Table κ ν) (low high : κ) : List ν :=
  (t.entries.filter fun e => !(e.1 < low) && !(high < e.1)).map (·.2)

end Table

end LightClient
