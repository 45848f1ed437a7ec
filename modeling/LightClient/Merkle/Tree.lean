import LightClient.Merkle.Path

/-!
Trees with all their layers, from which the path of any leaf can be cut.
-/

namespace LightClient.Merkle

/-- A tree: the leaves, then one layer of parents after the other up to the root. -/
structure Tree where
  layers : List (List Digest)

namespace Tree

/-- The parents of a layer; a digest without a right neighbour is paired with itself. -/
def parents : List Digest → List Digest
  | left :: right :: rest => left.pair right :: parents rest
  | [left] => [left.pair left]
  | [] => []

theorem length_parents (layer : List Digest) : (parents layer).length = (layer.length + 1) / 2 := by
  fun_induction parents layer with
  | case1 left right rest ih =>
    simp only [List.length_cons, ih]
    omega
  | case2 => simp
  | case3 => simp

/-- The layer and all above it; a layer of at most one digest is the last. -/
def layersFrom (layer : List Digest) : List (List Digest) :=
  if layer.length ≤ 1 then [layer] else layer :: layersFrom (parents layer)
termination_by layer.length
decreasing_by
  rw [length_parents]
  omega

def ofLeaves (leaves : List Digest) : Tree :=
  ⟨layersFrom leaves⟩

def leaves (tree : Tree) : List Digest :=
  tree.layers.headD []

def leafCount (tree : Tree) : Nat :=
  tree.leaves.length

/-- The top digest; of a tree without leaves it is the zero digest. -/
def root (tree : Tree) : Digest :=
  (tree.layers.getLast?.getD []).headD .zero

/-- The sibling of the digest at this place, marked with the side on which it stands. A digest
without a right neighbour is its own sibling. -/
def sibling (layer : List Digest) (index : Nat) : Digest :=
  if index % 2 = 1 then (layer.getD (index - 1) .zero).asLeft
  else (layer.getD (index + 1) (layer.getD index .zero)).asRight

/-- The siblings from this place up to the layer below the root. -/
def siblings : List (List Digest) → Nat → List Digest
  | layer :: above :: rest, index =>
    sibling layer index :: siblings (above :: rest) (index / 2)
  | _, _ => []

/-- The path of the leaf at this place. -/
def proof (tree : Tree) (index : Nat) : Except Error Path :=
  if index < tree.leafCount then .ok ⟨siblings tree.layers index⟩
  else .error (.misuse (.noLeaf index tree.leafCount))

end Tree

end LightClient.Merkle
