import LightClient.Merkle.Error
import LightClient.Merkle.Pair

/-!
Paths from a leaf to a root. Each entry is a sibling, and its top bit says on which side it stands.
-/

namespace LightClient.Merkle

/-- The siblings on the way from a leaf to a root, nearest to the leaf first. -/
structure Path where
  entries : List Digest
  deriving DecidableEq

namespace Path

/-- The longest path that is ever accepted. -/
def maxLength : Nat := 64

def length (path : Path) : Nat :=
  path.entries.length

/-- The parent of a digest and the sibling on its side. -/
def climb (below sibling : Digest) : Digest :=
  if sibling.isLeft then sibling.pair below else below.pair sibling

/-- The root that the path leads to from this leaf. -/
def fold (path : Path) (leaf : Digest) : Digest :=
  path.entries.foldl climb leaf

/-- Checks that a path is not too long and leads from the leaf to the root. -/
def check (leaf : Digest) (path : Path) (root : Digest) : Except Error Unit :=
  if path.length > maxLength then .error (.misuse (.pathTooLong path.length))
  else if path.fold leaf = root then .ok ()
  else .error (.mismatch (path.fold leaf) root)

def verifies (leaf : Digest) (path : Path) (root : Digest) : Bool :=
  match check leaf path root with
  | .ok _ => true
  | .error _ => false

instance : Layout Path where
  pack path := pack path.entries
  unpack := Path.mk <$> unpack
  record := "ibc_merkle::path::MerklePath"

instance : JsonForm Path where
  toJson path := toJson path.entries
  ofJson arrival j := Path.mk <$> ofJson arrival j

end Path

end LightClient.Merkle
