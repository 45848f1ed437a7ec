import LightClient.Merkle.Pair

/-!
The root of a list of leaves, by halving: each round an odd list repeats its last digest, and then
every two neighbours become one.
-/

namespace LightClient.Merkle

/-- The list with its last digest once more, if their number is odd. -/
def evenUp (layer : List Digest) : List Digest :=
  if layer.length % 2 = 1 then layer ++ layer.getLast?.toList else layer

/-- Every two neighbours as one. -/
def pairUp : List Digest → List Digest
  | left :: right :: rest => left.pair right :: pairUp rest
  | _ => []

/-- The list after at most `rounds` rounds of halving, which end at a single digest. -/
def halve : Nat → List Digest → List Digest
  | 0, layer => layer
  | rounds + 1, layer =>
    if layer.length ≤ 1 then layer else halve rounds (pairUp (evenUp layer))

/-- The root of a list of leaves; of none it is the zero digest. Every round shortens the list, so
as many rounds as leaves are enough. -/
def root (leaves : List Digest) : Digest :=
  (halve leaves.length leaves).headD .zero

end LightClient.Merkle
