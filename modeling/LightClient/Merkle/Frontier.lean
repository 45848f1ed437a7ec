import LightClient.Merkle.Depth
import LightClient.Merkle.Error
import LightClient.Merkle.Pair

/-!
Checking a frontier: the roots of the full subtrees of a growing tree, smallest first, and then the
root of the whole. The root is derived again from the other nodes.
-/

namespace LightClient.Merkle.Frontier

/-- Walks up `levels` levels. Below the top at each level stands either nothing or one subtree that
is not full, whose root so far is `top`; `width` is the number of nodes at the level, a subtree
that is not full counted. Gives the nodes not used and the root of the last level. -/
def climb : Nat → Nat → Option Digest → List Digest →
    Except Corruption (List Digest × Option Digest)
  | 0, _, top, nodes => .ok (nodes, top)
  | levels + 1, width, top, nodes =>
    let above := (width + 1) / 2
    if width % 2 = 1 then
      match top with
      | some top => climb levels above (some (top.pair top)) nodes
      | none =>
        match nodes with
        | left :: nodes => climb levels above (some (left.pair left)) nodes
        | [] => .error .exhausted
    else
      match top with
      | some top =>
        match nodes with
        | left :: nodes => climb levels above (some (left.pair top)) nodes
        | [] => .error .exhausted
      | none => climb levels above none nodes

/-- Checks that the nodes can be the frontier of so many leaves. A single node is a root by
itself, and nothing can be said against it. -/
def validate (nodes : List Digest) (leafCount : UInt64) : Except Corruption Unit :=
  if leafCount > maxLeafCount then .error (.tooManyLeaves leafCount.toNat)
  else if nodes.length ≠ frontierLength leafCount then
    .error (.wrongNodeCount leafCount.toNat (frontierLength leafCount) nodes.length)
  else if nodes.length ≤ 1 then .ok ()
  else do
    let root := nodes.getLastD .zero
    let (unused, top) ← climb (maxDepth leafCount - 1) leafCount.toNat none nodes.dropLast
    if unused.length ≠ 0 then throw (.unconsumed unused.length)
    match top with
    | none => throw .noRoot
    | some derived => if derived = root then return () else throw (.wrongRoot root derived)

end LightClient.Merkle.Frontier
