import LightClient.Digest

/-!
What can be wrong with digests, frontiers and paths.
-/

namespace LightClient.Merkle

inductive Corruption where
  | tooManyLeaves (leafCount : Nat)
  | wrongNodeCount (leafCount expected found : Nat)
  /-- The nodes run out below the root. -/
  | exhausted
  | unconsumed (nodes : Nat)
  | wrongRoot (stored derived : Digest)
  | noRoot
  deriving DecidableEq

def Corruption.reason : Corruption → String
  | .tooManyLeaves leafCount =>
    s!"{leafCount} leaves exceed the accumulator capacity of 9223372036854775808"
  | .wrongNodeCount leafCount expected found =>
    s!"{leafCount} leaves require {expected} frontier nodes, found {found}"
  | .exhausted => "frontier exhausted before reaching the root"
  | .unconsumed nodes => s!"{nodes} frontier nodes left unconsumed"
  | .wrongRoot stored derived =>
    s!"stored root {stored} does not match derived root {derived}"
  | .noRoot => "frontier did not produce a root"

inductive Misuse where
  /-- The accumulator takes no more leaves. -/
  | full (leafCount : Nat)
  | noLayers
  | layerOutside (layer depth : Nat)
  | noNode (layer leafCount : Nat)
  | pathTooLong (entries : Nat)
  | noLeaf (index leafCount : Nat)
  deriving DecidableEq

def Misuse.reason : Misuse → String
  | .full leafCount => s!"accumulator is full at {leafCount} leaves"
  | .noLayers => "empty accumulator has no layers"
  | .layerOutside layer depth => s!"layer {layer} outside 1..={depth}"
  | .noNode layer leafCount =>
    s!"no fully realized node at layer {layer} for {leafCount} leaves"
  | .pathTooLong entries => s!"path of {entries} entries exceeds 64"
  | .noLeaf index leafCount => s!"leaf index {index} out of range for {leafCount} leaves"

inductive Error where
  | corrupt (what : Corruption)
  /-- A path leads to another root than the expected one. -/
  | mismatch (folded expected : Digest)
  | misuse (what : Misuse)
  | decode (e : DecodeError)
  deriving DecidableEq

def Error.message : Error → String
  | .corrupt what => "structural corruption: " ++ what.reason
  | .mismatch folded expected =>
    s!"verification failure: path folds to {folded}, expected root {expected}"
  | .misuse what => "malformed input: " ++ what.reason
  | .decode e => "malformed input: " ++ e.message

end LightClient.Merkle
