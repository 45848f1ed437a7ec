import LightClient.Merkle.Frontier

/-!
Accumulators: the root of a list of leaves that grows at its end, from its frontier alone.
-/

namespace LightClient.Merkle

/-- A growing list of leaves, kept as its frontier and their number. -/
structure Accumulator where
  nodes : List Digest
  leafCount : UInt64
  deriving DecidableEq

namespace Accumulator

def empty : Accumulator :=
  ⟨[], 0⟩

instance : Inhabited Accumulator := ⟨empty⟩

def isEmpty (acc : Accumulator) : Bool :=
  acc.leafCount = 0

/-- The root of all leaves; of none it is the zero digest. -/
def root (acc : Accumulator) : Digest :=
  if acc.leafCount = 0 then .zero else acc.nodes.getLastD .zero

def validate (acc : Accumulator) : Except Error Unit :=
  (Frontier.validate acc.nodes acc.leafCount).mapError .corrupt

/-- The accumulator with these parts, if they pass the check. -/
def ofParts (nodes : List Digest) (leafCount : UInt64) : Except Error Accumulator := do
  (Frontier.validate nodes leafCount).mapError .corrupt
  return ⟨nodes, leafCount⟩

/-- Carries a new subtree up `levels` levels. The bits of `count`, the number of leaves before,
say where a full subtree stands to the left; `top` is the root so far, and `partly` says that it
covers a subtree that is not full. Gives the full subtrees that are kept and the root of the whole,
or none if the old frontier lacks a subtree on the left. -/
def carry : Nat → Nat → Digest → Bool → List Digest → Option (List Digest × Digest)
  | 0, _, top, _, _ => some ([], top)
  | levels + 1, count, top, partly, old =>
    if count % 2 = 0 then
      let rest := carry levels (count / 2) (top.pair top) true old
      if partly then rest else rest.map fun (kept, root) => (top :: kept, root)
    else
      match old with
      | [] => none
      | left :: old =>
        let rest := carry levels (count / 2) (left.pair top) partly old
        if partly then rest.map fun (kept, root) => (left :: kept, root) else rest

/-- Appends a leaf; gives the new root and the accumulator with that leaf. A frontier that passes
the check has every subtree that is needed. -/
def push (acc : Accumulator) (leaf : Digest) : Except Error (Digest × Accumulator) :=
  if acc.leafCount ≥ maxLeafCount then .error (.misuse (.full acc.leafCount.toNat))
  else
    let leafCount := acc.leafCount + 1
    match carry (maxDepth leafCount - 1) acc.leafCount.toNat leaf false acc.nodes with
    | some (kept, root) => .ok (root, ⟨kept ++ [root], leafCount⟩)
    | none => .error (.corrupt .exhausted)

def append (acc : Accumulator) (leaf : Digest) : Except Error Accumulator :=
  (·.2) <$> acc.push leaf

/-- Appends leaves up to the first that fails; the leaves before it stay. -/
def appendAll (acc : Accumulator) : List Digest → Accumulator × Except Error Unit
  | [] => (acc, .ok ())
  | leaf :: leaves =>
    match acc.append leaf with
    | .ok acc => acc.appendAll leaves
    | .error e => (acc, .error e)

def ofLeaves (leaves : List Digest) : Except Error Accumulator :=
  leaves.foldlM append empty

/-- Finds the node of a layer: one stands at each set bit of `count`, from layer `at` on. -/
def nodeFrom (layer : Nat) : Nat → Nat → Nat → List Digest → Option Digest
  | 0, _, _, _ => none
  | levels + 1, current, count, nodes =>
    if current = layer then
      if count % 2 = 1 then nodes.head? else none
    else
      nodeFrom layer levels (current + 1) (count / 2)
        (if count % 2 = 1 then nodes.drop 1 else nodes)

/-- The root of the last full subtree of a layer. Layer 1 holds the leaves, and the highest layer
holds the root of the whole. -/
def nodeAtLayer (acc : Accumulator) (layer : Nat) : Except Error Digest :=
  let depth := maxDepth acc.leafCount
  if acc.leafCount = 0 then .error (.misuse .noLayers)
  else if layer < 1 ∨ depth < layer then .error (.misuse (.layerOutside layer depth))
  else if layer = depth then .ok acc.root
  else
    match nodeFrom layer (depth - 1) 1 acc.leafCount.toNat acc.nodes with
    | some node => .ok node
    | none => .error (.misuse (.noNode layer acc.leafCount.toNat))

/-- The packed accumulator: its nodes and the number of leaves. -/
def encode (acc : Accumulator) : List UInt8 :=
  pack acc.nodes ++ pack acc.leafCount

/-- Reads a packed accumulator and checks its frontier. -/
def decode (bytes : List UInt8) : Except Error Accumulator := do
  let parts : Decoder (List Digest × UInt64) := do
    let nodes ← unpack
    let leafCount ← Decoder.u64 "leaf_count"
    return (nodes, leafCount)
  let (nodes, leafCount) ← (parts.whole "incremental merkle" bytes).mapError .decode
  ofParts nodes leafCount

def fields : Json.Fields (List Digest × UInt64) :=
  Prod.mk <$> Json.field "active_nodes" <*> Json.field "leaf_count"

instance : JsonForm Accumulator where
  toJson acc :=
    .object [("active_nodes", toJson acc.nodes), ("leaf_count", toJson acc.leafCount)]
  ofJson arrival j := do
    let (nodes, leafCount) ← fields.read arrival j
    (ofParts nodes leafCount).mapError fun e => .refused e.message

end Accumulator

end LightClient.Merkle
