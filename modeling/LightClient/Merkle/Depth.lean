/-!
Sizes of trees, from numbers of leaves in 64 bits.
-/

namespace LightClient.Merkle

/-- The number rounded up to a power of two, by copying its top bit into all bits below. Zero, and
any number that no power of two in 64 bits reaches, give zero. -/
def nextPowerOfTwo (n : UInt64) : UInt64 :=
  let v := n - 1
  let v := v ||| (v >>> 1)
  let v := v ||| (v >>> 2)
  let v := v ||| (v >>> 4)
  let v := v ||| (v >>> 8)
  let v := v ||| (v >>> 16)
  let v := v ||| (v >>> 32)
  v + 1

/-- The number of zero bits below the lowest one bit; 64 for zero. -/
def trailingZeros (n : UInt64) : Nat :=
  ((List.range 64).find? n.toNat.testBit).getD 64

def bitCount (n : UInt64) : Nat :=
  ((List.range 64).filter n.toNat.testBit).length

/-- The number of layers of a tree with this many leaves, the leaves counted as one. -/
def maxDepth (leafCount : UInt64) : Nat :=
  if leafCount = 0 then 0 else trailingZeros (nextPowerOfTwo leafCount) + 1

/-- The most leaves that an accumulator holds. -/
def maxLeafCount : UInt64 := 0x8000000000000000

/-- The number of nodes in the frontier of this many leaves: one for each full subtree, and the
root where it is none of them. -/
def frontierLength (leafCount : UInt64) : Nat :=
  match bitCount leafCount with
  | 0 => 0
  | 1 => 1
  | n => n + 1

end LightClient.Merkle
