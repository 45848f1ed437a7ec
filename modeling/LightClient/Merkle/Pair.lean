import LightClient.Digest

/-!
Hashing a pair of digests. The top bit of a digest says on which side of its parent it stands: a
left one has it cleared and a right one has it set before the two are hashed.
-/

namespace LightClient

namespace Digest

/-- The digest with `f` applied to its first byte. -/
def mapFirst (f : UInt8 → UInt8) (d : Digest) : Digest :=
  ⟨match d.bytes with
    | [] => []
    | b :: rest => f b :: rest,
   by
    have h := d.length_bytes
    split <;> simp_all⟩

/-- The digest as it stands on the left: its top bit is cleared. -/
def asLeft (d : Digest) : Digest :=
  d.mapFirst (· &&& 0x7f)

/-- The digest as it stands on the right: its top bit is set. -/
def asRight (d : Digest) : Digest :=
  d.mapFirst (· ||| 0x80)

def isLeft (d : Digest) : Bool :=
  d.bytes.headD 0 &&& 0x80 = 0

def isRight (d : Digest) : Bool :=
  d.bytes.headD 0 &&& 0x80 ≠ 0

/-- The hash of two digests, each as it stands on its side. -/
def pair (left right : Digest) : Digest :=
  hash (left.asLeft.bytes ++ right.asRight.bytes)

end Digest

end LightClient
