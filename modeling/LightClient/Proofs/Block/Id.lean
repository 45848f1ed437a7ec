import LightClient.Block.Header
import LightClient.Proofs.Packed.LittleEndian

/-!
Block ids: the number is read off an id as it was put there, and all other bytes are those of the
hash of the packed header.
-/

namespace LightClient

namespace Digest

/-- All bytes but the first four: what an id keeps of a hash. -/
def tail (d : Digest) : List UInt8 :=
  d.bytes.drop 4

/-- Bytes with the highest first give the number of the reversed bytes. -/
theorem foldl_reverse_eq (bytes : List UInt8) :
    bytes.reverse.foldl (fun n b => n * 256 + b.toNat) 0 = ofLittleEndian bytes := by
  rw [List.foldl_reverse]
  induction bytes with
  | nil => rfl
  | cons b bytes ih => rw [List.foldr_cons, ih, ofLittleEndian, Nat.mul_comm, Nat.add_comm]

variable (n : UInt32) (d : Digest)

@[simp] theorem number_withNumber : (d.withNumber n).number = n := by
  have hlen : (littleEndian 4 n.toNat).reverse.length = 4 := by simp
  have hlt : n.toNat < 256 ^ 4 := n.toNat_lt
  rw [number, withNumber, List.take_left' hlen, foldl_reverse_eq, ofLittleEndian_littleEndian,
    Nat.mod_eq_of_lt hlt, UInt32.ofNat_toNat]

@[simp] theorem tail_withNumber : (d.withNumber n).tail = d.tail := by
  have hlen : (littleEndian 4 n.toNat).reverse.length = 4 := by simp
  rw [tail, withNumber, List.drop_left' hlen]
  rfl

end Digest

namespace Header

variable (h : Header)

/-- The number can be read off the id. -/
theorem number_id : h.id.number = h.blockNum :=
  Digest.number_withNumber ..

theorem tail_id : h.id.tail = (Digest.hash h.encode).tail :=
  Digest.tail_withNumber ..

end Header

end LightClient
