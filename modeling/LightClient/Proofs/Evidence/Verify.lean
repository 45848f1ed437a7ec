import LightClient.Evidence.Verify
import LightClient.Proofs.Except
import LightClient.Proofs.Merkle.Paths

/-!
What a verifier has checked when it accepts a proof: both paths within their limits lead to their
roots, both parts speak of one block, and the block is not behind the anchor.
-/

namespace LightClient

/-- The path is no longer than the limit and the longest path of all, and leads to the root. -/
structure Leads (limit : UInt64) (leaf : Digest) (path : Merkle.Path) (root : Digest) : Prop where
  within_limit : path.length ≤ limit.toNat
  within_max : path.length ≤ Merkle.Path.maxLength
  fold_eq : path.fold leaf = root

theorem verifyPath_eq_ok {kind : PathKind} {limit : UInt64} {leaf root : Digest}
    {path : Merkle.Path} : verifyPath kind limit leaf path root = .ok () ↔
      Leads limit leaf path root := by
  rw [verifyPath]
  split
  · next h =>
    exact ⟨fun h' => (nomatch h'), fun h' => absurd h'.within_limit (Nat.not_le.mpr h)⟩
  · next h =>
    rw [mapError_eq_ok]
    exact Merkle.Path.check_eq_ok.trans
      ⟨fun h' => ⟨Nat.not_lt.mp h, h'.1, h'.2⟩, fun h' => ⟨h'.within_max, h'.fold_eq⟩⟩

/-- What acceptance of a proof says. -/
structure CrossChainProof.Accepted (p : CrossChainProof) (root : Digest) (limits : Limits) :
    Prop where
  same_id : p.transaction.header.id = p.block.header.id
  not_behind : p.block.header.blockNum ≤ p.block.anchor
  receipt : Leads limits.receiptPath p.transaction.receipt p.transaction.path
    p.transaction.header.transactionRoot
  block : Leads limits.blockPath p.block.header.id p.block.path root

/-- A verifier accepts just the proofs that pass all checks, and tells what they prove. -/
theorem CrossChainProof.verify_eq_ok {p : CrossChainProof} {root : Digest} {limits : Limits}
    {v : Verified} : p.verify root limits = .ok v ↔
      p.Accepted root limits ∧
        v = ⟨p.chain, p.transaction.receipt, p.block.header.blockNum, p.block.header.id⟩ := by
  have hreceipt : p.transaction.verify limits = .ok () ↔ _ := verifyPath_eq_ok
  have hblock : verifyPath .blockId limits.blockPath p.block.header.id p.block.path root =
    .ok () ↔ _ := verifyPath_eq_ok
  rw [verify, BlockProof.verify]
  constructor
  · intro h
    split at h
    · exact nomatch h
    · next hid =>
      simp only at h
      split at h
      · exact nomatch h
      · next hnum =>
        obtain ⟨_, hr, h⟩ := bind_eq_ok.mp h
        obtain ⟨_, hb, h⟩ := bind_eq_ok.mp h
        obtain ⟨_, hb, -⟩ := bind_eq_ok.mp hb
        exact ⟨⟨Decidable.not_not.mp hid, UInt32.not_lt.mp hnum, hreceipt.mp hr, hblock.mp hb⟩,
          (Except.ok.inj h).symm⟩
  · rintro ⟨h, rfl⟩
    rw [if_neg (not_not_intro h.same_id)]
    simp only [if_neg (UInt32.not_lt.mpr h.not_behind), hreceipt.mpr h.receipt,
      hblock.mpr h.block]
    rfl

end LightClient
