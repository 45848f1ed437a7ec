import LightClient.Proofs.Relay.Soundness

/-!
Which receipts a header and a path verify. Main statements: the receipt of an accepted proof is
determined up to the side that it stands on, as far as nothing collides that was hashed; and on a
path that is not empty the side is not determined, since pairing overwrites it.
-/

namespace LightClient

open Merkle (CollisionFree)

namespace CrossChainProof

/-- The same proof for another receipt. -/
def withReceipt (p : CrossChainProof) (receipt : Digest) : CrossChainProof :=
  { p with transaction := { p.transaction with receipt } }

variable {p : CrossChainProof} {root receipt : Digest} {limits : Limits}

/-- A receipt that differs in its side only is accepted or refused like the other, as long as the
path is not empty. -/
theorem verify_withReceipt (hne : p.transaction.path.entries ≠ [])
    (hside : receipt.asLeft = p.transaction.receipt.asLeft) :
    (p.withReceipt receipt).verify root limits =
      (p.verify root limits).map fun v => { v with receipt } := by
  generalize hp' : p.withReceipt receipt = p'
  have hfold : p.transaction.path.fold receipt = p.transaction.path.fold p.transaction.receipt :=
    Merkle.Path.fold_congr hne hside
  have hreceipt : p'.transaction.verify limits = p.transaction.verify limits := by
    simp only [← hp', ReceiptProof.verify, verifyPath, Merkle.Path.check, withReceipt, hfold]
  have hheader : p'.transaction.header = p.transaction.header := hp' ▸ rfl
  have hblock : p'.block = p.block := hp' ▸ rfl
  have hchain : p'.chain = p.chain := hp' ▸ rfl
  have hreceipt' : p'.transaction.receipt = receipt := hp' ▸ rfl
  rw [verify, verify, hreceipt, hheader, hblock, hchain, hreceipt']
  split
  · rfl
  · simp only
    split
    · rfl
    · cases p.transaction.verify limits with
      | error e => rfl
      | ok =>
        cases p.block.verify root limits with
        | error e => rfl
        | ok id => rfl

/-! ## The left one of two receipts -/

/-- A proof of the left one of two receipts in the only block of a chain. -/
def ofPair (left right : Digest) : CrossChainProof :=
  let header := Session.plainHeader .zero (left.pair right)
  ⟨⟨1⟩, ⟨left, ⟨[right.asRight]⟩, header⟩, ⟨header, ⟨[]⟩, header.blockNum⟩⟩

theorem verify_ofPair (left right : Digest) : ∃ v,
    (ofPair left right).verify (ofPair left right).block.header.id .standard = .ok v := by
  have hone : 1 ≤ Limits.standard.receiptPath.toNat := by decide
  have hmax : 1 ≤ Merkle.Path.maxLength := by decide
  refine ⟨_, verify_eq_ok.mpr ⟨⟨rfl, UInt32.le_refl _, ?_, ?_⟩, rfl⟩⟩
  · exact ⟨hone, hmax, Merkle.Path.fold_asRight ..⟩
  · exact ⟨Nat.zero_le _, Nat.zero_le _, rfl⟩

/-- The other side changes nothing of what is hashed. -/
theorem hashed_ofPair (left right : Digest) (hside : receipt.asLeft = left.asLeft) :
    ((ofPair left right).withReceipt receipt).hashed =
      [(ofPair left right).block.header.encode, (ofPair left right).block.header.encode,
        Digest.joined left right] := by
  have hpath : Merkle.Path.hashed ⟨[right.asRight]⟩ receipt = [Digest.joined left right] := by
    rw [Merkle.Path.hashed_congr _ hside, Merkle.Path.hashed_asRight]
  exact congrArg (_ :: _ :: · ++ []) hpath

theorem collisionFree_ofPair :
    CollisionFree id ((ofPair (.hash [1]) (.hash [2])).hashed ++
      ((ofPair (.hash [1]) (.hash [2])).withReceipt (Digest.hash [1]).asRight).hashed) := by
  have hnodup : ([(ofPair (.hash [1]) (.hash [2])).block.header.encode,
      Digest.joined (.hash [1]) (.hash [2])].map fun s => id (Digest.hash s)).Nodup := by
    decide +kernel
  have hsub (a b : List UInt8) : [a, a, b] ++ [a, a, b] ⊆ [a, b] := by simp
  have hp : (ofPair (.hash [1]) (.hash [2])).hashed = _ := hashed_ofPair _ (.hash [2]) rfl
  rw [hp, hashed_ofPair _ _ (Digest.asLeft_asRight _)]
  exact (Merkle.collisionFree_of_nodup hnodup).mono (hsub ..)

/-! ## Two receipts with one header and one path -/

/-- **A verified receipt is unique up to its side.** Where a verifier accepts a proof and the same
proof for another receipt, and nothing collides that it hashes, the two receipts differ in their
side at most, and not at all if the path is empty; or two of the hashes that were made on the way
from them differ in their side only. On a path that is not empty the side has no influence: the
verdict is the same, and so is all that is reported besides the receipt. -/
theorem verified_receipt_up_to_side (p : CrossChainProof) (receipt root : Digest)
    (limits : Limits) :
    (∀ v v', p.verify root limits = .ok v → (p.withReceipt receipt).verify root limits = .ok v' →
      CollisionFree id (p.hashed ++ (p.withReceipt receipt).hashed) →
      (p.transaction.path.entries = [] → receipt = p.transaction.receipt) ∧
      (receipt.asLeft = p.transaction.receipt.asLeft ∨
        ∃ a ∈ p.transaction.path.hashed p.transaction.receipt,
          ∃ b ∈ p.transaction.path.hashed receipt,
          Digest.hash a ≠ .hash b ∧ (Digest.hash a).asLeft = (Digest.hash b).asLeft)) ∧
    (p.transaction.path.entries ≠ [] → receipt.asLeft = p.transaction.receipt.asLeft →
      (p.withReceipt receipt).verify root limits =
        (p.verify root limits).map fun v => { v with receipt }) := by
  refine ⟨fun v v' hv hv' hfree => ?_, verify_withReceipt⟩
  have hfold := (verify_eq_ok.mp hv).1.receipt.fold_eq
  have hfold' : p.transaction.path.fold receipt = p.transaction.header.transactionRoot :=
    (verify_eq_ok.mp hv').1.receipt.fold_eq
  have hsame := hfold'.trans hfold.symm
  constructor
  · intro hempty
    rwa [Merkle.Path.fold, Merkle.Path.fold, hempty] at hsame
  · rcases Merkle.Path.asLeft_eq_of_foldl_climb (congrArg _ hsame) with
      h | ⟨b, hb, a, ha, hne, heq⟩
    · exact .inl h
    · have hlog : a ∈ p.hashed := by simp [hashed, Merkle.Path.hashed, ha]
      have hlog' : b ∈ (p.withReceipt receipt).hashed := by
        simp [hashed, withReceipt, Merkle.Path.hashed, hb]
      refine .inr ⟨a, ha, b, hb, fun hcollide => hne ?_, heq.symm⟩
      exact (hfree _ (List.mem_append_left _ hlog) _ (List.mem_append_right _ hlog') hcollide).symm

/-- The two receipts differ in their side, as far as they may. -/
theorem verified_receipt_of_pair :
    let p := ofPair (.hash [1]) (.hash [2])
    let other := (Digest.hash [1]).asRight
    ∃ v v', p.verify p.block.header.id .standard = .ok v ∧
      (p.withReceipt other).verify p.block.header.id .standard = .ok v' ∧
      CollisionFree id (p.hashed ++ (p.withReceipt other).hashed) ∧
      (other.asLeft = p.transaction.receipt.asLeft ∨
        ∃ a ∈ p.transaction.path.hashed p.transaction.receipt,
          ∃ b ∈ p.transaction.path.hashed other,
          Digest.hash a ≠ .hash b ∧ (Digest.hash a).asLeft = (Digest.hash b).asLeft) ∧
      v' = { v with receipt := other } := by
  intro p other
  obtain ⟨hunique, hother⟩ :=
    verified_receipt_up_to_side p other p.block.header.id .standard
  obtain ⟨v, hv⟩ := verify_ofPair (.hash [1]) (.hash [2])
  have hv' := (hother (List.cons_ne_nil _ _) (Digest.asLeft_asRight _)).trans (congrArg _ hv)
  exact ⟨v, _, hv, hv', collisionFree_ofPair, (hunique v _ hv hv' collisionFree_ofPair).2, rfl⟩

/-- One header and one path verify a receipt, and the same receipt on the other side. -/
theorem verify_other_side :
    let p := ofPair (.hash [1]) (.hash [2])
    let other := (Digest.hash [1]).asRight
    CollisionFree id (p.hashed ++ (p.withReceipt other).hashed) ∧
      (∃ v, p.verify p.block.header.id .standard = .ok v) ∧
      (∃ v, (p.withReceipt other).verify p.block.header.id .standard = .ok v) ∧
      other ≠ p.transaction.receipt := by
  intro p other
  obtain ⟨v, hv⟩ := verify_ofPair (.hash [1]) (.hash [2])
  have hother : (p.withReceipt other).verify p.block.header.id .standard =
      (p.verify p.block.header.id .standard).map fun v => { v with receipt := other } :=
    verify_withReceipt (List.cons_ne_nil _ _) (Digest.asLeft_asRight _)
  refine ⟨collisionFree_ofPair, ⟨v, hv⟩, ⟨_, hother.trans (congrArg _ hv)⟩, ?_⟩
  decide +kernel

end CrossChainProof

end LightClient
