import LightClient.Evidence.Inclusion
import LightClient.Merkle.Tree
import LightClient.Relay.Error

/-!
Proofs that a block belongs to a tracked chain. A path is cut from the tree over the stored block
ids and checked against the stored root before it is given out.
-/

namespace LightClient.Prover

/-- The root right after a block was appended. -/
def anchorRoot {σ : Type} [ChainStore σ] (store : σ) (chain : AccountName) (anchor : UInt32) :
    Except RelayError Digest := do
  match ← (getBlock store chain anchor).mapError RelayError.store with
  | some record => return record.root
  | none => throw (.unknownBlock chain anchor)

/-- The proof that a block is one of those up to the anchor block. -/
def proveBlock {σ : Type} [ChainStore σ] (store : σ) (chain : AccountName)
    (blockNum anchor : UInt32) : Except RelayError BlockProof := do
  match ← (loadChain store chain).mapError RelayError.store with
  | none => throw (.unknownChain chain)
  | some snapshot =>
    let first := snapshot.first
    if blockNum < first ∨ anchor < blockNum ∨ snapshot.head < anchor then
      throw (.outOfRange chain blockNum first (if anchor ≤ snapshot.head then anchor
        else snapshot.head))
    let ids ← (blockIds store chain first anchor).mapError RelayError.store
    let expected := anchor.toNat - first.toNat + 1
    if ids.length ≠ expected then throw (.corrupt chain (.missingIds expected ids.length))
    let path ← ((Merkle.Tree.ofLeaves ids).proof (blockNum.toNat - first.toNat)).mapError .merkle
    match ← (getBlock store chain blockNum).mapError RelayError.store with
    | none => throw (.unknownBlock chain blockNum)
    | some record =>
      let root ← anchorRoot store chain anchor
      (path.check record.id root).mapError .merkle
      return ⟨record.header, path, anchor⟩

end LightClient.Prover
