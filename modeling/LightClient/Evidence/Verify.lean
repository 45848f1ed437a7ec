import LightClient.Evidence.Inclusion

/-!
Checking proofs of inclusion against a root that is trusted.
-/

namespace LightClient

structure Limits where
  receiptPath : UInt64
  blockPath : UInt64
  deriving DecidableEq

namespace Limits

/-- The limits of a verifier that sets none. -/
def standard : Limits :=
  ⟨32, 64⟩

instance : JsonForm Limits where
  toJson l :=
    .object [
      ("max_receipt_path_len", toJson l.receiptPath),
      ("max_block_path_len", toJson l.blockPath)]
  ofJson :=
    (Limits.mk <$> Json.field "max_receipt_path_len" <*> Json.field "max_block_path_len").read

end Limits

/-- What a verified proof establishes. -/
structure Verified where
  chain : AccountName
  receipt : Digest
  blockNum : UInt32
  blockId : Digest
  deriving DecidableEq

instance : JsonForm Verified where
  toJson v :=
    .object [
      ("chain", toJson v.chain),
      ("receipt_digest", toJson v.receipt),
      ("block_num", toJson v.blockNum),
      ("block_id", toJson v.blockId)]
  ofJson :=
    (Verified.mk <$> Json.field "chain" <*> Json.field "receipt_digest" <*>
      Json.field "block_num" <*> Json.field "block_id").read

inductive PathKind where
  | receipt
  | blockId
  deriving DecidableEq

def PathKind.text : PathKind → String
  | .receipt => "receipt"
  | .blockId => "block id"

inductive VerifyError where
  | merkle (e : Merkle.Error)
  | headerMismatch (transaction block : Digest)
  | blockAfterAnchor (blockNum anchor : UInt32)
  | pathTooLong (kind : PathKind) (length limit : Nat)
  deriving DecidableEq

def VerifyError.message : VerifyError → String
  | .merkle e => e.message
  | .headerMismatch transaction block =>
    s!"transaction and block proofs reference different headers: {transaction} != {block}"
  | .blockAfterAnchor blockNum anchor =>
    s!"block {blockNum} is past the anchor block {anchor}"
  | .pathTooLong kind length limit =>
    kind.text ++ s!" path has {length} entries, at most {limit} allowed"

/-- Checks a path and its limit. -/
def verifyPath (kind : PathKind) (limit : UInt64) (leaf : Digest) (path : Merkle.Path)
    (root : Digest) : Except VerifyError Unit :=
  if path.length > limit.toNat then .error (.pathTooLong kind path.length limit.toNat)
  else (path.check leaf root).mapError .merkle

namespace ReceiptProof

/-- Checks that the receipt leads to the transaction root of its header. -/
def verify (p : ReceiptProof) (limits : Limits) : Except VerifyError Unit :=
  verifyPath .receipt limits.receiptPath p.receipt p.path p.header.transactionRoot

end ReceiptProof

namespace BlockProof

/-- Checks that the block id leads to the root, and gives the id. -/
def verify (p : BlockProof) (root : Digest) (limits : Limits) : Except VerifyError Digest := do
  verifyPath .blockId limits.blockPath p.header.id p.path root
  return p.header.id

end BlockProof

namespace CrossChainProof

/-- Checks a proof against the root of the accumulator at its anchor block. -/
def verify (p : CrossChainProof) (root : Digest) (limits : Limits) :
    Except VerifyError Verified := do
  let id := p.block.header.id
  let blockNum := p.block.header.blockNum
  if p.transaction.header.id ≠ id then
    throw (.headerMismatch p.transaction.header.id id)
  if blockNum > p.block.anchor then
    throw (.blockAfterAnchor blockNum p.block.anchor)
  p.transaction.verify limits
  let _ ← p.block.verify root limits
  return ⟨p.chain, p.transaction.receipt, blockNum, id⟩

end CrossChainProof

end LightClient
