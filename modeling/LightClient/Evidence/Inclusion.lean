import LightClient.Block.Header
import LightClient.Merkle.Path

/-!
Proofs of inclusion: of a receipt in a block, of a block in a tracked chain, and of both together.
-/

namespace LightClient

/-- A receipt with its path to the transaction root of a header. -/
structure ReceiptProof where
  receipt : Digest
  path : Merkle.Path
  header : Header
  deriving DecidableEq

/-- A header with the path of its block id to the root of the accumulator whose last leaf is the
id of the anchor block. -/
structure BlockProof where
  header : Header
  path : Merkle.Path
  anchor : UInt32
  deriving DecidableEq

/-- A proof that a transaction happened on a chain. -/
structure CrossChainProof where
  chain : AccountName
  transaction : ReceiptProof
  block : BlockProof
  deriving DecidableEq

instance : Layout ReceiptProof where
  pack p := pack p.receipt ++ pack p.path ++ pack p.header
  unpack := do
    let receipt ← unpack
    let path ← unpack
    let header ← unpack
    return ⟨receipt, path, header⟩
  record := "ibc_verify::proof::TransactionInclusionProof"

instance : Layout BlockProof where
  pack p := pack p.header ++ pack p.path ++ pack p.anchor
  unpack := do
    let header ← unpack
    let path ← unpack
    let anchor ← Decoder.u32 "anchor_block_num"
    return ⟨header, path, anchor⟩
  record := "ibc_verify::proof::BlockInclusionProof"

instance : Layout CrossChainProof where
  pack p := pack p.chain ++ pack p.transaction ++ pack p.block
  unpack := do
    let chain ← unpack
    let transaction ← unpack
    let block ← unpack
    return ⟨chain, transaction, block⟩
  record := "ibc_verify::proof::CrossChainProof"

instance : JsonForm ReceiptProof where
  toJson p :=
    .object [
      ("receipt_digest", toJson p.receipt),
      ("receipt_path", toJson p.path),
      ("block_header", toJson p.header)]
  ofJson :=
    (ReceiptProof.mk <$> Json.field "receipt_digest" <*> Json.field "receipt_path" <*>
      Json.field "block_header").read

instance : JsonForm BlockProof where
  toJson p :=
    .object [
      ("block_header", toJson p.header),
      ("block_id_path", toJson p.path),
      ("anchor_block_num", toJson p.anchor)]
  ofJson :=
    (BlockProof.mk <$> Json.field "block_header" <*> Json.field "block_id_path" <*>
      Json.field "anchor_block_num").read

instance : JsonForm CrossChainProof where
  toJson p :=
    .object [
      ("chain", toJson p.chain),
      ("transaction", toJson p.transaction),
      ("block", toJson p.block)]
  ofJson :=
    (CrossChainProof.mk <$> Json.field "chain" <*> Json.field "transaction" <*>
      Json.field "block").read

namespace CrossChainProof

def encode (p : CrossChainProof) : List UInt8 :=
  pack p

/-- Reads a packed proof, which must hold nothing else. -/
def decode (bytes : List UInt8) : Except DecodeError CrossChainProof :=
  fromPacked bytes

end CrossChainProof

end LightClient
