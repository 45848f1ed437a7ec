import LightClient.Block.Header

/-!
What is stored about a tracked chain: where it stands, and every block.
-/

namespace LightClient

/-- Where a tracked chain stands. -/
structure Snapshot where
  chain : AccountName
  /-- The first block whose id was appended. -/
  first : UInt32
  /-- The last block whose id was appended. -/
  head : UInt32
  headId : Digest
  /-- The packed accumulator over the ids of all blocks from first to head. -/
  frontier : List UInt8
  deriving DecidableEq

/-- A block, with the root of the accumulator right after its id was appended. -/
structure BlockRecord where
  blockNum : UInt32
  id : Digest
  root : Digest
  header : Header
  deriving DecidableEq

instance : JsonForm Snapshot where
  toJson s :=
    .object [
      ("chain", toJson s.chain),
      ("first_block_num", toJson s.first),
      ("head_block_num", toJson s.head),
      ("head_id", toJson s.headId),
      ("frontier", toJson (HexBytes.mk s.frontier))]
  ofJson :=
    ((fun chain first head headId (frontier : HexBytes) =>
        Snapshot.mk chain first head headId frontier.bytes) <$>
      Json.field "chain" <*> Json.field "first_block_num" <*> Json.field "head_block_num" <*>
      Json.field "head_id" <*> Json.field "frontier").read

instance : JsonForm BlockRecord where
  toJson r :=
    .object [
      ("block_num", toJson r.blockNum),
      ("id", toJson r.id),
      ("root", toJson r.root),
      ("header", toJson r.header)]
  ofJson :=
    (BlockRecord.mk <$> Json.field "block_num" <*> Json.field "id" <*> Json.field "root" <*>
      Json.field "header").read

end LightClient
