import LightClient.Evidence.Inclusion

/-!
The types that have both a packed and a JSON form, named one by one, so that a statement can be
made about all of them.
-/

namespace LightClient

inductive WireType where
  | u8
  | u16
  | u32
  | u64
  | list (item : WireType)
  | option (item : WireType)
  | digest
  | path
  | name
  | timestamp
  | publicKey
  | producerKey
  | producerSchedule
  | keyWeight
  | authority
  | producerAuthority
  | authoritySchedule
  | headerExtension
  | header
  | receiptProof
  | blockProof
  | crossChainProof
  deriving DecidableEq

namespace WireType

abbrev Value : WireType → Type
  | .u8 => UInt8
  | .u16 => UInt16
  | .u32 => UInt32
  | .u64 => UInt64
  | .list item => List item.Value
  | .option item => Option item.Value
  | .digest => Digest
  | .path => Merkle.Path
  | .name => AccountName
  | .timestamp => Slot
  | .publicKey => PublicKey
  | .producerKey => ProducerKey
  | .producerSchedule => ProducerSchedule
  | .keyWeight => KeyWeight
  | .authority => SigningAuthority
  | .producerAuthority => ProducerAuthority
  | .authoritySchedule => AuthoritySchedule
  | .headerExtension => Extension
  | .header => Header
  | .receiptProof => ReceiptProof
  | .blockProof => BlockProof
  | .crossChainProof => CrossChainProof

@[reducible] def layout : (t : WireType) → Layout t.Value
  | .u8 => inferInstanceAs (Layout UInt8)
  | .u16 => inferInstanceAs (Layout UInt16)
  | .u32 => inferInstanceAs (Layout UInt32)
  | .u64 => inferInstanceAs (Layout UInt64)
  | .list item => let _ := item.layout; inferInstanceAs (Layout (List item.Value))
  | .option item => let _ := item.layout; inferInstanceAs (Layout (Option item.Value))
  | .digest => inferInstanceAs (Layout Digest)
  | .path => inferInstanceAs (Layout Merkle.Path)
  | .name => inferInstanceAs (Layout AccountName)
  | .timestamp => inferInstanceAs (Layout Slot)
  | .publicKey => inferInstanceAs (Layout PublicKey)
  | .producerKey => inferInstanceAs (Layout ProducerKey)
  | .producerSchedule => inferInstanceAs (Layout ProducerSchedule)
  | .keyWeight => inferInstanceAs (Layout KeyWeight)
  | .authority => inferInstanceAs (Layout SigningAuthority)
  | .producerAuthority => inferInstanceAs (Layout ProducerAuthority)
  | .authoritySchedule => inferInstanceAs (Layout AuthoritySchedule)
  | .headerExtension => inferInstanceAs (Layout Extension)
  | .header => inferInstanceAs (Layout Header)
  | .receiptProof => inferInstanceAs (Layout ReceiptProof)
  | .blockProof => inferInstanceAs (Layout BlockProof)
  | .crossChainProof => inferInstanceAs (Layout CrossChainProof)

@[reducible] def jsonForm : (t : WireType) → JsonForm t.Value
  | .u8 => inferInstanceAs (JsonForm UInt8)
  | .u16 => inferInstanceAs (JsonForm UInt16)
  | .u32 => inferInstanceAs (JsonForm UInt32)
  | .u64 => inferInstanceAs (JsonForm UInt64)
  | .list item => let _ := item.jsonForm; inferInstanceAs (JsonForm (List item.Value))
  | .option item => let _ := item.jsonForm; inferInstanceAs (JsonForm (Option item.Value))
  | .digest => inferInstanceAs (JsonForm Digest)
  | .path => inferInstanceAs (JsonForm Merkle.Path)
  | .name => inferInstanceAs (JsonForm AccountName)
  | .timestamp => inferInstanceAs (JsonForm Slot)
  | .publicKey => inferInstanceAs (JsonForm PublicKey)
  | .producerKey => inferInstanceAs (JsonForm ProducerKey)
  | .producerSchedule => inferInstanceAs (JsonForm ProducerSchedule)
  | .keyWeight => inferInstanceAs (JsonForm KeyWeight)
  | .authority => inferInstanceAs (JsonForm SigningAuthority)
  | .producerAuthority => inferInstanceAs (JsonForm ProducerAuthority)
  | .authoritySchedule => inferInstanceAs (JsonForm AuthoritySchedule)
  | .headerExtension => inferInstanceAs (JsonForm Extension)
  | .header => inferInstanceAs (JsonForm Header)
  | .receiptProof => inferInstanceAs (JsonForm ReceiptProof)
  | .blockProof => inferInstanceAs (JsonForm BlockProof)
  | .crossChainProof => inferInstanceAs (JsonForm CrossChainProof)

instance (t : WireType) : Layout t.Value := t.layout

instance (t : WireType) : JsonForm t.Value := t.jsonForm

end WireType

end LightClient
