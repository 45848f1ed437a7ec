import LightClient.Block.Schedule
import LightClient.Block.Slot
import LightClient.Digest

/-!
Block headers and block ids. An id is the hash of the packed header with the block number in place
of its first four bytes, so that the number can be read off the id.
-/

namespace LightClient

namespace Digest

/-- The number in the first four bytes, highest byte first. -/
def number (d : Digest) : UInt32 :=
  UInt32.ofNat ((d.bytes.take 4).foldl (fun n b => n * 256 + b.toNat) 0)

/-- The digest with this number in place of its first four bytes. -/
def withNumber (n : UInt32) (d : Digest) : Digest :=
  ⟨(littleEndian 4 n.toNat).reverse ++ d.bytes.drop 4, by simp [d.length_bytes]⟩

end Digest

/-- Bytes of any meaning that a header carries under a number. -/
structure Extension where
  id : UInt16
  data : List UInt8
  deriving DecidableEq

structure Header where
  timestamp : Slot
  producer : AccountName
  confirmed : UInt16
  previous : Digest
  transactionRoot : Digest
  actionRoot : Digest
  scheduleVersion : UInt32
  newProducers : Option ProducerSchedule
  extensions : List Extension
  deriving DecidableEq

instance : Layout Extension where
  pack e := pack e.id ++ packBytes e.data
  unpack := do
    let id ← Decoder.u16 "extension id"
    let data ← Decoder.bytes "extension data"
    return ⟨id, data⟩
  minSize := 3
  record := "ibc_block::header::HeaderExtension"

instance : Layout Header where
  pack h :=
    pack h.timestamp ++ pack h.producer ++ pack h.confirmed ++ pack h.previous ++
      pack h.transactionRoot ++ pack h.actionRoot ++ pack h.scheduleVersion ++
      pack h.newProducers ++ pack h.extensions
  unpack := do
    let timestamp ← unpack
    let producer ← unpack
    let confirmed ← Decoder.u16 "confirmed"
    let previous ← unpack
    let transactionRoot ← unpack
    let actionRoot ← unpack
    let scheduleVersion ← Decoder.u32 "schedule_version"
    let newProducers ← unpack
    let extensions ← unpack
    return { timestamp, producer, confirmed, previous, transactionRoot, actionRoot,
             scheduleVersion, newProducers, extensions }
  record := "ibc_block::header::BlockHeader"

instance : JsonForm Extension where
  toJson e := .object [("id", toJson e.id), ("data", toJson (HexBytes.mk e.data))]
  ofJson :=
    ((fun id (data : HexBytes) => Extension.mk id data.bytes) <$>
      Json.field "id" <*> Json.field "data").read

instance : JsonForm Header where
  toJson h :=
    .object [
      ("timestamp", toJson h.timestamp),
      ("producer", toJson h.producer),
      ("confirmed", toJson h.confirmed),
      ("previous", toJson h.previous),
      ("transaction_mroot", toJson h.transactionRoot),
      ("action_mroot", toJson h.actionRoot),
      ("schedule_version", toJson h.scheduleVersion),
      ("new_producers", toJson h.newProducers),
      ("header_extensions", toJson h.extensions)]
  ofJson :=
    (Header.mk <$> Json.field "timestamp" <*> Json.field "producer" <*>
      Json.field "confirmed" <*> Json.field "previous" <*>
      Json.field "transaction_mroot" <*> Json.field "action_mroot" <*>
      Json.field "schedule_version" <*> Json.fieldD "new_producers" none <*>
      Json.fieldD "header_extensions" []).read

namespace Header

/-- The extension that announces a producer schedule. -/
def scheduleExtension : UInt16 := 1

/-- The number of a block: one more than that of the block before, starting again after the
greatest. -/
def blockNum (h : Header) : UInt32 :=
  h.previous.number + 1

def encode (h : Header) : List UInt8 :=
  pack h

/-- Reads a packed header, which must hold nothing else. -/
def decode (bytes : List UInt8) : Except DecodeError Header :=
  unpack.whole "block header" bytes

/-- What is said of bytes that are no packed header. -/
def refusal (e : DecodeError) : String :=
  "malformed input: " ++ e.message

def digest (h : Header) : Digest :=
  .hash h.encode

def id (h : Header) : Digest :=
  h.digest.withNumber h.blockNum

/-- The bytes of the first extension of that number. -/
def extension (h : Header) (id : UInt16) : Option (List UInt8) :=
  (h.extensions.find? (·.id = id)).map (·.data)

/-- The schedule announced in the extension of that number, in its plain form. -/
def scheduleChange (h : Header) (id : UInt16) :
    Except ScheduleError (Option ProducerSchedule) :=
  match h.extension id with
  | none => .ok none
  | some data => do
    let schedule : AuthoritySchedule ← (fromPacked data).mapError (.notSchedule id)
    some <$> schedule.downgrade

end Header

end LightClient
