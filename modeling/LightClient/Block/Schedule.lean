import LightClient.Block.AccountName
import LightClient.Block.PublicKey

/-!
Producer schedules: the plain form with one key for each producer, and the form with weighted keys
that is announced in a header's extensions.
-/

namespace LightClient

structure ProducerKey where
  producer : AccountName
  key : PublicKey
  deriving DecidableEq

/-- A schedule with one key for each producer. -/
structure ProducerSchedule where
  version : UInt32
  producers : List ProducerKey
  deriving DecidableEq

structure KeyWeight where
  key : PublicKey
  weight : UInt16
  deriving DecidableEq

/-- Who may sign blocks: keys whose weights reach the threshold. -/
structure SigningAuthority where
  threshold : UInt32
  keys : List KeyWeight
  deriving DecidableEq

structure ProducerAuthority where
  producer : AccountName
  authority : SigningAuthority
  deriving DecidableEq

/-- A schedule with a signing authority for each producer. -/
structure AuthoritySchedule where
  version : UInt32
  producers : List ProducerAuthority
  deriving DecidableEq

inductive ScheduleError where
  | notSchedule (extension : UInt16) (e : DecodeError)
  | noKeys (producer : AccountName)
  deriving DecidableEq

def ScheduleError.message : ScheduleError → String
  | .notSchedule extension e =>
    s!"malformed input: extension {extension} is not a producer schedule: " ++ e.message
  | .noKeys producer => s!"malformed input: producer {producer} has no signing keys"

namespace SigningAuthority

/-- The first key, which stands for all where only one can be named. -/
def primaryKey (authority : SigningAuthority) : Option PublicKey :=
  authority.keys.head?.map (·.key)

end SigningAuthority

namespace ProducerAuthority

def downgrade (p : ProducerAuthority) : Except ScheduleError ProducerKey :=
  match p.authority.primaryKey with
  | some key => .ok ⟨p.producer, key⟩
  | none => .error (.noKeys p.producer)

end ProducerAuthority

namespace AuthoritySchedule

/-- The plain schedule with the primary key of every producer; the first producer without keys is
the reason that there is none. -/
def downgrade (schedule : AuthoritySchedule) : Except ScheduleError ProducerSchedule := do
  let producers ← schedule.producers.mapM ProducerAuthority.downgrade
  return ⟨schedule.version, producers⟩

end AuthoritySchedule

instance : Layout ProducerKey where
  pack p := pack p.producer ++ pack p.key
  unpack := do
    let producer ← unpack
    let key ← unpack
    return ⟨producer, key⟩
  minSize := 8 + Layout.minSize PublicKey
  record := "ibc_block::schedule::ProducerKey"

instance : Layout ProducerSchedule where
  pack s := pack s.version ++ pack s.producers
  unpack := do
    let version ← Decoder.u32 "schedule version"
    let producers ← unpack
    return ⟨version, producers⟩
  minSize := 5
  record := "ibc_block::schedule::ProducerSchedule"

instance : Layout KeyWeight where
  pack k := pack k.key ++ pack k.weight
  unpack := do
    let key ← unpack
    let weight ← Decoder.u16 "key weight"
    return ⟨key, weight⟩
  minSize := Layout.minSize PublicKey + 2
  record := "ibc_block::schedule::KeyWeight"

instance : Layout SigningAuthority where
  pack a := varuint 0 ++ pack a.threshold ++ pack a.keys
  unpack := do
    let variant ← Decoder.varuint32 "signing authority variant"
    match variant.toNat with
    | 0 => do
      let threshold ← Decoder.u32 "threshold"
      let keys ← unpack
      return ⟨threshold, keys⟩
    | n => throw (.invalidValue "signing authority variant" n)
  minSize := 6
  record := "ibc_block::schedule::BlockSigningAuthority"

instance : Layout ProducerAuthority where
  pack p := pack p.producer ++ pack p.authority
  unpack := do
    let producer ← unpack
    let authority ← unpack
    return ⟨producer, authority⟩
  minSize := 8 + Layout.minSize SigningAuthority
  record := "ibc_block::schedule::ProducerAuthority"

instance : Layout AuthoritySchedule where
  pack s := pack s.version ++ pack s.producers
  unpack := do
    let version ← Decoder.u32 "schedule version"
    let producers ← unpack
    return ⟨version, producers⟩
  minSize := 5
  record := "ibc_block::schedule::ProducerAuthoritySchedule"

instance : JsonForm ProducerKey where
  toJson p := .object [("producer_name", toJson p.producer), ("block_signing_key", toJson p.key)]
  ofJson :=
    (ProducerKey.mk <$> Json.field "producer_name" <*> Json.field "block_signing_key").read

instance : JsonForm ProducerSchedule where
  toJson s := .object [("version", toJson s.version), ("producers", toJson s.producers)]
  ofJson := (ProducerSchedule.mk <$> Json.field "version" <*> Json.field "producers").read

instance : JsonForm KeyWeight where
  toJson k := .object [("key", toJson k.key), ("weight", toJson k.weight)]
  ofJson := (KeyWeight.mk <$> Json.field "key" <*> Json.field "weight").read

namespace SigningAuthority

def fields : Json.Fields SigningAuthority :=
  SigningAuthority.mk <$> Json.field "threshold" <*> Json.field "keys"

/-- Reads an authority, which stands under the name of its variant. As a whole it must be an object
with just that member, which is an object too; token by token, what follows the member is a fault
only once the member has been read. -/
def ofVariant : Json.Arrival → Json → Except Json.Error SigningAuthority
  | .whole, .object [("v0", .object members closed)] true =>
    fields.read .whole (.object members closed)
  | .streamed, .object (("v0", j) :: rest) closed => do
    let a ← fields.read .streamed j
    if closed && rest.isEmpty then return a else throw .malformed
  | _, _ => .error .malformed

instance : JsonForm SigningAuthority where
  toJson a :=
    .object [("v0", .object [("threshold", toJson a.threshold), ("keys", toJson a.keys)])]
  ofJson := ofVariant

end SigningAuthority

instance : JsonForm ProducerAuthority where
  toJson p := .object [("producer_name", toJson p.producer), ("authority", toJson p.authority)]
  ofJson := (ProducerAuthority.mk <$> Json.field "producer_name" <*> Json.field "authority").read

instance : JsonForm AuthoritySchedule where
  toJson s := .object [("version", toJson s.version), ("producers", toJson s.producers)]
  ofJson := (AuthoritySchedule.mk <$> Json.field "version" <*> Json.field "producers").read

end LightClient
