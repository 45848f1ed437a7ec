import LightClient.Evidence.Verify
import LightClient.Proofs.Block.PublicKey
import LightClient.Proofs.Block.Slot
import LightClient.Proofs.Json.Reader
import LightClient.Relay.Record

/-!
The records of blocks, of proofs and of stores are read back from their JSON.
-/

namespace LightClient

open LawfulJson (plain)
open Json.Fields (Reads)

/-! ## Values written as text -/

instance : LawfulJson Slot where
  plain _ := trivial
  ofJson_toJson _ s := Json.viaText_string (by rw [Slot.ofText_text, mapError_ok])

instance : LawfulJson PublicKey where
  plain _ := trivial
  ofJson_toJson _ key := Json.viaText_string (by rw [PublicKey.ofText_text, mapError_ok])

instance : LawfulJson Merkle.Path where
  plain path := plain path.entries
  ofJson_toJson arrival path := by
    change Merkle.Path.mk <$> ofJson arrival (toJson path.entries) = _
    rw [LawfulJson.ofJson_toJson]
    rfl

/-! ## Schedules -/

instance : LawfulJson ProducerKey where
  plain p := ⟨rfl, plain p.producer, plain p.key, trivial⟩
  ofJson_toJson arrival _ :=
    Reads.read_object (.seq (.map _ (.field rfl)) (.field rfl)) rfl (by decide) arrival

instance : LawfulJson ProducerSchedule where
  plain s := ⟨rfl, plain s.version, plain s.producers, trivial⟩
  ofJson_toJson arrival _ :=
    Reads.read_object (.seq (.map _ (.field rfl)) (.field rfl)) rfl (by decide) arrival

instance : NeverNull ProducerSchedule where
  toJson_ne_null _ := nofun

instance : LawfulJson KeyWeight where
  plain k := ⟨rfl, plain k.key, plain k.weight, trivial⟩
  ofJson_toJson arrival _ :=
    Reads.read_object (.seq (.map _ (.field rfl)) (.field rfl)) rfl (by decide) arrival

/-- The fields of an authority are read under the name of its variant, however they arrive. -/
theorem SigningAuthority.read_fields (arrival : Json.Arrival) (a : SigningAuthority) :
    fields.read arrival
      (.object [("threshold", toJson a.threshold), ("keys", toJson a.keys)]) = .ok a :=
  Reads.read_object (.seq (.map _ (.field rfl)) (.field rfl)) rfl (by decide) arrival

instance : LawfulJson SigningAuthority where
  plain a := ⟨rfl, ⟨rfl, plain a.threshold, plain a.keys, trivial⟩, trivial⟩
  ofJson_toJson arrival a := by
    cases arrival with
    | whole => exact a.read_fields .whole
    | streamed =>
      change (SigningAuthority.fields.read .streamed _ >>= fun a => Except.ok a) = _
      rw [a.read_fields]
      rfl

instance : LawfulJson ProducerAuthority where
  plain p := ⟨rfl, plain p.producer, plain p.authority, trivial⟩
  ofJson_toJson arrival _ :=
    Reads.read_object (.seq (.map _ (.field rfl)) (.field rfl)) rfl (by decide) arrival

instance : LawfulJson AuthoritySchedule where
  plain s := ⟨rfl, plain s.version, plain s.producers, trivial⟩
  ofJson_toJson arrival _ :=
    Reads.read_object (.seq (.map _ (.field rfl)) (.field rfl)) rfl (by decide) arrival

/-! ## Headers -/

instance : LawfulJson Extension where
  plain e := ⟨rfl, plain e.id, plain (HexBytes.mk e.data), trivial⟩
  ofJson_toJson arrival e :=
    Reads.read_object (.seq (.map _ (.field rfl)) (.field (a := HexBytes.mk e.data) rfl)) rfl
      (by decide) arrival

instance : LawfulJson Header where
  plain h := ⟨rfl, plain h.timestamp, plain h.producer, plain h.confirmed, plain h.previous,
    plain h.transactionRoot, plain h.actionRoot, plain h.scheduleVersion, plain h.newProducers,
    plain h.extensions, trivial⟩
  ofJson_toJson arrival _ :=
    Reads.read_object (.seq (.seq (.seq (.seq (.seq (.seq (.seq (.seq (.map _ (.field rfl))
      (.field rfl)) (.field rfl)) (.field rfl)) (.field rfl)) (.field rfl)) (.field rfl))
      (.fieldOr rfl)) (.fieldOr rfl)) rfl (by decide) arrival

/-! ## Proofs and what they establish -/

instance : LawfulJson ReceiptProof where
  plain p := ⟨rfl, plain p.receipt, plain p.path, plain p.header, trivial⟩
  ofJson_toJson arrival _ :=
    Reads.read_object (.seq (.seq (.map _ (.field rfl)) (.field rfl)) (.field rfl)) rfl
      (by decide) arrival

instance : LawfulJson BlockProof where
  plain p := ⟨rfl, plain p.header, plain p.path, plain p.anchor, trivial⟩
  ofJson_toJson arrival _ :=
    Reads.read_object (.seq (.seq (.map _ (.field rfl)) (.field rfl)) (.field rfl)) rfl
      (by decide) arrival

instance : LawfulJson CrossChainProof where
  plain p := ⟨rfl, plain p.chain, plain p.transaction, plain p.block, trivial⟩
  ofJson_toJson arrival _ :=
    Reads.read_object (.seq (.seq (.map _ (.field rfl)) (.field rfl)) (.field rfl)) rfl
      (by decide) arrival

instance : LawfulJson Verified where
  plain v := ⟨rfl, plain v.chain, plain v.receipt, plain v.blockNum, plain v.blockId, trivial⟩
  ofJson_toJson arrival _ :=
    Reads.read_object (.seq (.seq (.seq (.map _ (.field rfl)) (.field rfl)) (.field rfl))
      (.field rfl)) rfl (by decide) arrival

instance : LawfulJson Limits where
  plain l := ⟨rfl, plain l.receiptPath, plain l.blockPath, trivial⟩
  ofJson_toJson arrival _ :=
    Reads.read_object (.seq (.map _ (.field rfl)) (.field rfl)) rfl (by decide) arrival

/-! ## What a store keeps -/

instance : LawfulJson Snapshot where
  plain s := ⟨rfl, plain s.chain, plain s.first, plain s.head, plain s.headId,
    plain (HexBytes.mk s.frontier), trivial⟩
  ofJson_toJson arrival s :=
    Reads.read_object (.seq (.seq (.seq (.seq (.map _ (.field rfl)) (.field rfl)) (.field rfl))
      (.field rfl)) (.field (a := HexBytes.mk s.frontier) rfl)) rfl (by decide) arrival

instance : LawfulJson BlockRecord where
  plain r := ⟨rfl, plain r.blockNum, plain r.id, plain r.root, plain r.header, trivial⟩
  ofJson_toJson arrival _ :=
    Reads.read_object (.seq (.seq (.seq (.map _ (.field rfl)) (.field rfl)) (.field rfl))
      (.field rfl)) rfl (by decide) arrival

end LightClient
