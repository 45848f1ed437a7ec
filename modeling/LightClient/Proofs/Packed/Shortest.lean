import LightClient.Proofs.Packed.Accepts
import LightClient.Proofs.Packed.Exact

/-!
Padded records. Main statement: of every wire type, nested to any depth, a value is read from just
those byte strings that are its packed bytes with varuints padded by groups of zero; so its packed
bytes are the only shortest ones, and what is made of them does not depend on the bytes that the
value was read from.
-/

namespace LightClient

open Decoder

/-- A layout that gives the parts of a value whose spellings its reader accepts. -/
class SpelledLayout (α : Type) [Layout α] [LawfulLayout α] where
  parts : α → List Part
  packed_parts : ∀ a, (parts a).flatMap Part.packed = pack a
  accepts_unpack : Accepts unpack Fits parts

export SpelledLayout (parts packed_parts accepts_unpack)

/-! ## Numbers, lists and optional values -/

instance : SpelledLayout UInt8 where
  parts n := [.bytes (littleEndian 1 n.toNat)]
  packed_parts _ := List.append_nil _
  accepts_unpack := .u8 _

instance : SpelledLayout UInt16 where
  parts n := [.bytes (littleEndian 2 n.toNat)]
  packed_parts _ := List.append_nil _
  accepts_unpack := .u16 _

instance : SpelledLayout UInt32 where
  parts n := [.bytes (littleEndian 4 n.toNat)]
  packed_parts _ := List.append_nil _
  accepts_unpack := .u32 _

instance : SpelledLayout UInt64 where
  parts n := [.bytes (littleEndian 8 n.toNat)]
  packed_parts _ := List.append_nil _
  accepts_unpack := .u64 _

section

variable {α : Type} [Layout α] [LawfulLayout α] [SpelledLayout α]

theorem packed_flatMap_parts (items : List α) :
    (items.flatMap parts).flatMap Part.packed = items.flatMap pack := by
  rw [List.flatMap_assoc]
  simp only [packed_parts]

instance : SpelledLayout (List α) where
  parts items := .varuint (lengthPrefix items.length) :: items.flatMap parts
  packed_parts items := congrArg (varuint _ ++ ·) (packed_flatMap_parts items)
  accepts_unpack := by
    refine .counted _ (fun n => accepts_unpack.replicate n) fun items _ => ?_
    rw [packed_flatMap_parts]
    exact length_flatMap_pack items

/-- The tag of an optional value. -/
def optionTag : Option α → UInt8
  | none => 0
  | some _ => 1

instance : SpelledLayout (Option α) where
  parts o := [.bytes (littleEndian 1 (optionTag o).toNat)] ++ o.toList.flatMap parts
  packed_parts
    | none => rfl
    | some a => by simp [optionTag, Part.packed, packed_parts, pack, littleEndian]
  accepts_unpack := by
    refine .field (.u8 _) (fun _ _ => trivial) fun tag _ => ?_
    split
    · next htag =>
      obtain rfl : tag = 0 := UInt8.toNat_inj.mp htag
      refine .pure (fun o => ?_) rfl
      cases o with
      | none => simp [optionTag, Fits]
      | some a => simp [optionTag]
    · next htag =>
      obtain rfl : tag = 1 := UInt8.toNat_inj.mp htag
      refine accepts_unpack.map (fun o => ?_) fun a _ => List.append_nil _
      cases o with
      | none => simp [optionTag]
      | some a => simp [optionTag, Fits]
    · next hzero hone =>
      refine .throw _ fun o ho => ?_
      obtain ⟨-, rfl⟩ := ho
      cases o with
      | none => exact hzero rfl
      | some a => exact hone rfl

end

/-! ## Digests, paths, names, slots and keys -/

instance : SpelledLayout Digest where
  parts d := [.bytes d.bytes]
  packed_parts _ := List.append_nil _
  accepts_unpack := (Accepts.sized ..).map
    (fun d => ⟨fun _ => ⟨⟨d.bytes, d.length_bytes⟩, trivial, rfl⟩, fun _ => trivial⟩) fun _ _ => rfl

instance : SpelledLayout Merkle.Path where
  parts path := parts path.entries
  packed_parts path := packed_parts path.entries
  accepts_unpack := accepts_unpack.map
    (fun path => ⟨fun h => ⟨path.entries, h, rfl⟩, fun ⟨_, h, he⟩ => he ▸ h⟩) fun _ _ => rfl

instance : SpelledLayout AccountName where
  parts name := [.bytes (littleEndian 8 name.value.toNat)]
  packed_parts _ := List.append_nil _
  accepts_unpack := (Accepts.u64 _).map
    (fun name => ⟨fun _ => ⟨name.value, trivial, rfl⟩, fun _ => trivial⟩) fun _ _ => rfl

instance : SpelledLayout Slot where
  parts slot := [.bytes (littleEndian 4 slot.index.toNat)]
  packed_parts _ := List.append_nil _
  accepts_unpack := (Accepts.u32 _).map
    (fun slot => ⟨fun _ => ⟨slot.index, trivial, rfl⟩, fun _ => trivial⟩) fun _ _ => rfl

theorem Curve.index_inj {a b : Curve} (h : a.index = b.index) : a = b := by
  cases a <;> cases b <;> first | rfl | exact absurd h (by decide)

/-- The point of a key on a given curve. -/
theorem PublicKey.accepts_unpackPoint (curve : Curve) :
    Accepts (unpackPoint curve) (·.curve = curve) fun key => [.bytes key.point] := by
  refine (Accepts.sized ..).map (fun key => ?_) fun _ _ => rfl
  constructor
  · rintro rfl
    exact ⟨⟨key.point, key.length_point⟩, trivial, rfl⟩
  · rintro ⟨_, -, rfl⟩
    rfl

instance : SpelledLayout PublicKey where
  parts key := [.varuint key.curve.index] ++ [.bytes key.point]
  packed_parts key := congrArg (varuint _ ++ ·) (List.append_nil _)
  accepts_unpack := by
    refine .field (.varuint32 _) (fun _ _ => trivial) fun index _ => ?_
    have hcurve {curve : Curve} (h : index.toNat = curve.index.toNat) (key : PublicKey) :
        key.curve = curve ↔ True ∧ key.curve.index = index := by
      rw [UInt32.toNat_inj.mp h, true_and]
      exact ⟨congrArg _, Curve.index_inj⟩
    split
    · next h => exact (PublicKey.accepts_unpackPoint .k1).congr (hcurve h)
    · next h => exact (PublicKey.accepts_unpackPoint .r1).congr (hcurve h)
    · next hk1 hr1 =>
      refine .throw _ fun key hkey => ?_
      obtain ⟨-, rfl⟩ := hkey
      cases hkey : key.curve with
      | k1 => exact hk1 (by rw [hkey]; rfl)
      | r1 => exact hr1 (by rw [hkey]; rfl)

/-! ## Schedules, headers and proofs -/

instance : SpelledLayout ProducerKey where
  parts p := parts p.producer ++ parts p.key
  packed_parts p := by simp only [List.flatMap_append, packed_parts]; rfl
  accepts_unpack := by
    refine .field accepts_unpack (fun _ _ => trivial) fun producer _ => ?_
    refine accepts_unpack.map (fun p => ?_) fun _ _ => rfl
    constructor
    · rintro ⟨-, rfl⟩
      exact ⟨p.key, trivial, rfl⟩
    · rintro ⟨key, -, rfl⟩
      exact ⟨trivial, rfl⟩

instance : SpelledLayout ProducerSchedule where
  parts s := parts s.version ++ parts s.producers
  packed_parts s := by simp only [List.flatMap_append, packed_parts]; rfl
  accepts_unpack := by
    refine .field (.u32 _) (fun _ _ => trivial) fun version _ => ?_
    refine accepts_unpack.map (fun s => ?_) fun _ _ => rfl
    constructor
    · rintro ⟨hs, rfl⟩
      exact ⟨s.producers, hs, rfl⟩
    · rintro ⟨producers, hs, rfl⟩
      exact ⟨hs, rfl⟩

instance : SpelledLayout KeyWeight where
  parts k := parts k.key ++ parts k.weight
  packed_parts k := by simp only [List.flatMap_append, packed_parts]; rfl
  accepts_unpack := by
    refine .field accepts_unpack (fun _ _ => trivial) fun key _ => ?_
    refine (Accepts.u16 _).map (fun k => ?_) fun _ _ => rfl
    constructor
    · rintro ⟨-, rfl⟩
      exact ⟨k.weight, trivial, rfl⟩
    · rintro ⟨weight, -, rfl⟩
      exact ⟨trivial, rfl⟩

instance : SpelledLayout SigningAuthority where
  parts a := [.varuint 0] ++ (parts a.threshold ++ parts a.keys)
  packed_parts a := by simp only [List.flatMap_append, packed_parts]; rfl
  accepts_unpack := by
    -- The variant is none of the fields: of every authority it is the first.
    refine .field (g := fun _ => 0) (.varuint32 _) (fun _ _ => trivial) fun variant _ => ?_
    split
    · next hzero =>
      obtain rfl : variant = 0 := UInt32.toNat_inj.mp hzero
      refine .field (.u32 _) (fun _ _ => trivial) fun threshold _ => ?_
      refine accepts_unpack.map (fun a => ?_) fun _ _ => rfl
      constructor
      · rintro ⟨⟨hkeys, -⟩, rfl⟩
        exact ⟨a.keys, hkeys, rfl⟩
      · rintro ⟨keys, hkeys, rfl⟩
        exact ⟨⟨hkeys, rfl⟩, rfl⟩
    · next hne =>
      refine .throw _ fun a ha => hne ?_
      rw [← ha.2]
      rfl

instance : SpelledLayout ProducerAuthority where
  parts p := parts p.producer ++ parts p.authority
  packed_parts p := by simp only [List.flatMap_append, packed_parts]; rfl
  accepts_unpack := by
    refine .field accepts_unpack (fun _ _ => trivial) fun producer _ => ?_
    refine accepts_unpack.map (fun p => ?_) fun _ _ => rfl
    constructor
    · rintro ⟨hp, rfl⟩
      exact ⟨p.authority, hp, rfl⟩
    · rintro ⟨authority, hp, rfl⟩
      exact ⟨hp, rfl⟩

instance : SpelledLayout AuthoritySchedule where
  parts s := parts s.version ++ parts s.producers
  packed_parts s := by simp only [List.flatMap_append, packed_parts]; rfl
  accepts_unpack := by
    refine .field (.u32 _) (fun _ _ => trivial) fun version _ => ?_
    refine accepts_unpack.map (fun s => ?_) fun _ _ => rfl
    constructor
    · rintro ⟨hs, rfl⟩
      exact ⟨s.producers, hs, rfl⟩
    · rintro ⟨producers, hs, rfl⟩
      exact ⟨hs, rfl⟩

instance : SpelledLayout Extension where
  parts e := parts e.id ++ [.varuint (lengthPrefix e.data.length), .bytes e.data]
  packed_parts e := by
    simp only [List.flatMap_append, packed_parts]
    simp [pack, packBytes, Part.packed]
  accepts_unpack := by
    refine .field (.u16 _) (fun _ _ => trivial) fun id _ => ?_
    refine (Accepts.bytes _).map (fun e => ?_) fun _ _ => rfl
    constructor
    · rintro ⟨he, rfl⟩
      exact ⟨e.data, he, rfl⟩
    · rintro ⟨data, he, rfl⟩
      exact ⟨he, rfl⟩

instance : SpelledLayout Header where
  parts h := parts h.timestamp ++ (parts h.producer ++ (parts h.confirmed ++ (parts h.previous ++
    (parts h.transactionRoot ++ (parts h.actionRoot ++ (parts h.scheduleVersion ++
    (parts h.newProducers ++ parts h.extensions)))))))
  packed_parts h := by
    simp only [List.flatMap_append, packed_parts, ← List.append_assoc]
    rfl
  accepts_unpack := by
    refine .field accepts_unpack (fun _ _ => trivial) fun timestamp _ => ?_
    refine .field accepts_unpack (fun _ _ => trivial) fun producer _ => ?_
    refine .field (.u16 _) (fun _ _ => trivial) fun confirmed _ => ?_
    refine .field accepts_unpack (fun _ _ => trivial) fun previous _ => ?_
    refine .field accepts_unpack (fun _ _ => trivial) fun transactionRoot _ => ?_
    refine .field accepts_unpack (fun _ _ => trivial) fun actionRoot _ => ?_
    refine .field (.u32 _) (fun _ _ => trivial) fun scheduleVersion _ => ?_
    refine .field accepts_unpack ?_ fun newProducers hnew => ?_
    · rintro h ⟨⟨⟨⟨⟨⟨⟨hf, -⟩, -⟩, -⟩, -⟩, -⟩, -⟩, -⟩
      exact hf.1
    refine accepts_unpack.map (fun h => ?_) fun _ _ => rfl
    constructor
    · rintro ⟨⟨⟨⟨⟨⟨⟨⟨hf, rfl⟩, rfl⟩, rfl⟩, rfl⟩, rfl⟩, rfl⟩, rfl⟩, rfl⟩
      exact ⟨h.extensions, hf.2, rfl⟩
    · rintro ⟨extensions, hextensions, rfl⟩
      exact ⟨⟨⟨⟨⟨⟨⟨⟨⟨hnew, hextensions⟩, rfl⟩, rfl⟩, rfl⟩, rfl⟩, rfl⟩, rfl⟩, rfl⟩, rfl⟩

instance : SpelledLayout ReceiptProof where
  parts p := parts p.receipt ++ (parts p.path ++ parts p.header)
  packed_parts p := by
    simp only [List.flatMap_append, packed_parts, ← List.append_assoc]
    rfl
  accepts_unpack := by
    refine .field accepts_unpack (fun _ _ => trivial) fun receipt _ => ?_
    refine .field accepts_unpack (fun _ hp => hp.1.1) fun path hpath => ?_
    refine accepts_unpack.map (fun p => ?_) fun _ _ => rfl
    constructor
    · rintro ⟨⟨hp, rfl⟩, rfl⟩
      exact ⟨p.header, hp.2, rfl⟩
    · rintro ⟨header, hheader, rfl⟩
      exact ⟨⟨⟨hpath, hheader⟩, rfl⟩, rfl⟩

instance : SpelledLayout BlockProof where
  parts p := parts p.header ++ (parts p.path ++ parts p.anchor)
  packed_parts p := by
    simp only [List.flatMap_append, packed_parts, ← List.append_assoc]
    rfl
  accepts_unpack := by
    refine .field accepts_unpack (fun _ hp => hp.1) fun header hheader => ?_
    refine .field accepts_unpack (fun _ hp => hp.1.2) fun path hpath => ?_
    refine (Accepts.u32 _).map (fun p => ?_) fun _ _ => rfl
    constructor
    · rintro ⟨⟨hp, rfl⟩, rfl⟩
      exact ⟨p.anchor, trivial, rfl⟩
    · rintro ⟨anchor, -, rfl⟩
      exact ⟨⟨⟨hheader, hpath⟩, rfl⟩, rfl⟩

instance : SpelledLayout CrossChainProof where
  parts p := parts p.chain ++ (parts p.transaction ++ parts p.block)
  packed_parts p := by
    simp only [List.flatMap_append, packed_parts, ← List.append_assoc]
    rfl
  accepts_unpack := by
    refine .field accepts_unpack (fun _ _ => trivial) fun chain _ => ?_
    refine .field accepts_unpack (fun _ hp => hp.1.1) fun transaction htransaction => ?_
    refine accepts_unpack.map (fun p => ?_) fun _ _ => rfl
    constructor
    · rintro ⟨⟨hp, rfl⟩, rfl⟩
      exact ⟨p.block, hp.2, rfl⟩
    · rintro ⟨block, hblock, rfl⟩
      exact ⟨⟨⟨htransaction, hblock⟩, rfl⟩, rfl⟩

namespace WireType

/-- Every wire type has a layout whose reader accepts just the spellings of its values. -/
@[reducible] def spelledLayout : (t : WireType) → SpelledLayout t.Value
  | .u8 => inferInstanceAs (SpelledLayout UInt8)
  | .u16 => inferInstanceAs (SpelledLayout UInt16)
  | .u32 => inferInstanceAs (SpelledLayout UInt32)
  | .u64 => inferInstanceAs (SpelledLayout UInt64)
  | .list item => let _ := item.spelledLayout; inferInstanceAs (SpelledLayout (List item.Value))
  | .option item =>
    let _ := item.spelledLayout; inferInstanceAs (SpelledLayout (Option item.Value))
  | .digest => inferInstanceAs (SpelledLayout Digest)
  | .path => inferInstanceAs (SpelledLayout Merkle.Path)
  | .name => inferInstanceAs (SpelledLayout AccountName)
  | .timestamp => inferInstanceAs (SpelledLayout Slot)
  | .publicKey => inferInstanceAs (SpelledLayout PublicKey)
  | .producerKey => inferInstanceAs (SpelledLayout ProducerKey)
  | .producerSchedule => inferInstanceAs (SpelledLayout ProducerSchedule)
  | .keyWeight => inferInstanceAs (SpelledLayout KeyWeight)
  | .authority => inferInstanceAs (SpelledLayout SigningAuthority)
  | .producerAuthority => inferInstanceAs (SpelledLayout ProducerAuthority)
  | .authoritySchedule => inferInstanceAs (SpelledLayout AuthoritySchedule)
  | .headerExtension => inferInstanceAs (SpelledLayout Extension)
  | .header => inferInstanceAs (SpelledLayout Header)
  | .receiptProof => inferInstanceAs (SpelledLayout ReceiptProof)
  | .blockProof => inferInstanceAs (SpelledLayout BlockProof)
  | .crossChainProof => inferInstanceAs (SpelledLayout CrossChainProof)

instance (t : WireType) : SpelledLayout t.Value := t.spelledLayout

end WireType

/-! ## Whole records -/

theorem Decoder.Accepts.whole_eq_ok_iff {α : Type} {d : Decoder α} {valid : α → Prop}
    {parts : α → List Part} (hd : Accepts d valid parts) {record : String} {bytes : List UInt8}
    {a : α} : d.whole record bytes = .ok a ↔ valid a ∧ Spelled (parts a) bytes := by
  constructor
  · intro h
    obtain ⟨position, hrun⟩ := run_of_whole h
    obtain ⟨hvalid, s, htakes, hspelled⟩ := hd.mp hrun
    obtain rfl : bytes = s := htakes.1.trans (List.append_nil s)
    exact ⟨hvalid, hspelled⟩
  · rintro ⟨hvalid, hspelled⟩
    have hrun : d.run (Cursor.start bytes) = (.ok a, ⟨0 + bytes.length, []⟩) :=
      hd.mpr ⟨hvalid, bytes, ⟨(List.append_nil bytes).symm, rfl⟩, hspelled⟩
    rw [whole_eq hrun]
    rfl

section Records

variable {α : Type} [Layout α] [LawfulLayout α] [SpelledLayout α] {a : α} {bytes : List UInt8}

theorem fromPacked_eq_ok_iff : fromPacked bytes = .ok a ↔ Fits a ∧ Spelled (parts a) bytes :=
  accepts_unpack.whole_eq_ok_iff

/-- The bytes are read as the value, and all others that are read as it are longer. -/
structure Shortest (decode : List UInt8 → Except DecodeError α) (a : α) (bytes : List UInt8) :
    Prop where
  decode_eq : decode bytes = .ok a
  eq_or_lt : ∀ s, decode s = .ok a → s = bytes ∨ bytes.length < s.length

omit [Layout α] [LawfulLayout α] [SpelledLayout α] in
/-- No two byte strings are shortest. -/
theorem Shortest.eq {decode : List UInt8 → Except DecodeError α} {s : List UInt8}
    (h : Shortest decode a bytes) (h' : Shortest decode a s) : s = bytes := by
  rcases h.eq_or_lt s h'.decode_eq with heq | hlt
  · exact heq
  · rcases h'.eq_or_lt bytes h.decode_eq with heq | hlt'
    · exact heq.symm
    · omega

theorem spelled_pack (h : Fits a) : Spelled (parts a) (pack a) :=
  (fromPacked_eq_ok_iff.mp (fromPacked_pack h)).2

/-- Where just the spellings of values that fit are read, the packed bytes are the shortest. -/
theorem shortest_pack {decode : List UInt8 → Except DecodeError α}
    (hdecode : ∀ s, decode s = .ok a ↔ Fits a ∧ Spelled (parts a) s) (h : Fits a) :
    Shortest decode a (pack a) where
  decode_eq := (hdecode _).mpr ⟨h, spelled_pack h⟩
  eq_or_lt s hs := by
    have hcases := ((hdecode s).mp hs).2.cases
    rwa [packed_parts] at hcases

end Records

theorem Header.decode_eq_ok_iff {h : Header} {bytes : List UInt8} :
    Header.decode bytes = .ok h ↔ Fits h ∧ Spelled (parts h) bytes :=
  accepts_unpack.whole_eq_ok_iff

/-- **The packed bytes are the one shortest form.** A value of any wire type is read from just the
spellings of its parts, which put together in their packed form are its packed bytes: all that is
free is how many groups of zero pad a varuint, up to five groups. So the packed bytes are read as
the same value, and other bytes that are read as it are longer. The same holds of the decoders of
headers and proofs, and the digest and the id of a header that was read are those of its shortest
form, whichever bytes it was read from. -/
theorem decode_iff_spelled :
    (∀ (t : WireType) (v : t.Value), (parts v).flatMap Part.packed = pack v ∧
      ∀ bytes, (fromPacked bytes = .ok v ↔ Fits v ∧ Spelled (parts v) bytes) ∧
        (fromPacked bytes = .ok v → Shortest fromPacked v (pack v))) ∧
    (∀ bytes h, Header.decode bytes = .ok h →
      Spelled (parts h) bytes ∧ Shortest Header.decode h h.encode ∧
      ∀ s, Shortest Header.decode h s →
        h.digest = .hash s ∧ h.id = (Digest.hash s).withNumber h.blockNum) ∧
    ∀ bytes p, CrossChainProof.decode bytes = .ok p →
      Spelled (parts p) bytes ∧ Shortest CrossChainProof.decode p p.encode := by
  refine ⟨fun t v => ⟨packed_parts v, fun bytes => ⟨fromPacked_eq_ok_iff, fun h => ?_⟩⟩,
    fun bytes h hread => ?_, fun bytes p hread => ?_⟩
  · exact shortest_pack (fun _ => fromPacked_eq_ok_iff) (fromPacked_eq_ok_iff.mp h).1
  · obtain ⟨hfits, hspelled⟩ := Header.decode_eq_ok_iff.mp hread
    have hshortest : Shortest Header.decode h h.encode :=
      shortest_pack (fun _ => Header.decode_eq_ok_iff) hfits
    refine ⟨hspelled, hshortest, fun s hs => ?_⟩
    obtain rfl := hshortest.eq hs
    exact ⟨rfl, rfl⟩
  · obtain ⟨hfits, hspelled⟩ := fromPacked_eq_ok_iff.mp hread
    exact ⟨hspelled, shortest_pack (fun _ => fromPacked_eq_ok_iff) hfits⟩

/-- A list of optional lists with both lengths padded, and a header with the length of its
extensions padded. -/
theorem decode_padded :
    let t : WireType := .list (.option (.list .u16))
    let v : t.Value := [some [1, 515], none]
    let h : Header := ⟨⟨0⟩, ⟨0⟩, 0, .zero, .zero, .zero, 0, none, []⟩
    let padded : List UInt8 := List.replicate 115 0 ++ [128, 128, 0]
    ((fromPacked [130, 128, 0, 1, 130, 0, 1, 0, 3, 2, 0] : Except DecodeError t.Value) = .ok v ∧
      (fromPacked (pack v) : Except DecodeError t.Value) = .ok v ∧
      pack v = [2, 1, 2, 1, 0, 3, 2, 0]) ∧
    Header.decode padded = .ok h ∧ Header.decode h.encode = .ok h ∧
      h.encode.length < padded.length ∧ h.digest = .hash h.encode := by
  intro t v h padded
  have hv : (fromPacked [130, 128, 0, 1, 130, 0, 1, 0, 3, 2, 0] : Except DecodeError t.Value) =
      .ok v := by
    decide +kernel
  have hh : Header.decode padded = .ok h := by decide +kernel
  have hlist := ((decode_iff_spelled.1 t v).2 _).2 hv
  obtain ⟨-, hshortest, hdigest⟩ := decode_iff_spelled.2.1 padded h hh
  refine ⟨⟨hv, hlist.decode_eq, by decide⟩, hh, hshortest.decode_eq, ?_, (hdigest _ hshortest).1⟩
  rcases hshortest.eq_or_lt padded hh with heq | hlt
  · exact absurd heq (by decide +kernel)
  · exact hlt

end LightClient
