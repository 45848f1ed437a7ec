import LightClient.Proofs.Packed.Shortest

/-!
Lengths that are not checked. The reader of a list refuses a length that the bytes left cannot
hold; the reader without that check goes straight on to the items. Main statement: of every wire
type, nested to any depth, both read the same values from the same bytes and leave off at the same
place, since no item is read from fewer bytes than the check counts for it.
-/

namespace LightClient

namespace Decoder

variable {α β : Type} {d d' : Decoder α} {n : Nat}

/-! ## What a value takes -/

/-- Whatever is read takes at least `n` bytes. -/
def Consumes (d : Decoder α) (n : Nat) : Prop :=
  ∀ ⦃c c' : Cursor⦄ ⦃a : α⦄, d.run c = (.ok a, c') → ∃ s, c.Takes s c' ∧ n ≤ s.length

/-- The shortest spelling of a value is its packed form, and that is no shorter than the least size
of its layout. -/
theorem consumes_unpack [Layout α] [LawfulLayout α] [SpelledLayout α] :
    Consumes (unpack : Decoder α) (Layout.minSize α) := by
  intro c c' a h
  obtain ⟨-, s, htakes, hspelled⟩ := accepts_unpack.mp h
  have hpacked := hspelled.length_le
  rw [packed_parts] at hpacked
  exact ⟨s, htakes, Nat.le_trans (LawfulLayout.minSize_le a) hpacked⟩

theorem consumes_exact (n : Nat) (field : String) : Consumes (exact n field) n := by
  intro c c' bytes h
  obtain ⟨hlen, s, htakes, hspelled⟩ := (Accepts.exact n field).mp h
  cases spelled_singleton.mp hspelled
  exact ⟨bytes, htakes, Nat.le_of_eq hlen.symm⟩

theorem Consumes.replicate (h : Consumes d n) (count : Nat) :
    Consumes (replicate d count) (count * n) := by
  induction count with
  | zero =>
    intro c c' items hrun
    obtain ⟨-, rfl⟩ := Prod.mk.inj hrun
    exact ⟨[], Cursor.takes_nil.mpr rfl, by simp⟩
  | succ count ih =>
    intro c c' items hrun
    obtain ⟨a, m, ha, hitems⟩ := run_bind_eq_ok hrun
    obtain ⟨rest, m', hrest, hpure⟩ := run_bind_eq_ok hitems
    obtain ⟨-, rfl⟩ := Prod.mk.inj hpure
    obtain ⟨s, hs, hsize⟩ := h ha
    obtain ⟨t, ht, hsizes⟩ := ih hrest
    refine ⟨s ++ t, Cursor.takes_append.mpr ⟨m, hs, ht⟩, ?_⟩
    rw [Nat.succ_mul, List.length_append]
    omega

/-- A checked length is one that is read without the check and for which there is room. -/
theorem run_length_iff_room {field : String} {minSize count : Nat} {c c' : Cursor} :
    (length field minSize).run c = (.ok count, c') ↔
      ∃ k : UInt32, k.toNat = count ∧ (varuint32 field).run c = (.ok k, c') ∧
        count * minSize ≤ c'.remaining := by
  rw [Accepts.run_length_eq_ok_iff]
  refine exists_congr fun k => and_congr_right fun _ => ?_
  rw [Accepts.varuint32 field, and_comm, true_and]

/-! ## Decoders that agree -/

/-- The decoders read the same values and leave off at the same places. Where one fails the other
does too, but the error and the place that it reached may be others. -/
def Agree (d d' : Decoder α) : Prop :=
  ∀ ⦃c c' : Cursor⦄ ⦃a : α⦄, d.run c = (.ok a, c') ↔ d'.run c = (.ok a, c')

namespace Agree

theorem refl (d : Decoder α) : Agree d d := fun _ _ _ => Iff.rfl

theorem symm (hd : Agree d d') : Agree d' d := fun _ _ _ => (@hd _ _ _).symm

theorem bind {f f' : α → Decoder β} (hd : Agree d d') (hf : ∀ a, Agree (f a) (f' a)) :
    Agree (d >>= f) (d' >>= f') := by
  intro c c'' b
  rw [run_bind_eq_ok_iff, run_bind_eq_ok_iff]
  exact exists_congr fun a => exists_congr fun c' => and_congr (@hd c c' a) (@hf a c' c'' b)

/-- Decoders that start alike. -/
theorem after {f f' : α → Decoder β} (hf : ∀ a, Agree (f a) (f' a)) :
    Agree (d >>= f) (d >>= f') :=
  (refl d).bind hf

theorem map (hd : Agree d d') (g : α → β) : Agree (g <$> d) (g <$> d') :=
  hd.bind fun a => refl (pure (g a))

theorem replicate (hd : Agree d d') (count : Nat) :
    Agree (replicate d count) (replicate d' count) := by
  induction count with
  | zero => exact refl _
  | succ count ih => exact hd.bind fun a => ih.map (a :: ·)

/-- What is read behind a length makes room for itself, so the check of the length finds nothing
that reading on would not have found. -/
theorem counted {minSize : Nat} {f f' : Nat → Decoder β} (field : String)
    (hsize : ∀ count, Consumes (f count) (count * minSize))
    (hf : ∀ count, Agree (f count) (f' count)) :
    Agree (length field minSize >>= f) (varuint32 field >>= fun k => f' k.toNat) := by
  intro c c'' b
  rw [run_bind_eq_ok_iff, run_bind_eq_ok_iff]
  constructor
  · rintro ⟨count, c', hlength, hb⟩
    obtain ⟨k, rfl, hk, -⟩ := run_length_iff_room.mp hlength
    exact ⟨k, c', hk, (hf _).mp hb⟩
  · rintro ⟨k, c', hk, hb⟩
    -- Reading on succeeded, so what it took was left when the length was checked.
    have hb := (hf k.toNat).mpr hb
    obtain ⟨s, ⟨hrest, -⟩, hroom⟩ := hsize _ hb
    have hroom : k.toNat * minSize ≤ c'.remaining := by
      rw [Cursor.remaining, hrest, List.length_append]
      exact Nat.le_add_right_of_le hroom
    exact ⟨k.toNat, c', run_length_iff_room.mpr ⟨k, rfl, hk, hroom⟩, hb⟩

/-- Decoders that agree accept the same whole records. -/
theorem whole (hd : Agree d d') {record : String} {bytes : List UInt8} {a : α} :
    d.whole record bytes = .ok a ↔ d'.whole record bytes = .ok a := by
  have hwhole {d d' : Decoder α} (hd : Agree d d') (h : d.whole record bytes = .ok a) :
      d'.whole record bytes = .ok a := by
    obtain ⟨position, hrun⟩ := run_of_whole h
    rw [whole_eq (hd.mp hrun)]
    rfl
  exact ⟨hwhole hd, hwhole hd.symm⟩

end Agree

/-- A length and then that many items. -/
def uncheckedList (item : Decoder α) : Decoder (List α) := do
  let count ← varuint32 "sequence"
  replicate item count.toNat

/-- A length and then that many bytes. -/
def uncheckedBytes (field : String) : Decoder (List UInt8) := do
  let count ← varuint32 field
  exact count.toNat field

theorem agree_uncheckedBytes (field : String) : Agree (bytes field) (uncheckedBytes field) := by
  refine .counted field (fun count => ?_) fun count => .refl (exact count field)
  rw [Nat.mul_one]
  exact consumes_exact count field

end Decoder

open Decoder

/-! ## Layouts read without the check -/

/-- A layout with a second reader, which goes straight on from a length to what it counts. -/
class UncheckedLayout (α : Type) [Layout α] where
  unpackUnchecked : Decoder α
  agree_unpack : Agree unpack unpackUnchecked

export UncheckedLayout (unpackUnchecked agree_unpack)

/-- A layout without lengths, which has nothing to check. -/
@[reducible] def UncheckedLayout.withoutLengths (α : Type) [Layout α] : UncheckedLayout α where
  unpackUnchecked := unpack
  agree_unpack := .refl unpack

instance : UncheckedLayout UInt8 := .withoutLengths _
instance : UncheckedLayout UInt16 := .withoutLengths _
instance : UncheckedLayout UInt32 := .withoutLengths _
instance : UncheckedLayout UInt64 := .withoutLengths _
instance : UncheckedLayout Digest := .withoutLengths _
instance : UncheckedLayout AccountName := .withoutLengths _
instance : UncheckedLayout Slot := .withoutLengths _
instance : UncheckedLayout PublicKey := .withoutLengths _
instance : UncheckedLayout ProducerKey := .withoutLengths _
instance : UncheckedLayout KeyWeight := .withoutLengths _

theorem agree_uncheckedList {α : Type} [Layout α] [LawfulLayout α] [SpelledLayout α]
    {item : Decoder α} (hitem : Agree unpack item) : Agree unpack (uncheckedList item) :=
  .counted _ (fun count => consumes_unpack.replicate count) fun count => hitem.replicate count

instance {α : Type} [Layout α] [LawfulLayout α] [SpelledLayout α] [UncheckedLayout α] :
    UncheckedLayout (List α) where
  unpackUnchecked := uncheckedList unpackUnchecked
  agree_unpack := agree_uncheckedList agree_unpack

instance {α : Type} [Layout α] [UncheckedLayout α] : UncheckedLayout (Option α) where
  unpackUnchecked := do
    let tag ← Decoder.u8 "optional tag"
    match tag.toNat with
    | 0 => return none
    | 1 => some <$> unpackUnchecked
    | n => throw (.invalidValue "optional tag" n)
  agree_unpack := by
    refine .after fun tag => ?_
    generalize tag.toNat = n
    match n with
    | 0 => exact .refl _
    | 1 => exact agree_unpack.map some
    | n + 2 => exact .refl _

instance : UncheckedLayout Merkle.Path where
  unpackUnchecked := Merkle.Path.mk <$> unpackUnchecked
  agree_unpack := agree_unpack.map _

instance : UncheckedLayout ProducerSchedule where
  unpackUnchecked := do
    let version ← Decoder.u32 "schedule version"
    let producers ← unpackUnchecked
    return ⟨version, producers⟩
  agree_unpack := .after fun _ => agree_unpack.map _

instance : UncheckedLayout SigningAuthority where
  unpackUnchecked := do
    let variant ← Decoder.varuint32 "signing authority variant"
    match variant.toNat with
    | 0 => do
      let threshold ← Decoder.u32 "threshold"
      let keys ← unpackUnchecked
      return ⟨threshold, keys⟩
    | n => throw (.invalidValue "signing authority variant" n)
  agree_unpack := by
    -- The variant is a varuint but no length, so it is read alike.
    refine .after fun variant => ?_
    generalize variant.toNat = n
    match n with
    | 0 => exact .after fun _ => agree_unpack.map _
    | n + 1 => exact .refl _

instance : UncheckedLayout ProducerAuthority where
  unpackUnchecked := do
    let producer ← unpack
    let authority ← unpackUnchecked
    return ⟨producer, authority⟩
  agree_unpack := .after fun _ => agree_unpack.map _

instance : UncheckedLayout AuthoritySchedule where
  unpackUnchecked := do
    let version ← Decoder.u32 "schedule version"
    let producers ← unpackUnchecked
    return ⟨version, producers⟩
  agree_unpack := .after fun _ => agree_unpack.map _

instance : UncheckedLayout Extension where
  unpackUnchecked := do
    let id ← Decoder.u16 "extension id"
    let data ← uncheckedBytes "extension data"
    return ⟨id, data⟩
  agree_unpack := .after fun _ => (agree_uncheckedBytes _).map _

instance : UncheckedLayout Header where
  unpackUnchecked := do
    let timestamp ← unpack
    let producer ← unpack
    let confirmed ← Decoder.u16 "confirmed"
    let previous ← unpack
    let transactionRoot ← unpack
    let actionRoot ← unpack
    let scheduleVersion ← Decoder.u32 "schedule_version"
    let newProducers ← unpackUnchecked
    let extensions ← unpackUnchecked
    return { timestamp, producer, confirmed, previous, transactionRoot, actionRoot,
             scheduleVersion, newProducers, extensions }
  agree_unpack :=
    .after fun _ => .after fun _ => .after fun _ => .after fun _ => .after fun _ =>
    .after fun _ => .after fun _ => agree_unpack.bind fun _ => agree_unpack.map _

instance : UncheckedLayout ReceiptProof where
  unpackUnchecked := do
    let receipt ← unpack
    let path ← unpackUnchecked
    let header ← unpackUnchecked
    return ⟨receipt, path, header⟩
  agree_unpack := .after fun _ => agree_unpack.bind fun _ => agree_unpack.map _

instance : UncheckedLayout BlockProof where
  unpackUnchecked := do
    let header ← unpackUnchecked
    let path ← unpackUnchecked
    let anchor ← Decoder.u32 "anchor_block_num"
    return ⟨header, path, anchor⟩
  agree_unpack := agree_unpack.bind fun _ => agree_unpack.bind fun _ => .refl _

instance : UncheckedLayout CrossChainProof where
  unpackUnchecked := do
    let chain ← unpack
    let transaction ← unpackUnchecked
    let block ← unpackUnchecked
    return ⟨chain, transaction, block⟩
  agree_unpack := .after fun _ => agree_unpack.bind fun _ => agree_unpack.map _

namespace WireType

/-- Every wire type has a layout that is read without the check too. -/
@[reducible] def uncheckedLayout : (t : WireType) → UncheckedLayout t.Value
  | .u8 => inferInstanceAs (UncheckedLayout UInt8)
  | .u16 => inferInstanceAs (UncheckedLayout UInt16)
  | .u32 => inferInstanceAs (UncheckedLayout UInt32)
  | .u64 => inferInstanceAs (UncheckedLayout UInt64)
  | .list item =>
    let _ := item.uncheckedLayout; inferInstanceAs (UncheckedLayout (List item.Value))
  | .option item =>
    let _ := item.uncheckedLayout; inferInstanceAs (UncheckedLayout (Option item.Value))
  | .digest => inferInstanceAs (UncheckedLayout Digest)
  | .path => inferInstanceAs (UncheckedLayout Merkle.Path)
  | .name => inferInstanceAs (UncheckedLayout AccountName)
  | .timestamp => inferInstanceAs (UncheckedLayout Slot)
  | .publicKey => inferInstanceAs (UncheckedLayout PublicKey)
  | .producerKey => inferInstanceAs (UncheckedLayout ProducerKey)
  | .producerSchedule => inferInstanceAs (UncheckedLayout ProducerSchedule)
  | .keyWeight => inferInstanceAs (UncheckedLayout KeyWeight)
  | .authority => inferInstanceAs (UncheckedLayout SigningAuthority)
  | .producerAuthority => inferInstanceAs (UncheckedLayout ProducerAuthority)
  | .authoritySchedule => inferInstanceAs (UncheckedLayout AuthoritySchedule)
  | .headerExtension => inferInstanceAs (UncheckedLayout Extension)
  | .header => inferInstanceAs (UncheckedLayout Header)
  | .receiptProof => inferInstanceAs (UncheckedLayout ReceiptProof)
  | .blockProof => inferInstanceAs (UncheckedLayout BlockProof)
  | .crossChainProof => inferInstanceAs (UncheckedLayout CrossChainProof)

instance (t : WireType) : UncheckedLayout t.Value := t.uncheckedLayout

end WireType

/-- **The check of lengths refuses nothing that could be read.** A value of any wire type is read
from no fewer bytes than the least size of its layout. So a list is read, from wherever the cursor
stands, just if its length and then that many items are read without the check: they are the same
items, and the cursor is left at the same place. The same holds of every record and of every list
in it, however deep, and of whole records. -/
theorem unpack_iff_unchecked (t : WireType) :
    Consumes (unpack : Decoder t.Value) (Layout.minSize t.Value) ∧
    Agree (unpack : Decoder (List t.Value)) (uncheckedList unpack) ∧
    Agree (unpack : Decoder t.Value) unpackUnchecked ∧
    ∀ bytes (v : t.Value), fromPacked bytes = .ok v ↔
      unpackUnchecked.whole (Layout.record t.Value) bytes = .ok v :=
  ⟨consumes_unpack, agree_uncheckedList (.refl _), agree_unpack, fun _ _ => agree_unpack.whole⟩

/-- A list of optional lists with both lengths padded, behind three bytes and before one. -/
theorem unpack_iff_unchecked_padded :
    let t : WireType := .option (.list .u16)
    let items : List t.Value := [some [1, 515], none]
    let before : Cursor := ⟨3, [130, 128, 0, 1, 130, 0, 1, 0, 3, 2, 0, 7]⟩
    let after : Cursor := ⟨14, [7]⟩
    (uncheckedList (unpack : Decoder t.Value)).run before = (.ok items, after) ∧
      (unpack : Decoder (List t.Value)).run before = (.ok items, after) ∧
      (unpackUnchecked : Decoder (List t.Value)).run before = (.ok items, after) ∧
      ∃ s, before.Takes s after ∧ 1 ≤ s.length := by
  intro t items before after
  have hitems : (uncheckedList (unpack : Decoder t.Value)).run before = (.ok items, after) := by
    change @Eq (Except DecodeError (List t.Value) × Cursor) _ _
    decide +kernel
  have hlist := (unpack_iff_unchecked t).2.1.mpr hitems
  obtain ⟨hconsumes, -, hnested, -⟩ := unpack_iff_unchecked (.list t)
  exact ⟨hitems, hlist, hnested.mp hlist, hconsumes hlist⟩

/-- Where there is no room for the items, the check stops before the first of them and the reader
without it behind the last that there is. -/
example :
    let bytes : List UInt8 := [3, 1, 0]
    (unpack : Decoder (List UInt16)).run (.start bytes) =
      (.error (.invalidLength "sequence" 3 2), ⟨1, [1, 0]⟩) ∧
    (unpackUnchecked : Decoder (List UInt16)).run (.start bytes) =
      (.error (.unexpectedEnd "u16"), ⟨3, []⟩) :=
  ⟨rfl, rfl⟩

end LightClient
