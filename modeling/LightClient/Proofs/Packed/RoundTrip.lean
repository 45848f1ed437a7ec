import LightClient.Evidence.Inclusion
import LightClient.Proofs.Packed.Reads

/-!
Packed layouts whose reader undoes their writer. A value fits its layout if each list and byte
string in it is shorter than 2 ^ 32, so that its length can be written; a value that fits is read
back from its bytes, and so no two values that fit have the same bytes.
-/

namespace LightClient

open Decoder

/-- A layout whose reader undoes its writer on the values that fit it. -/
class LawfulLayout (α : Type) [Layout α] where
  /-- Every length in the value can be written. -/
  Fits : α → Prop
  reads_pack : ∀ a, Fits a → Reads unpack (pack a) a
  minSize_le : ∀ a : α, Layout.minSize α ≤ (pack a).length

export LawfulLayout (Fits reads_pack)

section Laws

variable {α : Type} [Layout α] [LawfulLayout α] {a b : α}

theorem fromPacked_pack (h : Fits a) : fromPacked (pack a) = .ok a :=
  (reads_pack a h).whole _

theorem pack_injective (ha : Fits a) (hb : Fits b) (h : pack a = pack b) : a = b := by
  have h' := fromPacked_pack ha
  rw [h, fromPacked_pack hb] at h'
  exact (Except.ok.inj h').symm

end Laws

/-! ## Numbers, lists and optional values -/

instance : LawfulLayout UInt8 where
  Fits _ := True
  reads_pack n _ := reads_u8 _ n
  minSize_le n := by simp [pack, Layout.minSize]

instance : LawfulLayout UInt16 where
  Fits _ := True
  reads_pack n _ := reads_u16 _ n
  minSize_le n := by simp [pack, Layout.minSize]

instance : LawfulLayout UInt32 where
  Fits _ := True
  reads_pack n _ := reads_u32 _ n
  minSize_le n := by simp [pack, Layout.minSize]

instance : LawfulLayout UInt64 where
  Fits _ := True
  reads_pack n _ := reads_u64 _ n
  minSize_le n := by simp [pack, Layout.minSize]

theorem length_varuintGroups_pos (more n : Nat) : 0 < (varuintGroups more n).length := by
  cases more with
  | zero => simp [varuintGroups]
  | succ more => rw [varuintGroups]; split <;> simp

theorem length_varuint_pos (n : UInt32) : 0 < (varuint n).length :=
  length_varuintGroups_pos ..

/-- The items of a list take at least as many bytes as the reader asks for. -/
theorem length_flatMap_pack {α : Type} [Layout α] [LawfulLayout α] (items : List α) :
    items.length * Layout.minSize α ≤ (items.flatMap pack).length := by
  induction items with
  | nil => simp
  | cons a items ih =>
    have ha := LawfulLayout.minSize_le a
    rw [List.length_cons, Nat.succ_mul, List.flatMap_cons, List.length_append]
    omega

theorem reads_list {α : Type} [Layout α] [LawfulLayout α] {items : List α}
    (hlen : items.length < UInt32.size) (h : ∀ a ∈ items, Fits a) :
    Reads unpack (pack items) items := by
  have hn : (lengthPrefix items.length).toNat = items.length := by
    rw [lengthPrefix, if_pos hlen, UInt32.toNat_ofNat_of_lt' hlen]
  refine Reads.counted _ ?_ ?_
  · rw [hn]
    exact .replicate items fun a ha => reads_pack a (h a ha)
  · rw [hn]
    exact length_flatMap_pack items

theorem length_pack_list_pos {α : Type} [Layout α] (items : List α) :
    1 ≤ (pack items).length := by
  have h := length_varuint_pos (lengthPrefix items.length)
  simp only [pack, List.length_append]
  omega

instance {α : Type} [Layout α] [LawfulLayout α] : LawfulLayout (List α) where
  Fits items := items.length < UInt32.size ∧ ∀ a ∈ items, Fits a
  reads_pack _ h := reads_list h.1 h.2
  minSize_le := length_pack_list_pos

instance {α : Type} [Layout α] [LawfulLayout α] : LawfulLayout (Option α) where
  Fits o := ∀ a ∈ o, Fits a
  reads_pack
    | none, _ => (reads_u8 _ 0).bind (t := []) (.pure _)
    | some a, h => (reads_u8 _ 1).bind ((reads_pack a (h a rfl)).map some)
  minSize_le
    | none => by simp [pack, Layout.minSize]
    | some a => by simp [pack, Layout.minSize]

/-! ## Digests, paths, names, slots and keys -/

instance : LawfulLayout Digest where
  Fits _ := True
  reads_pack d _ := (reads_sized _ ⟨d.bytes, d.length_bytes⟩).map _
  minSize_le d := by simp [pack, Layout.minSize, d.length_bytes]

instance : LawfulLayout Merkle.Path where
  Fits path := Fits path.entries
  reads_pack path h := (reads_pack path.entries h).map _
  minSize_le path := LawfulLayout.minSize_le path.entries

instance : LawfulLayout AccountName where
  Fits _ := True
  reads_pack name _ := (reads_u64 _ name.value).map _
  minSize_le name := by simp [pack, Layout.minSize]

instance : LawfulLayout Slot where
  Fits _ := True
  reads_pack s _ := (reads_u32 _ s.index).map _
  minSize_le s := by simp [pack, Layout.minSize]

instance : LawfulLayout PublicKey where
  Fits _ := True
  reads_pack key _ := by
    obtain ⟨curve, point, hpoint⟩ := key
    refine (reads_varuint32 _ curve.index).bind ?_
    cases curve with
    | k1 | r1 => exact (reads_sized _ ⟨point, hpoint⟩).map _
  minSize_le key := by
    have h := length_varuint_pos key.curve.index
    simp only [pack, Layout.minSize, List.length_append, key.length_point]
    omega

/-! ## Schedules, headers and proofs -/

instance : LawfulLayout ProducerKey where
  Fits _ := True
  reads_pack p _ := (reads_pack p.producer trivial).bind ((reads_pack p.key trivial).map _)
  minSize_le p := by
    have h := LawfulLayout.minSize_le p.key
    simp only [pack, Layout.minSize, List.length_append, length_littleEndian] at h ⊢
    omega

instance : LawfulLayout ProducerSchedule where
  Fits s := Fits s.producers
  reads_pack s h := (reads_u32 _ s.version).bind ((reads_pack s.producers h).map _)
  minSize_le s := by
    have h := LawfulLayout.minSize_le s.producers
    simp only [pack, Layout.minSize, List.length_append, length_littleEndian] at h ⊢
    omega

instance : LawfulLayout KeyWeight where
  Fits _ := True
  reads_pack k _ := (reads_pack k.key trivial).bind ((reads_u16 _ k.weight).map _)
  minSize_le k := by
    have h := LawfulLayout.minSize_le k.key
    simp only [pack, Layout.minSize, List.length_append, length_littleEndian] at h ⊢
    omega

instance : LawfulLayout SigningAuthority where
  Fits a := Fits a.keys
  reads_pack a h := by
    change Reads _ (varuint 0 ++ pack a.threshold ++ pack a.keys) a
    rw [List.append_assoc]
    exact (reads_varuint32 _ 0).bind <| (reads_u32 _ a.threshold).bind <|
      (reads_pack a.keys h).map _
  minSize_le a := by
    have hv := length_varuint_pos 0
    have hk := LawfulLayout.minSize_le a.keys
    simp only [pack, Layout.minSize, List.length_append, length_littleEndian] at hk ⊢
    omega

instance : LawfulLayout ProducerAuthority where
  Fits p := Fits p.authority
  reads_pack p h := (reads_pack p.producer trivial).bind ((reads_pack p.authority h).map _)
  minSize_le p := by
    have h := LawfulLayout.minSize_le p.authority
    simp only [pack, Layout.minSize, List.length_append, length_littleEndian] at h ⊢
    omega

instance : LawfulLayout AuthoritySchedule where
  Fits s := Fits s.producers
  reads_pack s h := (reads_u32 _ s.version).bind ((reads_pack s.producers h).map _)
  minSize_le s := by
    have h := LawfulLayout.minSize_le s.producers
    simp only [pack, Layout.minSize, List.length_append, length_littleEndian] at h ⊢
    omega

instance : LawfulLayout Extension where
  Fits e := e.data.length < UInt32.size
  reads_pack e h := (reads_u16 _ e.id).bind ((reads_bytes _ e.data h).map _)
  minSize_le e := by
    have h := length_varuint_pos (lengthPrefix e.data.length)
    simp only [pack, packBytes, Layout.minSize, List.length_append, length_littleEndian] at h ⊢
    omega

/-- A header takes 114 bytes for its fields of fixed width, a tag and a length. -/
theorem Header.length_pack (h : Header) : 116 ≤ (pack h).length := by
  have ho := LawfulLayout.minSize_le h.newProducers
  have hl := LawfulLayout.minSize_le h.extensions
  simp only [Layout.minSize] at ho hl
  have hd (d : Digest) : (pack d).length = 32 := d.length_bytes
  change 116 ≤ (pack h.timestamp ++ pack h.producer ++ pack h.confirmed ++ pack h.previous ++
    pack h.transactionRoot ++ pack h.actionRoot ++ pack h.scheduleVersion ++ pack h.newProducers ++
    pack h.extensions).length
  have ht : (pack h.timestamp).length = 4 := length_littleEndian ..
  have hp : (pack h.producer).length = 8 := length_littleEndian ..
  have hc : (pack h.confirmed).length = 2 := length_littleEndian ..
  have hv : (pack h.scheduleVersion).length = 4 := length_littleEndian ..
  simp only [List.length_append, hd, ht, hp, hc, hv]
  omega

instance : LawfulLayout Header where
  Fits h := Fits h.newProducers ∧ Fits h.extensions
  reads_pack h hf := by
    change Reads _ (pack h.timestamp ++ pack h.producer ++ pack h.confirmed ++ pack h.previous ++
      pack h.transactionRoot ++ pack h.actionRoot ++ pack h.scheduleVersion ++
      pack h.newProducers ++ pack h.extensions) h
    simp only [List.append_assoc]
    exact (reads_pack h.timestamp trivial).bind <| (reads_pack h.producer trivial).bind <|
      (reads_u16 _ h.confirmed).bind <| (reads_pack h.previous trivial).bind <|
      (reads_pack h.transactionRoot trivial).bind <| (reads_pack h.actionRoot trivial).bind <|
      (reads_u32 _ h.scheduleVersion).bind <| (reads_pack h.newProducers hf.1).bind <|
      (reads_pack h.extensions hf.2).map _
  minSize_le h := Nat.le_trans (show 1 ≤ 116 by decide) h.length_pack

instance : LawfulLayout ReceiptProof where
  Fits p := Fits p.path ∧ Fits p.header
  reads_pack p h := by
    change Reads _ (pack p.receipt ++ pack p.path ++ pack p.header) p
    rw [List.append_assoc]
    exact (reads_pack p.receipt trivial).bind <| (reads_pack p.path h.1).bind <|
      (reads_pack p.header h.2).map _
  minSize_le p := by
    have h := p.header.length_pack
    change 1 ≤ (pack p.receipt ++ pack p.path ++ pack p.header).length
    rw [List.length_append]
    omega

instance : LawfulLayout BlockProof where
  Fits p := Fits p.header ∧ Fits p.path
  reads_pack p h := by
    change Reads _ (pack p.header ++ pack p.path ++ pack p.anchor) p
    rw [List.append_assoc]
    exact (reads_pack p.header h.1).bind <| (reads_pack p.path h.2).bind <|
      (reads_u32 _ p.anchor).map _
  minSize_le p := by
    have h := p.header.length_pack
    change 1 ≤ (pack p.header ++ pack p.path ++ pack p.anchor).length
    rw [List.length_append, List.length_append]
    omega

instance : LawfulLayout CrossChainProof where
  Fits p := Fits p.transaction ∧ Fits p.block
  reads_pack p h := by
    change Reads _ (pack p.chain ++ pack p.transaction ++ pack p.block) p
    rw [List.append_assoc]
    exact (reads_pack p.chain trivial).bind <| (reads_pack p.transaction h.1).bind <|
      (reads_pack p.block h.2).map _
  minSize_le p := by
    have h := LawfulLayout.minSize_le p.block
    change 1 ≤ (pack p.chain ++ pack p.transaction ++ pack p.block).length
    change 1 ≤ (pack p.block).length at h
    rw [List.length_append]
    omega

theorem CrossChainProof.decode_encode {p : CrossChainProof} (h : Fits p) :
    decode p.encode = .ok p :=
  fromPacked_pack h

end LightClient
