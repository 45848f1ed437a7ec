import LightClient.Evidence.WireType
import LightClient.Proofs.Packed.RoundTrip
import LightClient.Proofs.Packed.Stable

/-!
Whole records. Main statement: of every wire type, nested to any depth, just the packed bytes of a
value are read back, neither with bytes behind them nor with bytes cut off; so no packed value is
the start of another.
-/

namespace LightClient

open Decoder

/-- A layout whose reader does not look behind what it reads. -/
class StableLayout (α : Type) [Layout α] : Prop where
  stable_unpack : Stable (unpack : Decoder α)

export StableLayout (stable_unpack)

/-! ## Numbers, lists and optional values -/

instance : StableLayout UInt8 := ⟨.u8 _⟩

instance : StableLayout UInt16 := ⟨.u16 _⟩

instance : StableLayout UInt32 := ⟨.u32 _⟩

instance : StableLayout UInt64 := ⟨.u64 _⟩

instance {α : Type} [Layout α] [StableLayout α] : StableLayout (List α) :=
  ⟨(Stable.length ..).bind fun _ => stable_unpack.replicate _⟩

instance {α : Type} [Layout α] [StableLayout α] : StableLayout (Option α) where
  stable_unpack := by
    refine (Stable.u8 _).bind fun tag => ?_
    split
    · exact .pure none
    · exact stable_unpack.map some
    · exact .throw _

/-! ## Digests, paths, names, slots and keys -/

instance : StableLayout Digest := ⟨(Stable.sized ..).map _⟩

instance : StableLayout Merkle.Path := ⟨stable_unpack.map _⟩

instance : StableLayout AccountName := ⟨(Stable.u64 _).map _⟩

instance : StableLayout Slot := ⟨(Stable.u32 _).map _⟩

instance : StableLayout PublicKey where
  stable_unpack := by
    refine (Stable.varuint32 _).bind fun index => ?_
    split
    · exact (Stable.sized ..).map _
    · exact (Stable.sized ..).map _
    · exact .throw _

/-! ## Schedules, headers and proofs -/

instance : StableLayout ProducerKey :=
  ⟨stable_unpack.bind fun _ => stable_unpack.map _⟩

instance : StableLayout ProducerSchedule :=
  ⟨(Stable.u32 _).bind fun _ => stable_unpack.map _⟩

instance : StableLayout KeyWeight :=
  ⟨stable_unpack.bind fun _ => (Stable.u16 _).map _⟩

instance : StableLayout SigningAuthority where
  stable_unpack := by
    refine (Stable.varuint32 _).bind fun variant => ?_
    split
    · exact (Stable.u32 _).bind fun _ => stable_unpack.map _
    · exact .throw _

instance : StableLayout ProducerAuthority :=
  ⟨stable_unpack.bind fun _ => stable_unpack.map _⟩

instance : StableLayout AuthoritySchedule :=
  ⟨(Stable.u32 _).bind fun _ => stable_unpack.map _⟩

instance : StableLayout Extension :=
  ⟨(Stable.u16 _).bind fun _ => (Stable.bytes _).map _⟩

instance : StableLayout Header :=
  ⟨stable_unpack.bind fun _ => stable_unpack.bind fun _ => (Stable.u16 _).bind fun _ =>
    stable_unpack.bind fun _ => stable_unpack.bind fun _ => stable_unpack.bind fun _ =>
    (Stable.u32 _).bind fun _ => stable_unpack.bind fun _ => stable_unpack.map _⟩

instance : StableLayout ReceiptProof :=
  ⟨stable_unpack.bind fun _ => stable_unpack.bind fun _ => stable_unpack.map _⟩

instance : StableLayout BlockProof :=
  ⟨stable_unpack.bind fun _ => stable_unpack.bind fun _ => (Stable.u32 _).map _⟩

instance : StableLayout CrossChainProof :=
  ⟨stable_unpack.bind fun _ => stable_unpack.bind fun _ => stable_unpack.map _⟩

namespace WireType

/-- Every wire type has a layout whose reader undoes its writer. -/
@[reducible] def lawfulLayout : (t : WireType) → LawfulLayout t.Value
  | .u8 => inferInstanceAs (LawfulLayout UInt8)
  | .u16 => inferInstanceAs (LawfulLayout UInt16)
  | .u32 => inferInstanceAs (LawfulLayout UInt32)
  | .u64 => inferInstanceAs (LawfulLayout UInt64)
  | .list item => let _ := item.lawfulLayout; inferInstanceAs (LawfulLayout (List item.Value))
  | .option item => let _ := item.lawfulLayout; inferInstanceAs (LawfulLayout (Option item.Value))
  | .digest => inferInstanceAs (LawfulLayout Digest)
  | .path => inferInstanceAs (LawfulLayout Merkle.Path)
  | .name => inferInstanceAs (LawfulLayout AccountName)
  | .timestamp => inferInstanceAs (LawfulLayout Slot)
  | .publicKey => inferInstanceAs (LawfulLayout PublicKey)
  | .producerKey => inferInstanceAs (LawfulLayout ProducerKey)
  | .producerSchedule => inferInstanceAs (LawfulLayout ProducerSchedule)
  | .keyWeight => inferInstanceAs (LawfulLayout KeyWeight)
  | .authority => inferInstanceAs (LawfulLayout SigningAuthority)
  | .producerAuthority => inferInstanceAs (LawfulLayout ProducerAuthority)
  | .authoritySchedule => inferInstanceAs (LawfulLayout AuthoritySchedule)
  | .headerExtension => inferInstanceAs (LawfulLayout Extension)
  | .header => inferInstanceAs (LawfulLayout Header)
  | .receiptProof => inferInstanceAs (LawfulLayout ReceiptProof)
  | .blockProof => inferInstanceAs (LawfulLayout BlockProof)
  | .crossChainProof => inferInstanceAs (LawfulLayout CrossChainProof)

instance (t : WireType) : LawfulLayout t.Value := t.lawfulLayout

theorem stableLayout (t : WireType) : StableLayout t.Value := by
  induction t with
  | u8 => exact inferInstanceAs (StableLayout UInt8)
  | u16 => exact inferInstanceAs (StableLayout UInt16)
  | u32 => exact inferInstanceAs (StableLayout UInt32)
  | u64 => exact inferInstanceAs (StableLayout UInt64)
  | list item ih => exact inferInstanceAs (StableLayout (List item.Value))
  | option item ih => exact inferInstanceAs (StableLayout (Option item.Value))
  | digest => exact inferInstanceAs (StableLayout Digest)
  | path => exact inferInstanceAs (StableLayout Merkle.Path)
  | name => exact inferInstanceAs (StableLayout AccountName)
  | timestamp => exact inferInstanceAs (StableLayout Slot)
  | publicKey => exact inferInstanceAs (StableLayout PublicKey)
  | producerKey => exact inferInstanceAs (StableLayout ProducerKey)
  | producerSchedule => exact inferInstanceAs (StableLayout ProducerSchedule)
  | keyWeight => exact inferInstanceAs (StableLayout KeyWeight)
  | authority => exact inferInstanceAs (StableLayout SigningAuthority)
  | producerAuthority => exact inferInstanceAs (StableLayout ProducerAuthority)
  | authoritySchedule => exact inferInstanceAs (StableLayout AuthoritySchedule)
  | headerExtension => exact inferInstanceAs (StableLayout Extension)
  | header => exact inferInstanceAs (StableLayout Header)
  | receiptProof => exact inferInstanceAs (StableLayout ReceiptProof)
  | blockProof => exact inferInstanceAs (StableLayout BlockProof)
  | crossChainProof => exact inferInstanceAs (StableLayout CrossChainProof)

instance (t : WireType) : StableLayout t.Value := t.stableLayout

end WireType

/-! ## Whole records -/

section Whole

variable {α : Type} {d : Decoder α} {s : List UInt8} {a : α} {record : String}

/-- After a value it depends on the number of bytes left only whether the record is accepted. -/
theorem Decoder.whole_eq {c : Cursor} (h : d.run (Cursor.start s) = (.ok a, c)) :
    d.whole record s =
      if c.remaining = 0 then .ok a else .error (.trailingBytes record c.remaining) := by
  have hrun := run_bind_ok (f := fun a => finish record >>= fun _ => Pure.pure a) h
  by_cases hrest : c.remaining = 0
  · have hfinish : (finish record).run c = (.ok (), c) := if_pos hrest
    rw [if_pos hrest]
    exact congrArg (·.1) (hrun.trans (run_bind_ok hfinish))
  · have hfinish : (finish record).run c = (.error (.trailingBytes record c.remaining), c) :=
      if_neg hrest
    rw [if_neg hrest]
    exact congrArg (·.1) (hrun.trans (run_bind_error hfinish))

theorem Decoder.run_of_whole (h : d.whole record s = .ok a) :
    ∃ position, d.run (Cursor.start s) = (.ok a, ⟨position, []⟩) := by
  cases hd : d.run (Cursor.start s) with
  | mk result c =>
    cases result with
    | error e =>
      have herror : d.whole record s = .error e := congrArg (·.1)
        (run_bind_error (f := fun a => finish record >>= fun _ => Pure.pure a) hd)
      cases herror.symm.trans h
    | ok b =>
      rw [whole_eq hd] at h
      split at h
      · next hrest =>
        obtain rfl := Except.ok.inj h
        rw [Cursor.remaining, List.length_eq_zero_iff] at hrest
        exact ⟨c.position, by rw [← hrest]⟩
      · cases h

/-- Bytes behind a value are refused, and counted. -/
theorem Decoder.Reads.whole_append (hd : Reads d s a) (record : String) {suffix : List UInt8}
    (hne : suffix ≠ []) :
    d.whole record (s ++ suffix) = .error (.trailingBytes record suffix.length) := by
  rw [whole_eq (hd 0 suffix), if_neg]
  · rfl
  · rwa [Cursor.remaining, List.length_eq_zero_iff]

/-- Where bytes are cut off, no value is left. -/
theorem Decoder.Reads.whole_cut (hd : Reads d s a) (hs : Stable d) (record : String)
    {cut : List UInt8} (hcut : cut <+: s) (hne : cut ≠ s) : ∃ e, d.whole record cut = .error e := by
  obtain ⟨more, rfl⟩ := hcut
  cases hw : d.whole record cut with
  | error e => exact ⟨e, rfl⟩
  | ok b =>
    -- What is read from the cut bytes is read from all of them, and then the rest is left over.
    obtain ⟨position, hrun⟩ := run_of_whole hw
    have hmore : d.run ⟨0, cut ++ more⟩ = (.ok b, ⟨position, more⟩) := hs hrun more
    have hall := hd 0 []
    rw [List.append_nil, hmore] at hall
    have hnil : more = [] := (Cursor.mk.inj (Prod.mk.inj hall).2).2
    exact absurd (by rw [hnil, List.append_nil]) hne

/-- A decoder of whole records takes just these bytes: it gives the value that they stand for,
counts what stands behind them, and refuses them when some are cut off. -/
structure DecodesExactly (decode : List UInt8 → Except DecodeError α) (record : String)
    (bytes : List UInt8) (a : α) : Prop where
  decode_eq : decode bytes = .ok a
  decode_append : ∀ suffix ≠ [],
    decode (bytes ++ suffix) = .error (.trailingBytes record suffix.length)
  decode_cut : ∀ cut, cut <+: bytes → cut ≠ bytes → ∃ e, decode cut = .error e

theorem decodesExactly_whole (hd : Reads d s a) (hs : Stable d) (record : String) :
    DecodesExactly (d.whole record) record s a where
  decode_eq := hd.whole record
  decode_append _ := hd.whole_append record
  decode_cut _ := hd.whole_cut hs record

end Whole

section Layouts

variable {α : Type} [Layout α] [LawfulLayout α] [StableLayout α] {a b : α}

theorem decodesExactly_fromPacked (h : Fits a) :
    DecodesExactly fromPacked (Layout.record α) (pack a) a :=
  decodesExactly_whole (reads_pack a h) stable_unpack _

/-- No packed value is the start of another. -/
theorem eq_of_pack_prefix (ha : Fits a) (hb : Fits b) (hstart : pack a <+: pack b) : a = b := by
  by_cases heq : pack a = pack b
  · exact pack_injective ha hb heq
  · obtain ⟨e, he⟩ := (decodesExactly_fromPacked hb).decode_cut _ hstart heq
    cases he.symm.trans (fromPacked_pack ha)

end Layouts

/-- **Reading undoes writing over the whole packed format.** A value of any wire type whose lists
and byte strings are shorter than 2 ^ 32 is read back from its bytes, whatever follows them, and
just they are consumed. The decoders of whole records give it for its bytes, count what stands
behind them, and refuse them when some are cut off. So no packed value is the start of another of
its type. -/
theorem unpack_pack_exact :
    (∀ (t : WireType) (v : t.Value), Fits v →
      (∀ position suffix, (unpack : Decoder t.Value).run ⟨position, pack v ++ suffix⟩ =
        (.ok v, ⟨position + (pack v).length, suffix⟩)) ∧
      DecodesExactly (fromPacked : List UInt8 → Except DecodeError t.Value)
        (Layout.record t.Value) (pack v) v ∧
      ∀ w : t.Value, Fits w → pack v <+: pack w → v = w) ∧
    (∀ h : Header, Fits h → DecodesExactly Header.decode "block header" h.encode h) ∧
    ∀ p : CrossChainProof, Fits p →
      DecodesExactly CrossChainProof.decode "ibc_verify::proof::CrossChainProof" p.encode p := by
  refine ⟨fun t v hv => ⟨reads_pack v hv, decodesExactly_fromPacked hv, fun w hw => ?_⟩,
    fun h hf => ?_, fun p hf => decodesExactly_fromPacked hf⟩
  · exact eq_of_pack_prefix hv hw
  · exact decodesExactly_whole (reads_pack h hf) stable_unpack _

/-- A list of optional lists, read with a byte behind it and with its last byte cut off. -/
theorem unpack_pack_nested :
    let t : WireType := .list (.option (.list .u16))
    let v : t.Value := [some [1, 515], none]
    Fits v ∧ pack v = [2, 1, 2, 1, 0, 3, 2, 0] ∧
      (fromPacked [2, 1, 2, 1, 0, 3, 2, 0] : Except DecodeError t.Value) = .ok v ∧
      (fromPacked [2, 1, 2, 1, 0, 3, 2, 0, 7] : Except DecodeError t.Value) =
        .error (.trailingBytes
          "alloc::vec::Vec<core::option::Option<alloc::vec::Vec<u16>>>" 1) ∧
      ∃ e, (fromPacked [2, 1, 2, 1, 0, 3, 2] : Except DecodeError t.Value) = .error e := by
  intro t v
  have hfits : Fits v := by
    refine ⟨by decide, List.forall_mem_cons.mpr ⟨fun items hitems => ?_,
      List.forall_mem_singleton.mpr fun items hitems => nomatch hitems⟩⟩
    obtain rfl := Option.some.inj hitems
    exact ⟨by decide, fun _ _ => trivial⟩
  obtain ⟨-, hexact, -⟩ := unpack_pack_exact.1 t v hfits
  have hpack : pack v = [2, 1, 2, 1, 0, 3, 2, 0] := by decide
  rw [hpack] at hexact
  exact ⟨hfits, hpack, hexact.decode_eq, hexact.decode_append [7] (by decide),
    hexact.decode_cut _ ⟨[0], rfl⟩ (by decide)⟩

end LightClient
