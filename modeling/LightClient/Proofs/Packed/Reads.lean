import LightClient.Packed.Layout
import LightClient.Proofs.Packed.LittleEndian
import Mathlib.Tactic.Ring

/-!
What a decoder reads: the bytes that give a value, whatever stands behind them. Fixed-width
numbers, varuints and byte strings behind their length are read back as they were written.
-/

namespace LightClient

namespace Decoder

variable {α β : Type} {d : Decoder α} {f : α → Decoder β} {a : α} {b : β}
  {s t : List UInt8} {field : String}

/-- The decoder takes exactly these bytes and gives the value, whatever follows them. -/
def Reads (d : Decoder α) (bytes : List UInt8) (a : α) : Prop :=
  ∀ position rest, d.run ⟨position, bytes ++ rest⟩ = (.ok a, ⟨position + bytes.length, rest⟩)

theorem run_bind_ok {c c' : Cursor} (h : d.run c = (.ok a, c')) :
    (d >>= f).run c = (f a).run c' := by
  change ExceptT.bindCont f (d.run c).1 (d.run c).2 = _
  rw [h]
  rfl

theorem run_get_bind (f : Cursor → Decoder β) (c : Cursor) : (get >>= f).run c = (f c).run c := rfl

theorem Reads.pure (a : α) : Reads (pure a : Decoder α) [] a := fun _ _ => rfl

theorem Reads.bind (hd : Reads d s a) (hf : Reads (f a) t b) : Reads (d >>= f) (s ++ t) b := by
  intro position rest
  rw [List.append_assoc, run_bind_ok (hd position (t ++ rest)), hf]
  simp [Nat.add_assoc]

theorem Reads.map (hd : Reads d s a) (g : α → β) : Reads (g <$> d) s (g a) := by
  have h := hd.bind (f := fun a => Pure.pure (g a)) (Reads.pure (g a))
  rwa [List.append_nil] at h

theorem reads_sized {n : Nat} (field : String)
    (bytes : { bytes : List UInt8 // bytes.length = n }) : Reads (sized n field) bytes.1 bytes := by
  obtain ⟨bytes, rfl⟩ := bytes
  intro position rest
  have h : (bytes ++ rest).take bytes.length = bytes := List.take_left
  change sized bytes.length field ⟨position, bytes ++ rest⟩ = _
  simp [sized, Cursor.advance, h]

theorem reads_exact (field : String) (bytes : List UInt8) :
    Reads (exact bytes.length field) bytes bytes :=
  (reads_sized field ⟨bytes, rfl⟩).map Subtype.val

theorem reads_fixed (field : String) (width n : Nat) (h : n < 256 ^ width) :
    Reads (fixed width field) (littleEndian width n) n := by
  have h' := (reads_exact field (littleEndian width n)).map ofLittleEndian
  rwa [ofLittleEndian_littleEndian, Nat.mod_eq_of_lt h, length_littleEndian] at h'

theorem reads_number {ofNat : Nat → α} {n : Nat} (field : String) (width : Nat)
    (h : n < 256 ^ width) (ha : ofNat n = a) :
    Reads (ofNat <$> fixed width field) (littleEndian width n) a := by
  subst ha
  exact (reads_fixed field width n h).map ofNat

theorem reads_u8 (field : String) (n : UInt8) : Reads (u8 field) (littleEndian 1 n.toNat) n :=
  reads_number field 1 n.toNat_lt UInt8.ofNat_toNat

theorem reads_u16 (field : String) (n : UInt16) :
    Reads (u16 field) (littleEndian 2 n.toNat) n :=
  reads_number field 2 n.toNat_lt UInt16.ofNat_toNat

theorem reads_u32 (field : String) (n : UInt32) :
    Reads (u32 field) (littleEndian 4 n.toNat) n :=
  reads_number field 4 n.toNat_lt UInt32.ofNat_toNat

theorem reads_u64 (field : String) (n : UInt64) :
    Reads (u64 field) (littleEndian 8 n.toNat) n :=
  reads_number field 8 n.toNat_lt UInt64.ofNat_toNat

/-- One byte below 256, as a number. -/
theorem reads_byte (field : String) {n : Nat} (h : n < 256) :
    Reads (fixed 1 field) [UInt8.ofNat n] n :=
  reads_fixed field 1 n h

/-- The last group of a varuint, which has its high bit clear. -/
theorem reads_lastGroup {n weight value : Nat} (more : Nat) (hn : n < 128)
    (hs : value + n * weight < UInt32.size) :
    Reads (varuintFrom field (more + 1) weight value) [UInt8.ofNat n]
      (UInt32.ofNat (value + n * weight)) := by
  refine (reads_byte field (by omega)).bind (t := []) ?_
  simp only [Nat.mod_eq_of_lt hn, if_pos hn, if_pos hs]
  exact .pure _

/-- The groups of a number are read back and added to what was read before them. The weight grows
by 128 with each group, so the sum is that of the number itself. -/
theorem reads_varuintGroups {n weight value : Nat} (more : Nat) (hn : n < 128 ^ (more + 1))
    (hs : value + n * weight < UInt32.size) :
    Reads (varuintFrom field (more + 1) weight value) (varuintGroups more n)
      (UInt32.ofNat (value + n * weight)) := by
  induction more generalizing n weight value with
  | zero => exact reads_lastGroup 0 (by simpa using hn) hs
  | succ more ih =>
    rw [varuintGroups]
    split
    · next h => exact reads_lastGroup (more + 1) h hs
    · next h =>
      have hsum : value + n * weight = value + n % 128 * weight + n / 128 * (weight * 128) := by
        conv => lhs; rw [← Nat.mod_add_div n 128]
        ring
      have hrest : n / 128 < 128 ^ (more + 1) := by
        rw [Nat.pow_succ] at hn
        exact Nat.div_lt_of_lt_mul (by omega)
      refine (reads_byte field (n := n % 128 + 128) (by omega)).bind ?_
      have hmod : (n % 128 + 128) % 128 = n % 128 := by omega
      simp only [hmod, if_neg (show ¬ n % 128 + 128 < 128 by omega)]
      rw [hsum] at hs ⊢
      exact ih hrest hs

/-- Five groups of seven bits hold every number of 32 bits. -/
theorem reads_varuint32 (field : String) (n : UInt32) :
    Reads (varuint32 field) (varuint n) n := by
  have hn : n.toNat < 2 ^ 32 := n.toNat_lt
  have h : Reads (varuintFrom field 5 1 0) (varuintGroups 4 n.toNat)
      (UInt32.ofNat (0 + n.toNat * 1)) :=
    reads_varuintGroups 4 (by omega) (by simpa using hn)
  rwa [Nat.mul_one, Nat.zero_add, UInt32.ofNat_toNat] at h

/-- A length that the bytes behind it can hold is read, and then whatever it is the length of. -/
theorem Reads.counted {n : UInt32} {minSize : Nat} {f : Nat → Decoder β} (field : String)
    (hf : Reads (f n.toNat) t b) (hn : n.toNat * minSize ≤ t.length) :
    Reads (length field minSize >>= f) (varuint n ++ t) b := by
  intro position rest
  have hlen : (length field minSize).run ⟨position, varuint n ++ (t ++ rest)⟩ =
      (.ok n.toNat, ⟨position + (varuint n).length, t ++ rest⟩) := by
    rw [length, run_bind_ok (reads_varuint32 field n position (t ++ rest)), run_get_bind, if_neg]
    · rfl
    · simp only [Cursor.remaining, List.length_append]
      omega
  rw [List.append_assoc, run_bind_ok hlen, hf]
  simp [Nat.add_assoc]

theorem reads_bytes (field : String) (data : List UInt8) (h : data.length < UInt32.size) :
    Reads (bytes field) (packBytes data) data := by
  have hn : (lengthPrefix data.length).toNat = data.length := by
    rw [lengthPrefix, if_pos h, UInt32.toNat_ofNat_of_lt' h]
  refine Reads.counted field ?_ (by omega)
  rw [hn]
  exact reads_exact field data

theorem Reads.replicate {item : Decoder α} {pack : α → List UInt8} (items : List α)
    (h : ∀ a ∈ items, Reads item (pack a) a) :
    Reads (replicate item items.length) (items.flatMap pack) items := by
  induction items with
  | nil => exact .pure _
  | cons a items ih =>
    have hrest := ih fun a ha => h a (List.mem_cons_of_mem _ ha)
    rw [List.flatMap_cons]
    exact (h a List.mem_cons_self).bind (hrest.map (a :: ·))

/-- The bytes of one value are a whole record of it. -/
theorem Reads.whole (hd : Reads d s a) (record : String) : d.whole record s = .ok a := by
  have h := run_bind_ok (f := fun a => finish record >>= fun _ => Pure.pure a) (hd 0 [])
  rw [List.append_nil] at h
  exact congrArg (·.1) h

end Decoder

end LightClient
