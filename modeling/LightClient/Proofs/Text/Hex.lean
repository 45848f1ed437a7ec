import LightClient.Digest
import LightClient.Proofs.Except
import LightClient.Proofs.Text.Basic

/-!
Hexadecimal text reads back as the bytes that it was written from.
-/

namespace LightClient

namespace Hex

theorem toNat_digitChar {n : Nat} (h : n < 16) :
    (digitChar n).toNat < 128 ∧ digitValue? (UInt8.ofNat (digitChar n).toNat) = some n := by
  have hall : ∀ n : Fin 16, (digitChar n).toNat < 128 ∧
      digitValue? (UInt8.ofNat (digitChar n).toNat) = some n.val := by decide
  exact hall ⟨n, h⟩

theorem digitAt_digitChar {n : Nat} (h : n < 16) (position : Nat) :
    digitAt position (UInt8.ofNat (digitChar n).toNat) = .ok n := by
  rw [digitAt, (toNat_digitChar h).2]

theorem mem_encodeChars {bytes : List UInt8} {c : Char} (h : c ∈ encodeChars bytes) :
    ∃ n < 16, c = digitChar n := by
  obtain ⟨b, -, hc⟩ := List.mem_flatMap.mp h
  have hb := b.toNat_lt
  simp only [List.mem_cons, List.not_mem_nil, or_false] at hc
  rcases hc with rfl | rfl
  · exact ⟨_, by omega, rfl⟩
  · exact ⟨_, by omega, rfl⟩

theorem utf8_encode (bytes : List UInt8) :
    utf8 (encode bytes) = (encodeChars bytes).map fun c => UInt8.ofNat c.toNat := by
  refine utf8_ofList_of_lt fun c hc => ?_
  obtain ⟨n, hn, rfl⟩ := mem_encodeChars hc
  exact (toNat_digitChar hn).1

theorem length_encodeChars (bytes : List UInt8) :
    (encodeChars bytes).length = 2 * bytes.length := by
  induction bytes with
  | nil => rfl
  | cons b bytes ih =>
    rw [encodeChars, List.flatMap_cons, List.length_append, ← encodeChars, ih, List.length_cons]
    simp only [List.length_cons, List.length_nil]
    omega

theorem decodePairs_encodeChars (position : Nat) (bytes : List UInt8) :
    decodePairs position ((encodeChars bytes).map fun c => UInt8.ofNat c.toNat) = .ok bytes := by
  induction bytes generalizing position with
  | nil => rfl
  | cons b bytes ih =>
    have hb := b.toNat_lt
    have hbyte : UInt8.ofNat (b.toNat / 16 * 16 + b.toNat % 16) = b := by
      rw [Nat.div_add_mod', UInt8.ofNat_toNat]
    change decodePairs position (UInt8.ofNat (digitChar (b.toNat / 16)).toNat ::
      UInt8.ofNat (digitChar (b.toNat % 16)).toNat ::
        (encodeChars bytes).map fun c => UInt8.ofNat c.toNat) = _
    rw [decodePairs, digitAt_digitChar (by omega), digitAt_digitChar (by omega), ih]
    exact congrArg (fun b => Except.ok (b :: bytes)) hbyte

theorem decode_encode (bytes : List UInt8) : decode (encode bytes) = .ok bytes := by
  rw [decode, utf8_encode]
  simp only [List.length_map, length_encodeChars, Nat.mul_mod_right]
  exact decodePairs_encodeChars 0 bytes

end Hex

namespace Digest

theorem dropMark_of_not_mem {text : String} (h : 'x' ∉ text.toList) : dropMark text = text := by
  rw [dropMark]
  split
  · next rest heq => exact absurd (heq ▸ List.mem_cons_of_mem _ List.mem_cons_self) h
  · rfl

/-- A text of digits has no mark in front. -/
theorem dropMark_toHex (d : Digest) : dropMark d.toHex = d.toHex := by
  refine dropMark_of_not_mem fun h => ?_
  rw [toHex, Hex.encode, String.toList_ofList] at h
  obtain ⟨n, hn, heq⟩ := Hex.mem_encodeChars h
  have hall : ∀ n : Fin 16, 'x' ≠ Hex.digitChar n := by decide
  exact hall ⟨n, hn⟩ heq

theorem ofHex_toHex (d : Digest) : ofHex d.toHex = .ok d := by
  rw [ofHex, dropMark_toHex, toHex, Hex.decode_encode]
  exact dif_pos d.length_bytes

end Digest

end LightClient
