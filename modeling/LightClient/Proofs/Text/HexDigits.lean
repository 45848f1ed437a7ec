import LightClient.Proofs.Text.Hex
import Mathlib.Data.List.Induction

/-!
Which texts are read as bytes: those of hexadecimal digits, an even number of them, of either case.
What is written for the bytes is the text in lower case.
-/

namespace LightClient

/-- A text whose bytes are below 128 has a character for each. -/
theorem eq_ofList_of_utf8_lt {text : String} (h : ∀ b ∈ utf8 text, b.toNat < 128) :
    text = String.ofList ((utf8 text).map fun b => Char.ofNat b.toNat) := by
  have hchar : ∀ n : Fin 128, (Char.ofNat n).toNat = n := by decide
  have hbyte {b : UInt8} (hb : b ∈ utf8 text) : (Char.ofNat b.toNat).toNat = b.toNat :=
    hchar ⟨b.toNat, h b hb⟩
  rw [← utf8_inj, utf8_ofList_of_lt, List.map_map]
  · refine (List.map_id'' (fun b => rfl) _).symm.trans (List.map_congr_left fun b hb => ?_)
    rw [Function.comp_apply, hbyte hb, UInt8.ofNat_toNat]
  · intro c hc
    obtain ⟨b, hb, rfl⟩ := List.mem_map.mp hc
    rw [hbyte hb]
    exact h b hb

namespace Hex

/-- A hexadecimal digit of either case. -/
def IsDigit (c : Char) : Prop :=
  '0' ≤ c ∧ c ≤ '9' ∨ 'a' ≤ c ∧ c ≤ 'f' ∨ 'A' ≤ c ∧ c ≤ 'F'

instance : DecidablePred IsDigit :=
  fun _ => inferInstanceAs (Decidable (_ ∨ _))

theorem IsDigit.toNat_lt {c : Char} (h : IsDigit c) : c.toNat < 128 := by
  have hle {d : Char} (hd : d.toNat < 128) (hc : c ≤ d) : c.toNat < 128 :=
    Nat.lt_of_le_of_lt (UInt32.le_iff_toNat_le.mp hc) hd
  rcases h with ⟨-, h⟩ | ⟨-, h⟩ | ⟨-, h⟩
  · exact hle (by decide) h
  · exact hle (by decide) h
  · exact hle (by decide) h

/-- A byte with a value is a digit, and is written in lower case for its value. -/
theorem digit_of_digitValue? {b : UInt8} {n : Nat} (h : digitValue? b = some n) : n < 16 ∧
    b.toNat < 128 ∧ IsDigit (.ofNat b.toNat) ∧ digitChar n = (Char.ofNat b.toNat).toLower := by
  have hall : ∀ k : Fin 256, ∀ n ∈ digitValue? (.ofNat k), n < 16 ∧ k.val < 128 ∧
      IsDigit (.ofNat k) ∧ digitChar n = (Char.ofNat k).toLower := by decide +kernel
  refine hall ⟨b.toNat, b.toNat_lt⟩ n ?_
  rwa [UInt8.ofNat_toNat]

theorem IsDigit.exists_value {c : Char} (h : IsDigit c) :
    ∃ n, digitValue? (.ofNat c.toNat) = some n := by
  have hall : ∀ k : Fin 128, IsDigit (.ofNat k) → (digitValue? (.ofNat k)).isSome := by decide
  refine Option.isSome_iff_exists.mp (hall ⟨c.toNat, h.toNat_lt⟩ ?_)
  rwa [Char.ofNat_toNat]

theorem digitAt_eq_ok {position n : Nat} {b : UInt8} :
    digitAt position b = .ok n ↔ digitValue? b = some n := by
  rw [digitAt]
  cases digitValue? b with
  | none => simp
  | some m => simp

/-- Pairs that are read are digits, and in lower case those of their bytes. -/
theorem digits_of_decodePairs {position : Nat} {digits bytes : List UInt8}
    (heven : digits.length % 2 = 0) (h : decodePairs position digits = .ok bytes) :
    (∀ b ∈ digits, ∃ n, digitValue? b = some n) ∧
      encodeChars bytes = digits.map fun b => (Char.ofNat b.toNat).toLower := by
  induction digits using List.twoStepInduction generalizing position bytes with
  | nil =>
    obtain rfl := Except.ok.inj h
    exact ⟨List.forall_mem_nil _, rfl⟩
  | singleton b => exact absurd heven (by simp)
  | cons_cons high low rest ih _ =>
    rw [decodePairs] at h
    simp only [bind_eq_ok, digitAt_eq_ok] at h
    obtain ⟨hi, hhigh, lo, hlow, bytes, hrest, hbytes⟩ := h
    obtain rfl := Except.ok.inj hbytes
    obtain ⟨hdigits, hchars⟩ := ih (by simpa [Nat.add_assoc] using heven) hrest
    obtain ⟨hhi, -, -, hhighChar⟩ := digit_of_digitValue? hhigh
    obtain ⟨hlo, -, -, hlowChar⟩ := digit_of_digitValue? hlow
    have hbyte : (UInt8.ofNat (hi * 16 + lo)).toNat = hi * 16 + lo :=
      UInt8.toNat_ofNat_of_lt' (by rw [UInt8.size]; omega)
    have hhalves : (hi * 16 + lo) / 16 = hi ∧ (hi * 16 + lo) % 16 = lo := by omega
    refine ⟨List.forall_mem_cons.mpr ⟨⟨hi, hhigh⟩, List.forall_mem_cons.mpr ⟨⟨lo, hlow⟩, hdigits⟩⟩,
      ?_⟩
    rw [encodeChars, List.flatMap_cons, ← encodeChars, hchars, hbyte, hhalves.1, hhalves.2,
      hhighChar, hlowChar]
    rfl

theorem exists_decodePairs {digits : List UInt8} (heven : digits.length % 2 = 0)
    (h : ∀ b ∈ digits, ∃ n, digitValue? b = some n) (position : Nat) :
    ∃ bytes, decodePairs position digits = .ok bytes := by
  induction digits using List.twoStepInduction generalizing position with
  | nil => exact ⟨[], rfl⟩
  | singleton b => exact absurd heven (by simp)
  | cons_cons high low rest ih _ =>
    simp only [List.forall_mem_cons] at h
    obtain ⟨⟨hi, hhigh⟩, ⟨lo, hlow⟩, hrest⟩ := h
    obtain ⟨bytes, hbytes⟩ := ih (by simpa [Nat.add_assoc] using heven) hrest (position + 2)
    refine ⟨UInt8.ofNat (hi * 16 + lo) :: bytes, ?_⟩
    rw [decodePairs]
    simp only [bind_eq_ok, digitAt_eq_ok]
    exact ⟨hi, hhigh, lo, hlow, bytes, hbytes, rfl⟩

/-- So many digits of either case. -/
structure Digits (count : Nat) (text : String) : Prop where
  length_eq : text.length = count
  isDigit : ∀ c ∈ text.toList, IsDigit c

/-- What is read are digits, and what is written for it is their text in lower case. -/
theorem digits_of_decode {text : String} {bytes : List UInt8} (h : decode text = .ok bytes) :
    Digits (2 * bytes.length) text ∧ encode bytes = text.toLower := by
  rw [decode] at h
  split at h
  · cases h
  · next hodd =>
    obtain ⟨hdigits, hchars⟩ := digits_of_decodePairs (by omega) h
    have htext := eq_ofList_of_utf8_lt fun b hb => by
      obtain ⟨n, hn⟩ := hdigits b hb
      exact (digit_of_digitValue? hn).2.1
    have hlist : text.toList = (utf8 text).map fun b => Char.ofNat b.toNat := by
      conv => lhs; rw [htext]
      exact String.toList_ofList
    have hlower : encodeChars bytes = text.toList.map Char.toLower := by
      rw [hchars, hlist, List.map_map]
      rfl
    refine ⟨⟨?_, fun c hc => ?_⟩, ?_⟩
    · rw [← String.length_toList, ← length_encodeChars, hlower, List.length_map]
    · rw [hlist] at hc
      obtain ⟨b, hb, rfl⟩ := List.mem_map.mp hc
      obtain ⟨n, hn⟩ := hdigits b hb
      exact (digit_of_digitValue? hn).2.2.1
    · rw [encode, hlower, ← String.toList_map, String.ofList_toList]
      rfl

theorem Digits.exists_decode {text : String} {count : Nat} (h : Digits (2 * count) text) :
    ∃ bytes, decode text = .ok bytes ∧ bytes.length = count := by
  have hascii : ∀ c ∈ text.toList, c.toNat < 128 := fun c hc => (h.isDigit c hc).toNat_lt
  have hutf8 := utf8_ofList_of_lt hascii
  rw [String.ofList_toList] at hutf8
  have hlength : (utf8 text).length = 2 * count := by
    rw [hutf8, List.length_map, String.length_toList, h.length_eq]
  have hvalues : ∀ b ∈ utf8 text, ∃ n, digitValue? b = some n := by
    rw [hutf8]
    intro b hb
    obtain ⟨c, hc, rfl⟩ := List.mem_map.mp hb
    exact (h.isDigit c hc).exists_value
  obtain ⟨bytes, hbytes⟩ := exists_decodePairs (by omega) hvalues 0
  have hdecode : decode text = .ok bytes := by
    rw [decode]
    exact (if_neg (by omega)).trans hbytes
  have hcount := (digits_of_decode hdecode).1.length_eq
  exact ⟨bytes, hdecode, by rw [h.length_eq] at hcount; omega⟩

end Hex

end LightClient
