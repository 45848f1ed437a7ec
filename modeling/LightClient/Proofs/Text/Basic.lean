import LightClient.Text.Basic
import Mathlib.Data.List.Basic

/-!
The bytes of a text determine it, with one byte for each character below 128. The digits of a number
read back as the number.
-/

namespace LightClient

/-! ## Bytes -/

theorem utf8_inj {s t : String} : utf8 s = utf8 t ↔ s = t := by
  refine ⟨fun h => ?_, congrArg utf8⟩
  have hbytes : s.toList.utf8Encode = t.toList.utf8Encode := congrArg List.toByteArray h
  have hlist : String.ofList s.toList = String.ofList t.toList := String.toByteArray_inj.mp hbytes
  rwa [String.ofList_toList, String.ofList_toList] at hlist

theorem utf8EncodeChar_of_lt {c : Char} (h : c.toNat < 128) :
    String.utf8EncodeChar c = [UInt8.ofNat c.toNat] := by
  have hle : c.val.toNat ≤ 127 := Nat.le_of_lt_succ h
  rw [String.utf8EncodeChar]
  simp only [if_pos hle]
  rfl

theorem utf8_ofList_of_lt {cs : List Char} (h : ∀ c ∈ cs, c.toNat < 128) :
    utf8 (String.ofList cs) = cs.map fun c => UInt8.ofNat c.toNat := by
  rw [utf8, String.toList_ofList]
  induction cs with
  | nil => rfl
  | cons c cs ih =>
    rw [List.forall_mem_cons] at h
    rw [List.flatMap_cons, utf8EncodeChar_of_lt h.1, ih h.2]
    rfl

/-! ## Decimal numbers -/

theorem toNat_of_isDigit {c : Char} (h : c.isDigit = true) : 48 ≤ c.toNat ∧ c.toNat ≤ 57 := by
  simpa [Char.isDigit, UInt32.le_iff_toNat_le] using h

theorem isDigit_of_mem_toDigits {n : Nat} : ∀ c ∈ Nat.toDigits 10 n, c.isDigit = true :=
  fun _ hc => Nat.isDigit_of_mem_toDigits (by decide) (by decide) hc

theorem foldl_eq_ofDigitChars (cs : List Char) (n : Nat) :
    cs.foldl (fun n c => n * 10 + (c.toNat - 0x30)) n = Nat.ofDigitChars 10 cs n := by
  rw [Nat.ofDigitChars_eq_foldl]
  congr 1
  funext n c
  rw [Nat.mul_comm]
  rfl

theorem foldl_toDigits (n : Nat) :
    (Nat.toDigits 10 n).foldl (fun n c => n * 10 + (c.toNat - 0x30)) 0 = n := by
  rw [foldl_eq_ofDigitChars, Nat.ofDigitChars_ten_toDigits]

/-- Zeros in front do not change a number. -/
theorem foldl_replicate_zero (count : Nat) (cs : List Char) :
    (List.replicate count '0' ++ cs).foldl (fun n c => n * 10 + (c.toNat - 0x30)) 0 =
      cs.foldl (fun n c => n * 10 + (c.toNat - 0x30)) 0 := by
  induction count with
  | zero => rfl
  | succ count ih => exact ih

end LightClient
