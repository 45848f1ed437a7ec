import LightClient.Block.AccountName
import LightClient.Proofs.Except
import LightClient.Proofs.Text.Basic
import Mathlib.Algebra.Ring.Nat
import Mathlib.Data.List.Basic
import Mathlib.Data.List.GetD
import Mathlib.Data.List.TakeWhile

/-!
The text of an account name is read back as the same name. Main statement:
`AccountName.ofText_text`.
-/

namespace LightClient.AccountName

/-! ## Digits -/

theorem length_base32 (width n : Nat) : (base32 width n).length = width := by
  induction width generalizing n with
  | zero => rfl
  | succ width ih => rw [base32, List.length_append, ih, List.length_singleton]

theorem lt_of_mem_base32 {width n d : Nat} (h : d ∈ base32 width n) : d < 32 := by
  induction width generalizing n with
  | zero => exact absurd h List.not_mem_nil
  | succ width ih =>
    rcases List.mem_append.mp h with h | h
    · exact ih h
    · exact List.mem_singleton.mp h ▸ Nat.mod_lt n (by decide)

theorem ofBase32_base32 {width n : Nat} (h : n < 32 ^ width) : ofBase32 (base32 width n) = n := by
  induction width generalizing n with
  | zero => exact (Nat.lt_one_iff.mp h).symm
  | succ width ih =>
    have hdiv : n / 32 < 32 ^ width := Nat.div_lt_of_lt_mul (by rwa [Nat.mul_comm, ← Nat.pow_succ])
    have hfold : ofBase32 (base32 (width + 1) n) = ofBase32 (base32 width (n / 32)) * 32 + n % 32 :=
      List.foldl_concat ..
    rw [hfold, ih hdiv, Nat.div_add_mod']

theorem length_unpack13 (n : Nat) : (unpack13 n).length = 13 := by
  rw [unpack13, List.length_append, length_base32, List.length_singleton]

theorem lt_of_mem_unpack13 {n d : Nat} (h : d ∈ unpack13 n) : d < 32 := by
  rcases List.mem_append.mp h with h | h
  · exact lt_of_mem_base32 h
  · rw [List.mem_singleton.mp h]
    omega

theorem getD_unpack13 (n : Nat) : (unpack13 n).getD 12 0 = n % 16 := by
  rw [unpack13, List.getD_append_right _ _ _ _ (Nat.le_of_eq (length_base32 ..)), length_base32]
  rfl

/-- Zeros at the end stand for themselves. -/
theorem pack13_of_unpack13 {n zeros : Nat} {kept : List Nat} (hn : n < 2 ^ 64)
    (h : unpack13 n = kept ++ List.replicate zeros 0) : pack13 kept = n := by
  have hlength : kept.length + zeros = 13 := by
    rw [← length_unpack13 n, h, List.length_append, List.length_replicate]
  have hzeros : 13 - kept.length = zeros := by omega
  have htake : (unpack13 n).take 12 = base32 12 (n / 16) :=
    List.take_left' (length_base32 12 _)
  rw [pack13, hzeros, ← h]
  simp only [htake, getD_unpack13]
  rw [ofBase32_base32 (by omega), Nat.div_add_mod']

/-! ## Characters -/

theorem toNat_symbolChar {n : Nat} (h : n < 32) :
    (symbolChar n).toNat < 128 ∧ symbol? (UInt8.ofNat (symbolChar n).toNat) = some n := by
  have hall : ∀ n : Fin 32, (symbolChar n).toNat < 128 ∧
      symbol? (UInt8.ofNat (symbolChar n).toNat) = some n.val := by decide
  exact hall ⟨n, h⟩

theorem symbolChar_eq_dot {n : Nat} (h : n < 32) (hdot : symbolChar n = '.') : n = 0 := by
  have hall : ∀ n : Fin 32, symbolChar n = '.' → n.val = 0 := by decide
  exact hall ⟨n, h⟩ hdot

/-- The text of a name shows its symbols up to the zeros at their end. -/
theorem text_eq (name : AccountName) : ∃ kept zeros,
    unpack13 name.value.toNat = kept ++ List.replicate zeros 0 ∧
      name.text = String.ofList (kept.map symbolChar) := by
  let shown (n : Nat) : Bool := symbolChar n = '.'
  let digits := unpack13 name.value.toNat
  have hzeros : digits.reverse.takeWhile shown =
      List.replicate (digits.reverse.takeWhile shown).length 0 := by
    refine List.eq_replicate_iff.mpr ⟨rfl, fun d hd => ?_⟩
    have hmem : d ∈ digits := List.mem_reverse.mp ((List.takeWhile_prefix _).subset hd)
    have hdot : shown d = true := List.mem_takeWhile_imp hd
    exact symbolChar_eq_dot (lt_of_mem_unpack13 hmem) (of_decide_eq_true hdot)
  refine ⟨(digits.reverse.dropWhile shown).reverse, (digits.reverse.takeWhile shown).length, ?_, ?_⟩
  · have hsplit : digits.reverse.takeWhile shown ++ digits.reverse.dropWhile shown =
        digits.reverse := List.takeWhile_append_dropWhile
    rw [← List.reverse_inj, List.reverse_append, List.reverse_reverse, List.reverse_replicate,
      ← hzeros]
    exact hsplit.symm
  · rw [text, dropDots, ← List.map_reverse, List.dropWhile_map, ← List.map_reverse]
    rfl

/-- A text of symbols is read as these symbols. -/
theorem symbols_ofList {kept : List Nat} (hlt : ∀ d ∈ kept, d < 32) (hlength : kept.length ≤ 13)
    (hlast : kept.getD 12 0 ≤ 15) : symbols (String.ofList (kept.map symbolChar)) = .ok kept := by
  have hutf8 : utf8 (String.ofList (kept.map symbolChar)) =
      kept.map fun d => UInt8.ofNat (symbolChar d).toNat := by
    rw [utf8_ofList_of_lt, List.map_map]
    · rfl
    · intro c hc
      obtain ⟨d, hd, rfl⟩ := List.mem_map.mp hc
      exact (toNat_symbolChar (hlt d hd)).1
  rw [symbols, hutf8]
  simp only [List.length_map, List.mapM_map, if_neg (Nat.not_lt.mpr hlength)]
  rw [mapM_eq_ok (g := id)]
  · rw [List.map_id]
    exact if_neg (Nat.not_lt.mpr hlast)
  · intro d hd
    simp only [Function.comp_apply, (toNat_symbolChar (hlt d hd)).2, id]

/-- Zeros at the end are there even where they are not written. -/
theorem getD_append_zeros (ds : List Nat) (zeros i : Nat) :
    (ds ++ List.replicate zeros 0).getD i 0 = ds.getD i 0 := by
  rcases Nat.lt_or_ge i ds.length with hlt | hge
  · rw [List.getD_append _ _ _ _ hlt]
  · rw [List.getD_append_right _ _ _ _ hge, List.getD_eq_default _ _ hge,
      List.getD_eq_getElem?_getD, List.getElem?_replicate]
    split <;> rfl

/-- The thirteenth symbol is there for a name, even where its text does not show it. -/
theorem getD_kept {n zeros : Nat} {kept : List Nat}
    (h : unpack13 n = kept ++ List.replicate zeros 0) : kept.getD 12 0 = n % 16 := by
  rw [← getD_unpack13 n, h, getD_append_zeros]

/-- A name is read back from its text. -/
theorem ofText_text (name : AccountName) : ofText name.text = .ok name := by
  obtain ⟨kept, zeros, hdigits, htext⟩ := text_eq name
  have hlt : ∀ d ∈ kept, d < 32 := fun d hd =>
    lt_of_mem_unpack13 (hdigits ▸ List.mem_append_left _ hd)
  have hlength : kept.length ≤ 13 := by
    rw [← length_unpack13 name.value.toNat, hdigits, List.length_append]
    exact Nat.le_add_right ..
  have hlast : kept.getD 12 0 ≤ 15 := by
    rw [getD_kept hdigits]
    omega
  rw [ofText, htext, symbols_ofList hlt hlength hlast]
  simp only [pack13_of_unpack13 name.value.toNat_lt hdigits, UInt64.ofNat_toNat]

theorem text_inj {name name' : AccountName} : name.text = name'.text ↔ name = name' := by
  refine ⟨fun h => ?_, congrArg text⟩
  have hread := ofText_text name
  rw [h, ofText_text] at hread
  exact (Except.ok.inj hread).symm

theorem slash_not_mem_text (name : AccountName) : '/' ∉ name.text.toList := by
  obtain ⟨kept, zeros, hdigits, htext⟩ := text_eq name
  have hall : ∀ n : Fin 32, symbolChar n ≠ '/' := by decide
  rw [htext, String.toList_ofList]
  intro hmem
  obtain ⟨d, hd, hslash⟩ := List.mem_map.mp hmem
  exact hall ⟨d, lt_of_mem_unpack13 (hdigits ▸ List.mem_append_left _ hd)⟩ hslash

end LightClient.AccountName
