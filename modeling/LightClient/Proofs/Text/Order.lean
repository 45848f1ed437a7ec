import LightClient.Proofs.Text.Basic
import Mathlib.Algebra.Ring.Nat
import Mathlib.Data.List.Lex
import Mathlib.Tactic.Tauto

/-!
The order of lists that spell numbers, and of texts by their bytes. Main statement: digits of one
width, the highest first, stand in the order of their numbers.
-/

namespace LightClient

/-! ## Parts of lists -/

section Lists

variable {α β : Type} [LT α] [LT β]

/-- First parts of one length decide, unless they are the same. -/
theorem append_lt_append_iff {as bs cs ds : List α} (h : as.length = bs.length) :
    as ++ cs < bs ++ ds ↔ as < bs ∨ as = bs ∧ cs < ds := by
  induction as generalizing bs with
  | nil =>
    obtain rfl := List.length_eq_zero_iff.mp h.symm
    simp
  | cons a as ih =>
    cases bs with
    | nil => exact nomatch h
    | cons b bs =>
      have hlength : as.length = bs.length := Nat.succ.inj h
      rw [List.cons_append, List.cons_append, List.cons_lt_cons_iff, List.cons_lt_cons_iff,
        ih hlength, List.cons.injEq]
      tauto

/-- A map that keeps the order of the items keeps that of the lists. -/
theorem map_lt_map_iff {f : α → β} {as bs : List α}
    (h : ∀ a ∈ as, ∀ b ∈ bs, (f a < f b ↔ a < b) ∧ (f a = f b ↔ a = b)) :
    as.map f < bs.map f ↔ as < bs := by
  induction as generalizing bs with
  | nil => cases bs <;> simp
  | cons a as ih =>
    cases bs with
    | nil => simp
    | cons b bs =>
      have hrest := ih fun a' ha' b' hb' =>
        h a' (List.mem_cons_of_mem _ ha') b' (List.mem_cons_of_mem _ hb')
      obtain ⟨hlt, heq⟩ := h a List.mem_cons_self b List.mem_cons_self
      rw [List.map_cons, List.map_cons, List.cons_lt_cons_iff, List.cons_lt_cons_iff, hrest, hlt,
        heq]

end Lists

/-! ## Zeros at the end -/

/-- Zeros stand before any list of their length that has something else at its end. -/
theorem zeros_lt_append {bs : List Nat} (hb : ∀ b ∈ bs.getLast?, b ≠ 0) (hne : bs ≠ [])
    (zeros : Nat) : List.replicate (bs.length + zeros) 0 < bs ++ List.replicate zeros 0 := by
  induction bs with
  | nil => exact absurd rfl hne
  | cons b bs ih =>
    rw [List.length_cons, Nat.add_right_comm, List.replicate_succ, List.cons_append,
      List.cons_lt_cons_iff]
    cases Nat.eq_zero_or_pos b with
    | inr hpos => exact .inl hpos
    | inl h0 =>
      cases bs with
      | nil => exact absurd h0 (hb b rfl)
      | cons b' bs => exact .inr ⟨h0.symm, ih hb (List.cons_ne_nil _ _)⟩

/-- Zeros that fill lists up to one length do not change their order. -/
theorem filled_lt_iff {as bs : List Nat} {k l : Nat} (ha : ∀ a ∈ as.getLast?, a ≠ 0)
    (hb : ∀ b ∈ bs.getLast?, b ≠ 0) (h : as.length + k = bs.length + l) :
    as ++ List.replicate k 0 < bs ++ List.replicate l 0 ↔ as < bs := by
  induction as generalizing bs with
  | nil =>
    cases bs with
    | nil =>
      obtain rfl : k = l := by simpa using h
      exact iff_of_false (List.lt_irrefl _) (List.lt_irrefl _)
    | cons b bs =>
      obtain rfl : k = (b :: bs).length + l := by simpa using h
      exact iff_of_true (zeros_lt_append hb (List.cons_ne_nil _ _) l) (List.nil_lt_cons ..)
  | cons a as ih =>
    cases bs with
    | nil =>
      obtain rfl : l = (a :: as).length + k := by simpa using h.symm
      exact iff_of_false (List.lt_asymm (zeros_lt_append ha (List.cons_ne_nil _ _) k))
        (List.not_lt_nil _)
    | cons b bs =>
      have htail {c : Nat} {cs : List Nat} (hc : ∀ x ∈ (c :: cs).getLast?, x ≠ 0) :
          ∀ x ∈ cs.getLast?, x ≠ 0 := by
        cases cs with
        | nil => exact fun _ hx => nomatch hx
        | cons c' cs => exact hc
      have hlength : as.length + k = bs.length + l := by
        rw [List.length_cons, List.length_cons] at h
        omega
      rw [List.cons_append, List.cons_append, List.cons_lt_cons_iff, List.cons_lt_cons_iff,
        ih (htail ha) (htail hb) hlength]

/-! ## Places -/

/-- The digits of a number to a base, the highest first. -/
def places (base : Nat) : Nat → Nat → List Nat
  | 0, _ => []
  | width + 1, n => places base width (n / base) ++ [n % base]

@[simp] theorem length_places (base width n : Nat) : (places base width n).length = width := by
  induction width generalizing n with
  | zero => rfl
  | succ width ih => rw [places, List.length_append, ih, List.length_singleton]

theorem lt_of_mem_places {base width n d : Nat} (hbase : 0 < base)
    (h : d ∈ places base width n) : d < base := by
  induction width generalizing n with
  | zero => exact absurd h List.not_mem_nil
  | succ width ih =>
    rcases List.mem_append.mp h with h | h
    · exact ih h
    · exact List.mem_singleton.mp h ▸ Nat.mod_lt n hbase

theorem lt_iff_div_mod (base m n : Nat) :
    m < n ↔ m / base < n / base ∨ m / base = n / base ∧ m % base < n % base := by
  have hm := Nat.div_add_mod m base
  have hn := Nat.div_add_mod n base
  rcases Nat.lt_trichotomy (m / base) (n / base) with hlt | heq | hgt
  · exact iff_of_true (Nat.lt_of_div_lt_div hlt) (.inl hlt)
  · rw [heq] at hm
    omega
  · have := Nat.lt_of_div_lt_div hgt
    omega

/-- Lists in the order of their numbers are different for different numbers. -/
theorem eq_of_lt_iff {as bs : List Nat} {m n : Nat} (h : as < bs ↔ m < n)
    (h' : bs < as ↔ n < m) (heq : as = bs) : m = n := by
  have hle := (not_congr h).mp (heq ▸ List.lt_irrefl _)
  have hge := (not_congr h').mp (heq ▸ List.lt_irrefl _)
  omega

/-- Digits of one width stand in the order of their numbers. -/
theorem places_lt_iff {base width m n : Nat} (hm : m < base ^ width) (hn : n < base ^ width) :
    places base width m < places base width n ↔ m < n := by
  induction width generalizing m n with
  | zero =>
    obtain rfl := Nat.lt_one_iff.mp hm
    obtain rfl := Nat.lt_one_iff.mp hn
    exact iff_of_false (List.lt_irrefl _) (Nat.lt_irrefl _)
  | succ width ih =>
    have hm' : m / base < base ^ width :=
      Nat.div_lt_of_lt_mul (by rwa [Nat.mul_comm, ← Nat.pow_succ])
    have hn' : n / base < base ^ width :=
      Nat.div_lt_of_lt_mul (by rwa [Nat.mul_comm, ← Nat.pow_succ])
    have heq : places base width (m / base) = places base width (n / base) ↔
        m / base = n / base := ⟨eq_of_lt_iff (ih hm' hn') (ih hn' hm'), congrArg _⟩
    rw [places, places, append_lt_append_iff (by simp), ih hm' hn', heq, List.cons_lt_cons_iff,
      lt_iff_div_mod base m n]
    simp

theorem places_inj {base width m n : Nat} (hm : m < base ^ width) (hn : n < base ^ width) :
    places base width m = places base width n ↔ m = n :=
  ⟨eq_of_lt_iff (places_lt_iff hm hn) (places_lt_iff hn hm), congrArg _⟩

/-! ## Texts -/

/-- Texts of characters below 128 stand in the order of their bytes. -/
theorem utf8_lt_utf8_iff {cs cs' : List Char} (h : ∀ c ∈ cs, c.toNat < 128)
    (h' : ∀ c ∈ cs', c.toNat < 128) :
    utf8 (String.ofList cs) < utf8 (String.ofList cs') ↔ cs < cs' := by
  rw [utf8_ofList_of_lt h, utf8_ofList_of_lt h']
  refine map_lt_map_iff fun c hc c' hc' => ?_
  have hlt := h c hc
  have hlt' := h' c' hc'
  have hbyte {c : Char} (hc : c.toNat < 128) : (UInt8.ofNat c.toNat).toNat = c.toNat :=
    UInt8.toNat_ofNat_of_lt' (by rw [UInt8.size]; omega)
  rw [UInt8.lt_iff_toNat_lt, ← UInt8.toNat_inj, hbyte hlt, hbyte hlt']
  exact ⟨UInt32.lt_iff_toNat_lt.symm, Char.toNat_inj⟩

end LightClient
