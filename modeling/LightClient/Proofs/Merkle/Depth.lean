import LightClient.Merkle.Depth
import Mathlib.Data.Nat.Log
import Mathlib.Tactic.Ring

/-!
The depth of a tree in 64 bits. Main statement: above its leaves a tree has as many layers as the
least power of two that is no less than the number of leaves has zero bits.
-/

namespace LightClient.Merkle

/-- Each bit of `v` says whether one of `k` bits of `x` from its place on is set. -/
def Smeared (k x v : Nat) : Prop :=
  ∀ i, v.testBit i = true ↔ ∃ j, i ≤ j ∧ j < i + k ∧ x.testBit j = true

theorem Smeared.one (x : Nat) : Smeared 1 x x := by
  intro i
  constructor
  · exact fun h => ⟨i, by omega, by omega, h⟩
  · rintro ⟨j, h1, h2, h3⟩
    rwa [show i = j by omega]

theorem Smeared.double {k x v : Nat} (h : Smeared k x v) : Smeared (k + k) x (v ||| v >>> k) := by
  intro i
  rw [Nat.testBit_or, Nat.testBit_shiftRight, Bool.or_eq_true, h i, h (k + i)]
  constructor
  · rintro (⟨j, h1, h2, h3⟩ | ⟨j, h1, h2, h3⟩)
    · exact ⟨j, h1, by omega, h3⟩
    · exact ⟨j, by omega, by omega, h3⟩
  · rintro ⟨j, h1, h2, h3⟩
    by_cases hj : j < i + k
    · exact .inl ⟨j, h1, hj, h3⟩
    · exact .inr ⟨j, by omega, by omega, h3⟩

/-- When a number of no more than `k` bits is smeared over `k` places, just the bits above all of
its own stay clear. -/
theorem Smeared.eq_two_pow {k x v d : Nat} (h : Smeared k x v) (hx : x < 2 ^ k)
    (hd : ∀ i, i < d ↔ 2 ^ i ≤ x) : v = 2 ^ d - 1 := by
  apply Nat.eq_of_testBit_eq
  intro i
  rw [Bool.eq_iff_iff, h i, Nat.testBit_two_pow_sub_one, decide_eq_true_eq, hd]
  constructor
  · rintro ⟨j, h1, -, h3⟩
    exact Nat.le_trans (Nat.pow_le_pow_right Nat.two_pos h1) (Nat.ge_two_pow_of_testBit h3)
  · intro hi
    obtain ⟨j, h1, h3⟩ := Nat.exists_ge_and_testBit_of_ge_two_pow hi
    refine ⟨j, h1, ?_, h3⟩
    have : j < k := by
      rw [← Nat.pow_lt_pow_iff_right (a := 2) Nat.one_lt_two]
      exact Nat.lt_of_le_of_lt (Nat.ge_two_pow_of_testBit h3) hx
    omega

/-- Rounding up gives the least power of two that is no less; from 2 ^ 63 on up it is one that 64
bits do not hold, and its lowest bits are zero. -/
theorem toNat_nextPowerOfTwo {n : UInt64} (hn : n ≠ 0) :
    (nextPowerOfTwo n).toNat = 2 ^ Nat.clog 2 n.toNat % 2 ^ 64 := by
  have hpos : n.toNat ≠ 0 := fun h => hn (UInt64.toNat_inj.mp h)
  have hsub : (n - 1).toNat = n.toNat - 1 := by
    rw [UInt64.toNat_sub_of_le _ _ (UInt64.le_iff_toNat_le.mpr (by simp; omega))]
    rfl
  have step {k : Nat} {v : UInt64} (w : UInt64) (h : Smeared k (n - 1).toNat v.toNat)
      (hw : w.toNat = k) (hk : k < 64) :
      Smeared (k + k) (n - 1).toNat (v ||| (v >>> w)).toNat := by
    rw [UInt64.toNat_or, UInt64.toNat_shiftRight, hw, Nat.mod_eq_of_lt hk]
    exact h.double
  have h := step 32 (step 16 (step 8 (step 4 (step 2 (step 1 (.one _) rfl (by decide))
    rfl (by decide)) rfl (by decide)) rfl (by decide)) rfl (by decide)) rfl (by decide)
  have hd (i : Nat) : i < Nat.clog 2 n.toNat ↔ 2 ^ i ≤ (n - 1).toNat := by
    rw [Nat.lt_clog_iff_pow_lt Nat.one_lt_two, hsub]
    omega
  have heq := h.eq_two_pow (n - 1).toNat_lt hd
  rw [nextPowerOfTwo, UInt64.toNat_add, heq, UInt64.toNat_one,
    Nat.sub_add_cancel Nat.one_le_two_pow]

/-- The only one bit of a power of two is found at its place. -/
theorem trailingZeros_of_two_pow {n : UInt64} {d : Nat} (hd : d < 64) (h : n.toNat = 2 ^ d) :
    trailingZeros n = d := by
  have hfind : (List.range 64).find? n.toNat.testBit = some d := by
    rw [List.find?_range_eq_some]
    refine ⟨by rw [h, Nat.testBit_two_pow_self], List.mem_range.mpr hd, fun j hj => ?_⟩
    rw [h, Nat.testBit_two_pow_of_ne (by omega)]
    rfl
  rw [trailingZeros, hfind]
  rfl

theorem trailingZeros_zero : trailingZeros 0 = 64 := by decide

/-- A tree has a layer of leaves, and one more for every doubling that reaches their number. -/
theorem maxDepth_eq {n : UInt64} (hn : n ≠ 0) : maxDepth n = Nat.clog 2 n.toNat + 1 := by
  have h := toNat_nextPowerOfTwo hn
  have hle : Nat.clog 2 n.toNat ≤ 64 :=
    Nat.clog_le_of_le_pow (Nat.le_of_lt n.toNat_lt)
  rw [maxDepth, if_neg hn]
  congr 1
  cases Nat.lt_or_eq_of_le hle with
  | inl hlt =>
    rw [Nat.mod_eq_of_lt (Nat.pow_lt_pow_right Nat.one_lt_two hlt)] at h
    exact trailingZeros_of_two_pow hlt h
  | inr heq =>
    rw [heq, Nat.mod_self] at h
    have hzero : nextPowerOfTwo n = 0 := UInt64.toNat_inj.mp h
    rw [hzero, trailingZeros_zero, heq]

/-- Above its leaves a tree has one layer for every doubling that reaches their number. -/
theorem maxDepth_ofNat_sub_one {n : Nat} (h : n < UInt64.size) :
    maxDepth (UInt64.ofNat n) - 1 = Nat.clog 2 n := by
  have hn : (UInt64.ofNat n).toNat = n := UInt64.toNat_ofNat_of_lt' h
  by_cases h0 : UInt64.ofNat n = 0
  · rw [h0] at hn ⊢
    rw [← hn]
    rfl
  · rw [maxDepth_eq h0, hn, Nat.add_sub_cancel]

theorem toNat_maxLeafCount : maxLeafCount.toNat = 2 ^ 63 := rfl

/-- Above a layer of at least two digests there is one of half as many, rounded up. -/
theorem clog_halve {n : Nat} (hn : 2 ≤ n) : Nat.clog 2 n = Nat.clog 2 ((n + 1) / 2) + 1 :=
  Nat.clog_of_two_le Nat.one_lt_two hn

theorem le_one_of_clog_eq_zero {n : Nat} (h : Nat.clog 2 n = 0) : n ≤ 1 := by
  rw [← Nat.pow_zero 2, ← Nat.clog_le_iff_le_pow Nat.one_lt_two]
  exact Nat.le_of_eq h

/-- A tree with a layer above its leaves has at least two of them, and no more than fill it. -/
theorem bounds_of_clog_eq_succ {n levels : Nat} (h : Nat.clog 2 n = levels + 1) :
    2 ≤ n ∧ n ≤ 2 ^ levels * 2 := by
  constructor
  · by_contra hn
    rw [Nat.clog_of_right_le_one (by omega)] at h
    exact absurd h (Nat.succ_ne_zero levels).symm
  · rw [← Nat.pow_succ, ← Nat.clog_le_iff_le_pow Nat.one_lt_two]
    exact Nat.le_of_eq h

end LightClient.Merkle
