import LightClient.Proofs.Merkle.Layers
import Mathlib.Order.Bounds.Basic

/-!
Sizes of trees over the whole of 64 bits. Main statement: a number of leaves is rounded up to the
least power of two that reaches it, and to zero where 64 bits hold none; the exponent of that power
is how often a layer of so many leaves is halved.
-/

namespace LightClient.Merkle

open Merkle.Tree (parents length_parents layersFrom)

/-! ## Least powers of two -/

theorem isLeast_clog (n : Nat) : IsLeast {d | n ≤ 2 ^ d} (Nat.clog 2 n) :=
  ⟨Nat.le_pow_clog Nat.one_lt_two n, fun _ hd => Nat.clog_le_of_le_pow hd⟩

theorem isLeast_two_pow_clog (n : Nat) :
    IsLeast {p | (∃ d, p = 2 ^ d) ∧ n ≤ p} (2 ^ Nat.clog 2 n) := by
  refine ⟨⟨⟨_, rfl⟩, Nat.le_pow_clog Nat.one_lt_two n⟩, ?_⟩
  rintro _ ⟨⟨d, rfl⟩, hd⟩
  exact Nat.pow_le_pow_right Nat.two_pos (Nat.clog_le_of_le_pow hd)

/-- In 64 bits there is no power of two above 2 ^ 63. -/
theorem clog_eq_of_lt {n : UInt64} (h : 2 ^ 63 < n.toNat) : Nat.clog 2 n.toNat = 64 := by
  apply Nat.le_antisymm
  · exact Nat.clog_le_of_le_pow (Nat.le_of_lt n.toNat_lt)
  · exact (Nat.lt_clog_iff_pow_lt Nat.one_lt_two).mpr h

theorem ne_zero_of_lt {m : Nat} {n : UInt64} (h : m < n.toNat) : n ≠ 0 := by
  rintro rfl
  exact Nat.not_lt_zero m h

theorem isLeast_nextPowerOfTwo {n : UInt64} (h0 : 1 ≤ n.toNat) (hle : n.toNat ≤ 2 ^ 63) :
    IsLeast {p | (∃ d, p = 2 ^ d) ∧ n.toNat ≤ p} (nextPowerOfTwo n).toNat := by
  have hlt : 2 ^ Nat.clog 2 n.toNat < 2 ^ 64 :=
    Nat.pow_lt_pow_right Nat.one_lt_two (Nat.lt_succ_of_le (Nat.clog_le_of_le_pow hle))
  rw [toNat_nextPowerOfTwo (ne_zero_of_lt h0), Nat.mod_eq_of_lt hlt]
  exact isLeast_two_pow_clog n.toNat

theorem nextPowerOfTwo_zero : nextPowerOfTwo 0 = 0 := by decide

theorem nextPowerOfTwo_of_lt {n : UInt64} (h : 2 ^ 63 < n.toNat) : nextPowerOfTwo n = 0 := by
  apply UInt64.toNat_inj.mp
  rw [toNat_nextPowerOfTwo (ne_zero_of_lt h), clog_eq_of_lt h, Nat.mod_self]
  rfl

/-- More leaves make no tree less deep. -/
theorem maxDepth_mono {m n : UInt64} (h : m ≤ n) : maxDepth m ≤ maxDepth n := by
  by_cases hm : m = 0
  · rw [hm]
    exact Nat.zero_le _
  · have hle := UInt64.le_iff_toNat_le.mp h
    have hn : n ≠ 0 := by
      rintro rfl
      exact hm (UInt64.toNat_inj.mp (Nat.le_zero.mp hle))
    rw [maxDepth_eq hm, maxDepth_eq hn]
    exact Nat.succ_le_succ (Nat.clog_mono_right 2 hle)

/-! ## Rounds of halving -/

/-- Round by round the layer is halved to the last one, and each round finds more than one digest to
halve. -/
inductive Halved (half : List Digest → List Digest) : List Digest → Nat → List Digest → Prop
  | stop {layer : List Digest} (h : layer.length ≤ 1) : Halved half layer 0 layer
  | round {layer last : List Digest} {rounds : Nat} (h : 1 < layer.length)
    (hrest : Halved half (half layer) rounds last) : Halved half layer (rounds + 1) last

variable {layer last : List Digest} {rounds : Nat}

theorem Halved.eq_above (h : Halved parents layer rounds last) :
    rounds = Nat.clog 2 layer.length ∧ last = above rounds layer := by
  induction h with
  | stop h => exact ⟨(Nat.clog_of_right_le_one h 2).symm, rfl⟩
  | round h _ ih =>
    rw [length_parents] at ih
    exact ⟨by rw [clog_halve h, ← ih.1], ih.2⟩

theorem halved_above (layer : List Digest) :
    Halved parents layer (Nat.clog 2 layer.length) (above (Nat.clog 2 layer.length) layer) := by
  fun_induction layersFrom layer with
  | case1 layer h =>
    rw [Nat.clog_of_right_le_one h]
    exact .stop h
  | case2 layer h ih =>
    rw [clog_halve (by omega), ← length_parents]
    exact .round (by omega) ih

/-- The rounds end at the layer that stands above by the depth of the tree. -/
theorem halved_parents_iff : Halved parents layer rounds last ↔
    rounds = Nat.clog 2 layer.length ∧ last = above (Nat.clog 2 layer.length) layer := by
  constructor
  · intro h
    obtain ⟨rfl, hlast⟩ := h.eq_above
    exact ⟨rfl, hlast⟩
  · rintro ⟨rfl, rfl⟩
    exact halved_above layer

/-- As many rounds as leaves are never used up. -/
theorem halved_pairUp_iff : Halved (pairUp ∘ evenUp) layer rounds last ↔
    rounds = Nat.clog 2 layer.length ∧ last = halve layer.length layer := by
  have hhalf : pairUp ∘ evenUp = parents := funext pairUp_evenUp
  rw [hhalf, halved_parents_iff,
    halve_eq_above (Nat.clog_le_of_le_pow (Nat.le_of_lt Nat.lt_two_pow_self))]

/-- **Powers of two and depths are exact over the whole of 64 bits.** A number is rounded up to the
least power of two that is no less; zero, and the numbers above 2 ^ 63, for which 64 bits have none,
give zero. The depth of so many leaves is one more than the least exponent that reaches their
number, so 65 above 2 ^ 63, and zero for none; it grows with them. One less than the depth is how
often leaves are halved on the way to their root, and how often a tree that keeps its layers puts
another one above them. -/
theorem sizes_exact :
    (∀ n : UInt64,
      (1 ≤ n.toNat → n.toNat ≤ 2 ^ 63 →
        IsLeast {p | (∃ d, p = 2 ^ d) ∧ n.toNat ≤ p} (nextPowerOfTwo n).toNat) ∧
      (n = 0 ∨ 2 ^ 63 < n.toNat → nextPowerOfTwo n = 0) ∧
      (1 ≤ n.toNat → 1 ≤ maxDepth n ∧ IsLeast {d | n.toNat ≤ 2 ^ d} (maxDepth n - 1)) ∧
      (2 ^ 63 < n.toNat → maxDepth n = 65) ∧
      ∀ leaves : List Digest, 1 ≤ n.toNat → leaves.length = n.toNat →
        (∀ rounds last, Halved (pairUp ∘ evenUp) leaves rounds last ↔
          rounds = maxDepth n - 1 ∧ last = halve leaves.length leaves) ∧
        (∀ rounds last, Halved parents leaves rounds last ↔
          rounds = maxDepth n - 1 ∧ (Tree.ofLeaves leaves).layers.getLast? = some last) ∧
        (Tree.ofLeaves leaves).layers.length = 1 + (maxDepth n - 1)) ∧
    maxDepth 0 = 0 ∧ ∀ m n : UInt64, m ≤ n → maxDepth m ≤ maxDepth n := by
  refine ⟨fun n => ?_, rfl, fun m n => maxDepth_mono⟩
  have hdepth (h0 : 1 ≤ n.toNat) : maxDepth n = Nat.clog 2 n.toNat + 1 :=
    maxDepth_eq (ne_zero_of_lt h0)
  refine ⟨isLeast_nextPowerOfTwo, ?_, fun h0 => ?_, fun h => ?_, fun leaves h0 hlen => ?_⟩
  · rintro (rfl | h)
    · exact nextPowerOfTwo_zero
    · exact nextPowerOfTwo_of_lt h
  · rw [hdepth h0]
    exact ⟨Nat.succ_pos _, isLeast_clog n.toNat⟩
  · rw [hdepth (Nat.le_trans (by decide) (Nat.le_of_lt h)), clog_eq_of_lt h]
  · rw [hdepth h0, ← hlen, Nat.add_sub_cancel, Nat.add_comm 1]
    refine ⟨fun _ _ => halved_pairUp_iff, fun rounds last => ?_, length_layersFrom leaves⟩
    rw [halved_parents_iff, Tree.ofLeaves, getLast?_layersFrom, Option.some.injEq,
      eq_comm (a := last)]

/-- Five leaves are halved three times on the way to their root, and a number just above 2 ^ 63 has
no power of two. -/
theorem sizes_exact_five :
    let leaves : List Digest := [.zero, .hash [1], .zero, .hash [2], .hash [3]]
    let large : UInt64 := 0x8000000000000001
    leaves.length = (5 : UInt64).toNat ∧ IsLeast {p | (∃ d, p = 2 ^ d) ∧ 5 ≤ p} 8 ∧
      IsLeast {d | 5 ≤ 2 ^ d} 3 ∧ Halved (pairUp ∘ evenUp) leaves 3 (halve 5 leaves) ∧
      (Tree.ofLeaves leaves).layers.length = 4 ∧
      2 ^ 63 < large.toNat ∧ nextPowerOfTwo large = 0 ∧ maxDepth large = 65 := by
  intro leaves large
  have hdepth : maxDepth 5 - 1 = 3 := by decide
  have hnext : (nextPowerOfTwo 5).toNat = 8 := by decide
  obtain ⟨hpower, -, hexponent, -, hrounds⟩ := sizes_exact.1 5
  obtain ⟨-, hzero, -, hlarge, -⟩ := sizes_exact.1 large
  obtain ⟨hhalved, -, hlayers⟩ := hrounds leaves (by decide) rfl
  rw [hdepth] at hexponent hhalved hlayers
  rw [hnext] at hpower
  have hlt : 2 ^ 63 < large.toNat := by decide
  exact ⟨rfl, hpower (by decide) (by decide), (hexponent (by decide)).2,
    (hhalved 3 _).mpr ⟨rfl, rfl⟩, hlayers, hlt, hzero (.inr hlt), hlarge hlt⟩

end LightClient.Merkle
