import LightClient.Proofs.Merkle.Growth

/-!
The nodes that an accumulator gives by layer. Main statement: after any leaves it has a node in just
the layers that stand for a one bit of their number, which is the root of the block of leaves at
that bit, and in the highest layer, which is the root of them all.
-/

namespace LightClient.Merkle.Accumulator

/-- Without the one that stands for an odd digest, the peaks of a layer are those of the next. -/
theorem drop_peaks (layer rest : List Digest) :
    (if layer.length % 2 = 1 then (peaks layer ++ rest).drop 1 else peaks layer ++ rest) =
      peaks (pairUp layer) ++ rest := by
  cases Nat.mod_two_eq_zero_or_one layer.length with
  | inl heven => rw [if_neg (by omega), peaks_of_even heven]
  | inr hodd =>
    obtain ⟨init, last, hinit, rfl⟩ := exists_concat_of_odd hodd
    rw [if_pos hodd, peaks_concat hinit, pairUp_concat hinit]
    rfl

/-- A walk up the bits of the number of leaves has before it the peaks of the layer that it is on,
so at a one bit it stands before the root of the block at that bit. -/
theorem nodeFrom_peaks {levels current level : Nat} {layer : List Digest} (h : level < levels)
    (rest : List Digest) :
    nodeFrom (current + level) levels current layer.length (peaks layer ++ rest) =
      if layer.length.testBit level then some (Merkle.root (block layer level)) else none := by
  induction levels generalizing current level layer with
  | zero => exact absurd h (Nat.not_lt_zero level)
  | succ levels ih =>
    rw [nodeFrom]
    cases level with
    | zero =>
      rw [if_pos (Nat.add_zero current).symm, Nat.testBit_zero]
      cases Nat.mod_two_eq_zero_or_one layer.length with
      | inl heven => simp [heven]
      | inr hodd =>
        obtain ⟨init, last, hinit, rfl⟩ := exists_concat_of_odd hodd
        rw [root_block_zero hinit, peaks_concat hinit]
        simp
    | succ level =>
      have habove := @ih (current + 1) level (pairUp layer) (Nat.lt_of_succ_lt_succ h)
      have hlayer : current + (level + 1) = current + 1 + level := by omega
      rw [if_neg (by omega), drop_peaks, ← length_pairUp, hlayer, habove, Nat.testBit_succ,
        length_pairUp]
      split
      · next hbit => rw [root_block_succ hbit]
      · rfl

variable {leaves : List Digest} {layer : Nat}

/-- Below the highest layer a node is looked for at the bit of its layer. -/
theorem nodeAtLayer_holding (hsize : leaves.length < UInt64.size) (h1 : 1 ≤ layer)
    (hlt : layer < maxDepth (UInt64.ofNat leaves.length)) :
    (holding leaves).nodeAtLayer layer =
      if leaves.length.testBit (layer - 1) then .ok (Merkle.root (block leaves (layer - 1)))
      else .error (.misuse (.noNode layer leaves.length)) := by
  obtain ⟨rest, hrest⟩ := exists_frontier_eq leaves
  have h0 : UInt64.ofNat leaves.length ≠ 0 := by
    intro h0
    rw [h0] at hlt
    exact Nat.not_lt_zero layer hlt
  have hinside : ¬ (layer < 1 ∨ maxDepth (UInt64.ofNat leaves.length) < layer) := by omega
  have hwalk := @nodeFrom_peaks (maxDepth (UInt64.ofNat leaves.length) - 1) 1 (layer - 1) leaves
    (by omega) rest
  rw [Nat.add_sub_cancel' h1, ← hrest] at hwalk
  simp only [nodeAtLayer, holding, if_neg h0, if_neg hinside, if_neg (Nat.ne_of_lt hlt),
    UInt64.toNat_ofNat_of_lt' hsize, hwalk]
  cases leaves.length.testBit (layer - 1) <;> rfl

/-- The highest layer has the root. -/
theorem nodeAtLayer_maxDepth (hsize : leaves.length < UInt64.size) (hne : leaves ≠ []) :
    (holding leaves).nodeAtLayer (maxDepth (UInt64.ofNat leaves.length)) =
      .ok (Merkle.root leaves) := by
  have h0 : UInt64.ofNat leaves.length ≠ 0 := by
    rw [Ne, ← UInt64.toNat_inj, UInt64.toNat_ofNat_of_lt' hsize]
    exact mt List.length_eq_zero_iff.mp hne
  have hinside : ¬ (maxDepth (UInt64.ofNat leaves.length) < 1 ∨
      maxDepth (UInt64.ofNat leaves.length) < maxDepth (UInt64.ofNat leaves.length)) := by
    rw [maxDepth_eq h0]
    omega
  rw [← root_holding hsize]
  simp only [nodeAtLayer, holding, if_neg h0, if_neg hinside, if_true]

/-- A layer outside of the tree is refused. -/
theorem nodeAtLayer_outside {acc : Accumulator} (h : layer < 1 ∨ maxDepth acc.leafCount < layer) :
    ∃ why, acc.nodeAtLayer layer = .error (.misuse why) := by
  by_cases h0 : acc.leafCount = 0
  · simp only [nodeAtLayer, if_pos h0]
    exact ⟨_, rfl⟩
  · simp only [nodeAtLayer, if_neg h0, if_pos h]
    exact ⟨_, rfl⟩

/-- **The node of a layer is the root of a block of leaves.** After leaves within the capacity were
appended, the highest layer has the root of them all. A layer below has a node just if the bit that
stands for it is set in the number of leaves: the root of as many leaves as a full subtree of the
layer covers, which start at the largest multiple of twice their number. Nothing else is asked of
the node, which may be the zero digest. All other layers are refused, and so is every layer of no
leaves. -/
theorem nodeAtLayer_eq_block_root (leaves : List Digest) (h : leaves.length ≤ 2 ^ 63) :
    ∃ acc, empty.appendAll leaves = (acc, .ok ()) ∧ ∀ layer,
      let count := leaves.length
      let depth := maxDepth (UInt64.ofNat count)
      let covered := (leaves.drop (count >>> layer <<< layer)).take (2 ^ (layer - 1))
      (leaves ≠ [] → layer = depth → acc.nodeAtLayer layer = .ok (Merkle.root leaves)) ∧
      (1 ≤ layer → layer < depth → count.testBit (layer - 1) = true →
        covered.length = 2 ^ (layer - 1) ∧ acc.nodeAtLayer layer = .ok (Merkle.root covered)) ∧
      (¬ (leaves ≠ [] ∧ layer = depth) →
        ¬ (1 ≤ layer ∧ layer < depth ∧ count.testBit (layer - 1) = true) →
        ∃ why, acc.nodeAtLayer layer = .error (.misuse why)) := by
  rw [← toNat_maxLeafCount] at h
  have hsize : leaves.length < UInt64.size := Nat.lt_of_le_of_lt h maxLeafCount.toNat_lt
  refine ⟨holding leaves, appendAll_empty h, fun layer => ?_⟩
  intro count depth covered
  refine ⟨fun h0 htop => ?_, fun h1 hlt hbit => ?_, fun htop hbelow => ?_⟩
  · rw [htop]
    exact nodeAtLayer_maxDepth hsize h0
  · have hcovered : covered = block leaves (layer - 1) := by
      rw [block, Nat.sub_add_cancel h1]
    rw [nodeAtLayer_holding hsize h1 hlt, if_pos hbit, hcovered]
    exact ⟨length_block hbit, rfl⟩
  · by_cases hinside : 1 ≤ layer ∧ layer < depth
    · rw [nodeAtLayer_holding hsize hinside.1 hinside.2,
        if_neg fun hbit => hbelow ⟨hinside.1, hinside.2, hbit⟩]
      exact ⟨_, rfl⟩
    · apply nodeAtLayer_outside
      change layer < 1 ∨ depth < layer
      by_cases h0 : leaves = []
      · subst h0
        have hdepth : depth = 0 := rfl
        omega
      · have hne : layer ≠ depth := fun heq => htop ⟨h0, heq⟩
        omega

/-- Of five leaves the last one, though it is the zero digest, and the first four have nodes. -/
theorem nodeAtLayer_eq_block_root_five :
    let leaves : List Digest := [.hash [1], .hash [2], .hash [3], .hash [4], .zero]
    leaves.length ≤ 2 ^ 63 ∧ ∃ acc, empty.appendAll leaves = (acc, .ok ()) ∧
      acc.nodeAtLayer 1 = .ok .zero ∧
      acc.nodeAtLayer 3 = .ok (Merkle.root [.hash [1], .hash [2], .hash [3], .hash [4]]) ∧
      acc.nodeAtLayer 4 = .ok (Merkle.root leaves) ∧
      ∀ layer ∈ [0, 2, 5], ∃ why, acc.nodeAtLayer layer = .error (.misuse why) := by
  intro leaves
  have hcap : leaves.length ≤ 2 ^ 63 := by decide
  have hne : leaves ≠ [] := List.cons_ne_nil _ _
  have hdepth : maxDepth (UInt64.ofNat leaves.length) = 4 := by decide
  have hlast : (leaves.drop (leaves.length >>> 1 <<< 1)).take (2 ^ (1 - 1)) = [.zero] := by
    simp [leaves]
  have hfirst : (leaves.drop (leaves.length >>> 3 <<< 3)).take (2 ^ (3 - 1)) =
      [.hash [1], .hash [2], .hash [3], .hash [4]] := by
    simp [leaves]
  obtain ⟨acc, hacc, hnodes⟩ := nodeAtLayer_eq_block_root leaves hcap
  simp only [hdepth] at hnodes
  obtain ⟨-, hone⟩ := (hnodes 1).2.1 (by decide) (by decide) (by decide)
  obtain ⟨-, hthree⟩ := (hnodes 3).2.1 (by decide) (by decide) (by decide)
  rw [hlast] at hone
  rw [hfirst] at hthree
  refine ⟨hcap, acc, hacc, hone, hthree, (hnodes 4).1 hne rfl, fun layer hlayer => ?_⟩
  have hother : layer ≠ 4 ∧ ¬ (1 ≤ layer ∧ layer < 4 ∧ (5 : Nat).testBit (layer - 1) = true) := by
    revert hlayer layer
    decide
  exact (hnodes layer).2.2 (fun htop => hother.1 htop.2) hother.2

end LightClient.Merkle.Accumulator
