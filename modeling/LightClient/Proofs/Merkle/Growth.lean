import LightClient.Merkle.Accumulator
import LightClient.Proofs.Merkle.Layers
import Mathlib.Data.Nat.BitIndices

/-!
What an accumulator holds. Main statement: after any leaves, its frontier consists of the roots of
the full subtrees over them, one for each one bit of their number, and of the root of them all.
-/

namespace LightClient.Merkle

open Merkle.Tree (parents length_parents)

/-! ## Layers with one more digest -/

theorem evenUp_append {layer : List Digest} (h : layer.length % 2 = 0) (rest : List Digest) :
    evenUp (layer ++ rest) = layer ++ evenUp rest := by
  simp only [evenUp, List.length_append]
  rw [show (layer.length + rest.length) % 2 = rest.length % 2 by omega]
  split
  · next hodd =>
    have hne : rest ≠ [] := by
      rintro rfl
      simp at hodd
    rw [List.getLast?_append_of_ne_nil _ hne, List.append_assoc]
  · rfl

theorem parents_append {layer : List Digest} (h : layer.length % 2 = 0) (rest : List Digest) :
    parents (layer ++ rest) = pairUp layer ++ parents rest := by
  rw [← pairUp_evenUp, evenUp_append h, pairUp_append h, pairUp_evenUp]

/-- A layer of odd length is one of even length with one more digest. -/
theorem exists_concat_of_odd {layer : List Digest} (h : layer.length % 2 = 1) :
    ∃ init last, init.length % 2 = 0 ∧ layer = init ++ [last] := by
  have hne : layer ≠ [] := by
    rintro rfl
    simp at h
  refine ⟨layer.dropLast, layer.getLast hne, ?_, (List.dropLast_append_getLast hne).symm⟩
  rw [List.length_dropLast]
  omega

/-- The parents of a layer of even length with one more digest, which is its own neighbour. -/
theorem parents_concat {layer : List Digest} (h : layer.length % 2 = 0) (d : Digest) :
    parents (layer ++ [d]) = pairUp layer ++ [d.pair d] :=
  parents_append h [d]

/-- The parents of a layer of even length with two more digests. -/
theorem parents_concat_concat {layer : List Digest} (h : layer.length % 2 = 0) (l d : Digest) :
    parents (layer ++ [l] ++ [d]) = pairUp layer ++ [l.pair d] := by
  rw [List.append_assoc]
  exact parents_append h [l, d]

/-- A last digest without a neighbour is left out of the pairs. -/
theorem pairUp_concat {layer : List Digest} (h : layer.length % 2 = 0) (d : Digest) :
    pairUp (layer ++ [d]) = pairUp layer := by
  rw [pairUp_append h]
  exact List.append_nil _

theorem length_pairUp_concat {layer : List Digest} (h : layer.length % 2 = 0) (d : Digest) :
    (pairUp layer).length = (layer ++ [d]).length / 2 := by
  rw [← length_pairUp, pairUp_concat h]

theorem length_pairUp_lt {layer : List Digest} {levels : Nat}
    (h : layer.length < 2 ^ (levels + 1)) : (pairUp layer).length < 2 ^ levels := by
  rw [Nat.pow_succ] at h
  rw [length_pairUp]
  omega

/-! ## Peaks -/

/-- The roots of the full subtrees over a layer, smallest first: the last digest if it has no
neighbour, and then the peaks of the layer of the pairs. -/
def peaks (layer : List Digest) : List Digest :=
  if layer = [] then []
  else (if layer.length % 2 = 1 then layer.getLast?.toList else []) ++ peaks (pairUp layer)
termination_by layer.length
decreasing_by
  have := List.length_pos_iff.mpr ‹_›
  rw [length_pairUp]
  omega

theorem peaks_of_even {layer : List Digest} (h : layer.length % 2 = 0) :
    peaks layer = peaks (pairUp layer) := by
  cases layer with
  | nil => rfl
  | cons a rest => rw [peaks, if_neg (List.cons_ne_nil a rest), if_neg (by omega), List.nil_append]

theorem peaks_concat {layer : List Digest} (h : layer.length % 2 = 0) (d : Digest) :
    peaks (layer ++ [d]) = d :: peaks (pairUp layer) := by
  have hodd : (layer ++ [d]).length % 2 = 1 := by
    rw [List.length_append, List.length_singleton]
    omega
  rw [peaks, if_neg (by simp), if_pos hodd, pairUp_concat h, List.getLast?_concat]
  rfl

/-- The part of a list of leaves that its last full subtree of so many levels covers, where there
is one: the leaves from the largest number below that is a multiple of `2 ^ (level + 1)` on. -/
def block (leaves : List Digest) (level : Nat) : List Digest :=
  (leaves.drop (leaves.length >>> (level + 1) <<< (level + 1))).take (2 ^ level)

theorem pairUp_block (leaves : List Digest) (level : Nat) :
    pairUp (block leaves (level + 1)) = block (pairUp leaves) level := by
  have hstart : leaves.length >>> (level + 1 + 1) <<< (level + 1 + 1) =
      2 * ((leaves.length / 2) >>> (level + 1) <<< (level + 1)) := by
    simp only [Nat.shiftRight_eq_div_pow, Nat.shiftLeft_eq]
    rw [Nat.div_div_eq_div_mul, ← Nat.pow_succ', Nat.pow_succ' (n := level + 1)]
    ring
  rw [block, block, hstart, Nat.pow_succ', pairUp_take, pairUp_drop, length_pairUp]

theorem length_block {leaves : List Digest} {level : Nat}
    (h : leaves.length.testBit level = true) : (block leaves level).length = 2 ^ level := by
  have hbit : leaves.length / 2 ^ level % 2 = 1 := by
    simpa [Nat.testBit_eq_decide_div_mod_eq] using h
  have hrest : leaves.length % 2 ^ (level + 1) = leaves.length % 2 ^ level + 2 ^ level * 1 := by
    rw [Nat.mod_pow_succ, hbit]
  have hsplit := Nat.div_add_mod' leaves.length (2 ^ (level + 1))
  rw [block, List.length_take, List.length_drop, Nat.shiftLeft_eq, Nat.shiftRight_eq_div_pow]
  omega

theorem root_block_succ {leaves : List Digest} {level : Nat}
    (h : (leaves.length / 2).testBit level = true) :
    root (block leaves (level + 1)) = root (block (pairUp leaves) level) := by
  have hlen : (block leaves (level + 1)).length = 2 * 2 ^ level := by
    rw [← Nat.pow_succ', length_block]
    rwa [Nat.testBit_succ]
  have hpos : 0 < 2 ^ level := Nat.two_pow_pos level
  rw [← pairUp_block, ← parents_of_even (by omega), root_parents (by omega)]

/-- On the lowest level a last leaf without a neighbour stands alone. -/
theorem root_block_zero {init : List Digest} (h : init.length % 2 = 0) (last : Digest) :
    root (block (init ++ [last]) 0) = last := by
  have hstart : (init ++ [last]).length >>> (0 + 1) <<< (0 + 1) = init.length := by
    rw [List.length_append, List.length_singleton, Nat.shiftRight_eq_div_pow, Nat.shiftLeft_eq]
    omega
  rw [block, hstart, List.drop_left]
  rfl

/-- Each peak is the root of the leaves that its subtree covers. -/
theorem peaks_eq_roots (leaves : List Digest) :
    peaks leaves = leaves.length.bitIndices.map fun level => root (block leaves level) := by
  induction hn : leaves.length using Nat.strongRecOn generalizing leaves with
  | ind n ih =>
    subst hn
    -- The layer of the pairs is shorter, and its blocks have the roots of the blocks here, one
    -- level up.
    have habove (half : Nat) (hhalf : leaves.length / 2 = half) (hlt : half < leaves.length) :
        peaks (pairUp leaves) =
          half.bitIndices.map fun level => root (block leaves (level + 1)) := by
      rw [ih half hlt _ (by rw [length_pairUp, hhalf])]
      refine List.map_congr_left fun level hlevel => (root_block_succ ?_).symm
      rw [hhalf]
      exact Nat.mem_bitIndices.mp hlevel
    cases Nat.mod_two_eq_zero_or_one leaves.length with
    | inl heven =>
      cases Nat.eq_zero_or_pos leaves.length with
      | inl h0 =>
        rw [List.length_eq_zero_iff.mp h0]
        simp [peaks]
      | inr hpos =>
        rw [peaks_of_even heven, habove (leaves.length / 2) rfl (by omega)]
        conv => rhs; rw [show leaves.length = 2 * (leaves.length / 2) by omega]
        rw [Nat.bitIndices_two_mul, List.map_map]
        rfl
    | inr hodd =>
      obtain ⟨init, last, hinit, rfl⟩ := exists_concat_of_odd hodd
      have hlen : (init ++ [last]).length = 2 * (init.length / 2) + 1 := by
        rw [List.length_append, List.length_singleton]
        omega
      have hpeaks := habove (init.length / 2) (by omega) (by omega)
      rw [pairUp_concat hinit] at hpeaks
      rw [peaks_concat hinit, hpeaks, hlen, Nat.bitIndices_two_mul_add_one, List.map_cons,
        root_block_zero hinit, List.map_map]
      rfl

/-! ## Carrying a digest up -/

namespace Accumulator

variable {levels count : Nat} {layer : List Digest}

/-- At an even count a digest is its own neighbour, and stays as a full subtree if it covers one. -/
theorem carry_even (h : count % 2 = 0) (d : Digest) (partly : Bool) (old : List Digest) :
    carry (levels + 1) count d partly old =
      (carry levels (count / 2) (d.pair d) true old).map fun (kept, root) =>
        (if partly then kept else d :: kept, root) := by
  rw [carry.eq_def]
  simp only [if_pos h]
  cases partly
  · rfl
  · simp

/-- At an odd count the next full subtree of the old frontier stands on the left, and stays if the
digest on the right does not fill the subtree above. -/
theorem carry_odd (h : count % 2 = 1) (d : Digest) (partly : Bool) (l : Digest)
    (old : List Digest) :
    carry (levels + 1) count d partly (l :: old) =
      (carry levels (count / 2) (l.pair d) partly old).map fun (kept, root) =>
        (if partly then l :: kept else kept, root) := by
  rw [carry.eq_def]
  simp only [if_neg (show ¬ count % 2 = 0 by omega)]
  cases partly
  · simp
  · rfl

/-- Above a subtree that is not full nothing new becomes full: the peaks to the left are kept, and
the root is that of the layer with the subtree at its end. -/
theorem carry_partly (h : layer.length < 2 ^ levels) (d : Digest) (rest : List Digest) :
    carry levels layer.length d true (peaks layer ++ rest) =
      some (peaks layer, top levels (layer ++ [d])) := by
  induction levels generalizing layer d with
  | zero =>
    obtain rfl := List.length_eq_zero_iff.mp (show layer.length = 0 by simpa using h)
    simp [carry, peaks, top, above]
  | succ levels ih =>
    have hlt := length_pairUp_lt h
    cases Nat.mod_two_eq_zero_or_one layer.length with
    | inl heven =>
      have hhalf := ih hlt (d.pair d)
      rw [← parents_concat heven, ← peaks_of_even heven, length_pairUp] at hhalf
      rw [carry_even heven, hhalf]
      rfl
    | inr hodd =>
      obtain ⟨init, l, hinit, rfl⟩ := exists_concat_of_odd hodd
      rw [pairUp_concat hinit] at hlt
      have hhalf := ih hlt (l.pair d)
      rw [← parents_concat_concat hinit, length_pairUp_concat hinit l] at hhalf
      rw [peaks_concat hinit, List.cons_append, carry_odd hodd, hhalf]
      rfl

/-- The roots of the full subtrees over leaves, but for the root of all. -/
def fullSubtrees (leaves : List Digest) : List Digest :=
  if leaves.length = 2 ^ Nat.clog 2 leaves.length then [] else peaks leaves

theorem fullSubtrees_parents (h : layer.length % 2 = 0) (h0 : layer ≠ []) :
    fullSubtrees (parents layer) = fullSubtrees layer := by
  have hpos := List.length_pos_iff.mpr h0
  have hhalf : (parents layer).length = layer.length / 2 := by
    rw [length_parents]
    omega
  have hiff : (parents layer).length = 2 ^ Nat.clog 2 (parents layer).length ↔
      layer.length = 2 ^ Nat.clog 2 layer.length := by
    rw [clog_halve (n := layer.length) (by omega), Nat.pow_succ, ← length_parents, hhalf]
    omega
  rw [fullSubtrees, fullSubtrees, peaks_of_even h, ← parents_of_even h]
  simp only [hiff]

/-- A full digest that is carried up leaves the full subtrees of the layer with that digest. -/
theorem carry_full (h : Nat.clog 2 (layer.length + 1) = levels) (d : Digest) (rest : List Digest) :
    carry levels layer.length d false (peaks layer ++ rest) =
      some (fullSubtrees (layer ++ [d]), top levels (layer ++ [d])) := by
  induction levels generalizing layer d with
  | zero =>
    have hle := le_one_of_clog_eq_zero h
    obtain rfl := List.length_eq_zero_iff.mp (show layer.length = 0 by omega)
    rfl
  | succ levels ih =>
    obtain ⟨htwo, hle⟩ := bounds_of_clog_eq_succ h
    have hlt : layer.length < 2 ^ (levels + 1) := by
      rw [Nat.pow_succ]
      omega
    rw [clog_halve htwo] at h
    cases Nat.mod_two_eq_zero_or_one layer.length with
    | inl heven =>
      -- The digest is full and the one above it is not.
      have hhalf := carry_partly (length_pairUp_lt hlt) (d.pair d) rest
      rw [← parents_concat heven, ← peaks_of_even heven, length_pairUp] at hhalf
      have hfull : fullSubtrees (layer ++ [d]) = d :: peaks layer := by
        rw [fullSubtrees, if_neg, peaks_concat heven, ← peaks_of_even heven]
        rw [List.length_append, List.length_singleton, clog_halve (by omega), Nat.pow_succ]
        omega
      rw [carry_even heven, hhalf, hfull]
      rfl
    | inr hodd =>
      -- The digest fills the subtree above it.
      obtain ⟨init, l, hinit, rfl⟩ := exists_concat_of_odd hodd
      have hdepth : Nat.clog 2 ((pairUp init).length + 1) = levels := by
        rw [length_pairUp_concat hinit l, ← Nat.succ.inj h]
        congr 1
        omega
      have hhalf := ih hdepth (l.pair d)
      rw [← parents_concat_concat hinit, length_pairUp_concat hinit l, fullSubtrees_parents
        (by simp only [List.length_append, List.length_singleton]; omega) (by simp)] at hhalf
      rw [peaks_concat hinit, List.cons_append, carry_odd hodd, hhalf]
      rfl

/-! ## Accumulators over leaves -/

/-- The frontier of leaves: the roots of their full subtrees, and last the root of all. -/
def frontier (leaves : List Digest) : List Digest :=
  if leaves = [] then [] else fullSubtrees leaves ++ [Merkle.root leaves]

/-- The accumulator that holds exactly these leaves. -/
def holding (leaves : List Digest) : Accumulator :=
  ⟨frontier leaves, UInt64.ofNat leaves.length⟩

theorem frontier_concat (leaves : List Digest) (leaf : Digest) :
    frontier (leaves ++ [leaf]) =
      fullSubtrees (leaves ++ [leaf]) ++ [Merkle.root (leaves ++ [leaf])] :=
  if_neg (by simp)

/-- The only peak of a full tree is its root. -/
theorem peaks_of_two_pow {leaves : List Digest} {d : Nat} (h : leaves.length = 2 ^ d) :
    peaks leaves = [Merkle.root leaves] := by
  have hstart : leaves.length >>> (d + 1) = 0 := by
    rw [h, Nat.shiftRight_eq_div_pow]
    exact Nat.div_eq_of_lt (Nat.pow_lt_pow_right Nat.one_lt_two (Nat.lt_succ_self d))
  have hblock : block leaves d = leaves := by
    rw [block, hstart, Nat.zero_shiftLeft, ← h]
    exact List.take_length
  rw [peaks_eq_roots, h, Nat.bitIndices_two_pow, List.map_singleton, hblock]

/-- A frontier starts with the peaks of its leaves. -/
theorem exists_frontier_eq (leaves : List Digest) :
    ∃ rest, frontier leaves = peaks leaves ++ rest := by
  rw [frontier]
  split
  · next h => exact ⟨[], by rw [h, peaks]; rfl⟩
  · rw [fullSubtrees]
    split
    · next h => exact ⟨[], by rw [peaks_of_two_pow h]; rfl⟩
    · exact ⟨[_], rfl⟩

theorem leafCount_holding {leaves : List Digest} (h : leaves.length < UInt64.size) :
    (holding leaves).leafCount.toNat = leaves.length :=
  UInt64.toNat_ofNat_of_lt' h

theorem leafCount_holding_lt {leaves : List Digest} (h : leaves.length < maxLeafCount.toNat) :
    (holding leaves).leafCount.toNat = leaves.length ∧
      (holding leaves).leafCount < maxLeafCount := by
  have hcount := leafCount_holding (Nat.lt_trans h maxLeafCount.toNat_lt)
  exact ⟨hcount, UInt64.lt_iff_toNat_lt.mpr (hcount ▸ h)⟩

theorem holding_nil : holding [] = empty := rfl

/-- The root that an accumulator gives is the root of the leaves that it holds. -/
theorem root_holding {leaves : List Digest} (h : leaves.length < UInt64.size) :
    (holding leaves).root = Merkle.root leaves := by
  have hcount : (holding leaves).leafCount = 0 ↔ leaves = [] := by
    rw [← UInt64.toNat_inj, leafCount_holding h]
    exact List.length_eq_zero_iff
  rw [root]
  split
  · next h0 => rw [hcount.mp h0]; rfl
  · next h0 =>
    have hne := mt hcount.mpr h0
    rw [holding, frontier, if_neg hne, List.getLastD_concat]

theorem toNat_leafCount_succ {count : UInt64} (h : count < maxLeafCount) :
    (count + 1).toNat = count.toNat + 1 := by
  rw [UInt64.lt_iff_toNat_lt, toNat_maxLeafCount] at h
  rw [UInt64.toNat_add]
  exact Nat.mod_eq_of_lt (by rw [UInt64.toNat_one]; omega)

/-- A carry passes all layers but that of the leaves. -/
theorem maxDepth_leafCount_succ {count : UInt64} (h : count < maxLeafCount) :
    maxDepth (count + 1) - 1 = Nat.clog 2 (count.toNat + 1) := by
  have hcount := toNat_leafCount_succ h
  have hne : count + 1 ≠ 0 := by
    intro h0
    rw [h0] at hcount
    simp at hcount
  rw [maxDepth_eq hne, hcount, Nat.add_sub_cancel]

/-- What an append has done when it gives a root. -/
theorem push_cases {acc acc' : Accumulator} {leaf root : Digest}
    (h : acc.push leaf = .ok (root, acc')) :
    acc.leafCount < maxLeafCount ∧ ∃ kept,
      carry (Nat.clog 2 (acc.leafCount.toNat + 1)) acc.leafCount.toNat leaf false acc.nodes =
        some (kept, root) ∧
      acc' = ⟨kept ++ [root], acc.leafCount + 1⟩ := by
  rw [push] at h
  split at h
  · exact nomatch h
  · next hroom =>
    have hlt : acc.leafCount < maxLeafCount := UInt64.not_le.mp hroom
    simp only [maxDepth_leafCount_succ hlt] at h
    split at h
    · next kept root' hc =>
      obtain ⟨rfl, rfl⟩ := Prod.mk.inj (Except.ok.inj h)
      exact ⟨hlt, kept, hc, rfl⟩
    · exact nomatch h

/-- Appending a leaf below the capacity gives the root of all leaves and the accumulator that holds
them. -/
theorem push_holding {leaves : List Digest} (h : leaves.length < maxLeafCount.toNat)
    (leaf : Digest) : (holding leaves).push leaf =
      .ok (Merkle.root (leaves ++ [leaf]), holding (leaves ++ [leaf])) := by
  obtain ⟨hcount, hlt⟩ := leafCount_holding_lt h
  have hsum : (holding leaves).leafCount + 1 = UInt64.ofNat (leaves ++ [leaf]).length := by
    rw [List.length_append, List.length_singleton, UInt64.ofNat_add]
    rfl
  obtain ⟨rest, hrest⟩ := exists_frontier_eq leaves
  have hcarry := carry_full (Eq.refl (Nat.clog 2 (leaves.length + 1))) leaf rest
  have htop : top (Nat.clog 2 (leaves.length + 1)) (leaves ++ [leaf]) =
      Merkle.root (leaves ++ [leaf]) := by
    rw [root_eq_top, List.length_append, List.length_singleton]
  rw [htop, ← hrest] at hcarry
  rw [push, if_neg (UInt64.not_le.mpr hlt)]
  simp only [maxDepth_leafCount_succ hlt, hcount,
    show (holding leaves).nodes = frontier leaves from rfl, hcarry]
  rw [hsum, holding, frontier_concat]

theorem append_holding {leaves : List Digest} (h : leaves.length < maxLeafCount.toNat)
    (leaf : Digest) : (holding leaves).append leaf = .ok (holding (leaves ++ [leaf])) := by
  rw [append, push_holding h]
  rfl

theorem appendAll_holding {leaves more : List Digest}
    (h : (leaves ++ more).length ≤ maxLeafCount.toNat) :
    (holding leaves).appendAll more = (holding (leaves ++ more), .ok ()) := by
  induction more generalizing leaves with
  | nil => rw [appendAll, List.append_nil]
  | cons leaf more ih =>
    have hlen : leaves.length < maxLeafCount.toNat := by
      rw [List.length_append, List.length_cons] at h
      omega
    rw [List.append_cons] at h
    rw [appendAll, append_holding hlen, List.append_cons leaves leaf more]
    exact ih h

theorem appendAll_empty {leaves : List Digest} (h : leaves.length ≤ maxLeafCount.toNat) :
    empty.appendAll leaves = (holding leaves, .ok ()) := by
  rw [← holding_nil, appendAll_holding (by rwa [List.nil_append]), List.nil_append]

theorem ofLeaves_eq {leaves : List Digest} (h : leaves.length ≤ maxLeafCount.toNat) :
    ofLeaves leaves = .ok (holding leaves) := by
  have hall (before more : List Digest) (h : (before ++ more).length ≤ maxLeafCount.toNat) :
      more.foldlM append (holding before) = .ok (holding (before ++ more)) := by
    induction more generalizing before with
    | nil => rw [List.append_nil]; rfl
    | cons leaf more ih =>
      have hlen : before.length < maxLeafCount.toNat := by
        rw [List.length_append, List.length_cons] at h
        omega
      rw [List.append_cons] at h ⊢
      rw [List.foldlM_cons, append_holding hlen]
      exact ih (before ++ [leaf]) h
  exact hall [] leaves h

/-- **Growing a list of leaves computes its tree.** Appended one by one, leaves within the capacity
are all taken. The accumulator then gives their root, which the last append gave too and which the
tree with all its layers has; its frontier consists of the roots of the blocks of leaves at the one
bits of their number, lowest first, and of the root, or of the root alone if the tree is full. -/
theorem appendAll_computes_root (leaves : List Digest) (h : leaves.length ≤ 2 ^ 63) :
    ∃ acc, empty.appendAll leaves = (acc, .ok ()) ∧
      acc.leafCount.toNat = leaves.length ∧
      acc.root = Merkle.root leaves ∧
      acc.root = (Tree.ofLeaves leaves).root ∧
      (∀ init last, leaves = init ++ [last] → ∃ before,
        empty.appendAll init = (before, .ok ()) ∧ before.push last = .ok (acc.root, acc)) ∧
      ((∃ d, leaves.length = 2 ^ d) → acc.nodes = [Merkle.root leaves]) ∧
      (leaves ≠ [] → (¬ ∃ d, leaves.length = 2 ^ d) →
        acc.nodes = (leaves.length.bitIndices.map fun level => Merkle.root (block leaves level)) ++
          [Merkle.root leaves]) := by
  rw [← toNat_maxLeafCount] at h
  have hsize : leaves.length < UInt64.size := Nat.lt_of_le_of_lt h maxLeafCount.toNat_lt
  have hroot := root_holding hsize
  have htwo (hd : ∃ d, leaves.length = 2 ^ d) :
      leaves.length = 2 ^ Nat.clog 2 leaves.length := by
    obtain ⟨d, hd⟩ := hd
    rw [hd, Nat.clog_pow 2 d Nat.one_lt_two]
  refine ⟨holding leaves, ?_, leafCount_holding hsize, hroot, ?_, ?_, ?_, ?_⟩
  · rw [← holding_nil, appendAll_holding (by rwa [List.nil_append]), List.nil_append]
  · rw [hroot, Tree.root_ofLeaves]
  · rintro init last rfl
    rw [List.length_append, List.length_singleton] at h
    refine ⟨holding init, ?_, ?_⟩
    · rw [← holding_nil, appendAll_holding (by rw [List.nil_append]; omega), List.nil_append]
    · rw [push_holding (by omega), hroot]
  · intro hd
    have hne : leaves ≠ [] := by
      rintro rfl
      obtain ⟨d, hd⟩ := hd
      exact absurd hd.symm (Nat.two_pow_pos d).ne'
    rw [holding, frontier, if_neg hne, fullSubtrees, if_pos (htwo hd), List.nil_append]
  · intro hne hd
    rw [holding, frontier, if_neg hne, fullSubtrees, if_neg fun heq => hd ⟨_, heq⟩, peaks_eq_roots]

/-- Three leaves leave the third and the pair of the first two below the root. -/
theorem appendAll_three :
    [Digest.hash [1], .hash [2], .hash [3]].length ≤ 2 ^ 63 ∧
    ∃ acc, empty.appendAll [.hash [1], .hash [2], .hash [3]] = (acc, .ok ()) ∧
      acc.leafCount.toNat = 3 ∧
      acc.nodes = [.hash [3], (Digest.hash [1]).pair (.hash [2]),
        ((Digest.hash [1]).pair (.hash [2])).pair ((Digest.hash [3]).pair (.hash [3]))] := by
  obtain ⟨acc, happend, hcount, -, -, -, -, hnodes⟩ :=
    appendAll_computes_root [.hash [1], .hash [2], .hash [3]] (by decide)
  refine ⟨by decide, acc, happend, hcount, hnodes (by simp) ?_⟩
  rintro ⟨d, hd⟩
  match d with
  | 0 | 1 => simp at hd
  | d + 2 => simp only [List.length_cons, List.length_nil, Nat.pow_succ] at hd; omega

end Accumulator

end LightClient.Merkle
