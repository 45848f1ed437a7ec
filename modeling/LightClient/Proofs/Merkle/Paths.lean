import LightClient.Proofs.Merkle.Layers
import LightClient.Proofs.Merkle.Pair

/-!
Paths cut from a tree. Main statement: the path of a leaf has as many entries as there are layers
above the leaves, the bits of its place say on which side they stand, and it leads from the leaf to
the root.
-/

namespace LightClient.Merkle

open Merkle.Tree (parents length_parents layersFrom sibling siblings)

theorem sibling_add_two (left right : Digest) (rest : List Digest) (i : Nat) :
    sibling (left :: right :: rest) (i + 2) = sibling rest i := by
  rw [sibling, sibling, Nat.add_mod_right]
  split
  · next hodd =>
    rw [show i + 2 - 1 = i - 1 + 1 + 1 by omega]
    rfl
  · rfl

/-- A sibling stands on the left of just the digests at odd places. -/
theorem isLeft_sibling (layer : List Digest) (i : Nat) :
    (sibling layer i).isLeft = decide (i % 2 = 1) := by
  rw [sibling]
  split
  · next hodd => simp [hodd]
  · next heven => simp [heven]

/-- The bits of a place, lowest first, say on which side the siblings stand. -/
theorem isLeft_of_getElem?_siblings {layers : List (List Digest)} {i k : Nat} {entry : Digest}
    (h : (siblings layers i)[k]? = some entry) : entry.isLeft = i.testBit k := by
  fun_induction siblings layers i generalizing k with
  | case1 layer above rest i ih =>
    cases k with
    | zero =>
      obtain rfl := Option.some.inj h
      rw [isLeft_sibling, Nat.testBit_zero]
    | succ k =>
      rw [Nat.testBit_succ]
      exact ih h
  | case2 => exact nomatch h

/-- A digest and its sibling climb to the parent that stands above both. -/
theorem climb_sibling {layer : List Digest} {i : Nat} (hi : i < layer.length) :
    Path.climb (layer.getD i .zero) (sibling layer i) = (parents layer).getD (i / 2) .zero := by
  fun_induction parents layer generalizing i with
  | case1 left right rest ih =>
    obtain _ | _ | i := i
    · simp [Path.climb, sibling]
    · simp [Path.climb, sibling]
    · have hrest : i < rest.length := by simpa using hi
      rw [sibling_add_two, show (i + 1 + 1) / 2 = i / 2 + 1 by omega]
      exact ih hrest
  | case2 left =>
    obtain rfl : i = 0 := by simpa using hi
    simp [Path.climb, sibling]
  | case3 => exact absurd hi (Nat.not_lt_zero i)

/-- A layer with another above it gives the first sibling. -/
theorem siblings_cons_layersFrom (layer above : List Digest) (i : Nat) :
    siblings (layer :: layersFrom above) i =
      sibling layer i :: siblings (layersFrom above) (i / 2) := by
  obtain ⟨first, rest, hrest⟩ := List.exists_cons_of_ne_nil (layersFrom_ne_nil above)
  rw [hrest, siblings]

/-- A path has an entry for each layer but the root's. -/
theorem length_siblings (leaves : List Digest) (i : Nat) :
    (siblings (layersFrom leaves) i).length = Nat.clog 2 leaves.length := by
  fun_induction layersFrom leaves generalizing i with
  | case1 layer h =>
    rw [Nat.clog_of_right_le_one h]
    rfl
  | case2 layer h ih =>
    rw [siblings_cons_layersFrom, List.length_cons, ih, length_parents,
      clog_halve (n := layer.length) (by omega)]

/-- The siblings of a leaf lead from it to the root. -/
theorem foldl_climb_siblings {leaves : List Digest} {i : Nat} (hi : i < leaves.length) :
    (siblings (layersFrom leaves) i).foldl Path.climb (leaves.getD i .zero) = root leaves := by
  fun_induction layersFrom leaves generalizing i with
  | case1 layer h =>
    obtain ⟨d, rfl⟩ := List.length_eq_one_iff.mp (show layer.length = 1 by omega)
    obtain rfl : i = 0 := by simpa using hi
    rfl
  | case2 layer h ih =>
    have hhalf : i / 2 < (parents layer).length := by
      rw [length_parents]
      omega
    rw [siblings_cons_layersFrom, List.foldl_cons, climb_sibling hi, ih hhalf,
      root_parents (by omega)]

namespace Path

/-- A single sibling on the right leads to the pair. -/
theorem fold_asRight (left right : Digest) :
    fold ⟨[right.asRight]⟩ left = left.pair right := by
  simp [fold, climb]

variable {leaf root : Digest} {path : Path}

theorem check_eq_ok :
    check leaf path root = .ok () ↔ path.length ≤ maxLength ∧ path.fold leaf = root := by
  rw [check]
  split
  · next h => simp [Nat.not_le.mpr h]
  · next h =>
    split
    · next hroot => simp [hroot, Nat.not_lt.mp h]
    · next hroot => simp [hroot]

theorem verifies_iff :
    path.verifies leaf root = true ↔ path.length ≤ maxLength ∧ path.fold leaf = root := by
  rw [← check_eq_ok, verifies]
  split
  · next h => simp [h]
  · next h => simp [h]

end Path

namespace Tree

variable {leaves : List Digest} {i : Nat}

theorem leafCount_ofLeaves (leaves : List Digest) :
    (ofLeaves leaves).leafCount = leaves.length := by
  rw [leafCount, Tree.leaves, ofLeaves, layersFrom]
  split <;> rfl

theorem proof_of_lt (hi : i < leaves.length) :
    (ofLeaves leaves).proof i = .ok ⟨siblings (layersFrom leaves) i⟩ := by
  rw [proof, leafCount_ofLeaves, if_pos hi]
  rfl

/-- There is no path behind the last leaf. -/
theorem proof_of_le (hi : leaves.length ≤ i) :
    (ofLeaves leaves).proof i = .error (.misuse (.noLeaf i leaves.length)) := by
  rw [proof, leafCount_ofLeaves, if_neg (Nat.not_lt.mpr hi)]

/-- The path of a leaf leads to the root of the tree. -/
theorem fold_proof (hi : i < leaves.length) :
    ∃ path, (ofLeaves leaves).proof i = .ok path ∧
      path.length = Nat.clog 2 leaves.length ∧ path.fold leaves[i] = Merkle.root leaves := by
  refine ⟨⟨siblings (layersFrom leaves) i⟩, proof_of_lt hi, length_siblings leaves i, ?_⟩
  have h := foldl_climb_siblings hi
  rwa [List.getD_eq_getElem?_getD, List.getElem?_eq_getElem hi] at h

end Tree

end LightClient.Merkle
