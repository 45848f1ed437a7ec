import LightClient.Proofs.Merkle.Binding
import LightClient.Proofs.Merkle.Paths

/-!
Which digests have an accepted path. Main statements: the path that a tree gives for a leaf is
accepted against its root, and so is one for every digest in a layer above the leaves; and as far as
nothing collides up to the side of its hash, an accepted path starts at a digest of the layer that
stands so far below the root, up to the side of that digest.
-/

namespace LightClient.Merkle

open Merkle.Tree (parents length_parents layersFrom sibling siblings)

/-! ## Paths of a tree hash pairs of the tree -/

/-- A digest and its sibling are hashed as a pair of their layer. -/
theorem climbHashed_sibling_mem {layer : List Digest} {i : Nat} (hi : i < layer.length) :
    Path.climbHashed (layer.getD i .zero) (sibling layer i) ∈ joinUp (evenUp layer) := by
  fun_induction parents layer generalizing i with
  | case1 left right rest ih =>
    rw [evenUp_cons_cons]
    change _ ∈ Digest.joined left right :: joinUp (evenUp rest)
    obtain _ | _ | i := i
    · simp [Path.climbHashed, sibling]
    · simp [Path.climbHashed, sibling, Digest.joined]
    · have hrest : i < rest.length := by simpa using hi
      rw [sibling_add_two]
      exact List.mem_cons_of_mem _ (ih hrest)
  | case2 left =>
    obtain rfl : i = 0 := by simpa using hi
    simp [Path.climbHashed, sibling, evenUp, joinUp, neighbours]
  | case3 => exact absurd hi (Nat.not_lt_zero i)

/-- Whatever is hashed along the path of a leaf is a pair of the tree. -/
theorem hashedFrom_siblings_subset {leaves : List Digest} {i : Nat} (hi : i < leaves.length) :
    Path.hashedFrom (leaves.getD i .zero) (siblings (layersFrom leaves) i) ⊆
      treeHashed (Nat.clog 2 leaves.length) leaves := by
  fun_induction layersFrom leaves generalizing i with
  | case1 layer h => exact List.nil_subset _
  | case2 layer h ih =>
    have hhalf : i / 2 < (parents layer).length := by
      rw [length_parents]
      omega
    rw [siblings_cons_layersFrom, Path.hashedFrom, climb_sibling hi, clog_halve (by omega),
      ← length_parents, treeHashed]
    refine List.cons_subset.mpr ⟨?_, ?_⟩
    · exact List.mem_append_left _ (climbHashed_sibling_mem hi)
    · exact List.subset_append_of_subset_right _ (ih hhalf)

/-- The path of a leaf leads to the root and hashes pairs of the tree only. -/
theorem Tree.exists_path {leaves : List Digest} {i : Nat} (hi : i < leaves.length) :
    ∃ path : Path, path.length = Nat.clog 2 leaves.length ∧
      path.fold leaves[i] = Merkle.root leaves ∧
      path.hashed leaves[i] ⊆ treeHashed (Nat.clog 2 leaves.length) leaves := by
  have hleaf : leaves.getD i .zero = leaves[i] := by
    rw [List.getD_eq_getElem?_getD, List.getElem?_eq_getElem hi]
    rfl
  refine ⟨⟨siblings (layersFrom leaves) i⟩, length_siblings leaves i, ?_, ?_⟩
  · exact hleaf ▸ foldl_climb_siblings hi
  · exact hleaf ▸ hashedFrom_siblings_subset hi

/-! ## Accepted paths -/

/-- A tree within the capacity has no more layers above its leaves than a path may have entries. -/
theorem clog_le_of_length_le {leaves : List Digest} (h : leaves.length ≤ 2 ^ 63) :
    Nat.clog 2 leaves.length ≤ 63 :=
  Nat.clog_le_of_le_pow h

/-- **Every leaf has a path.** Up to the capacity the tree gives a path for each leaf, with an entry
for each layer above the leaves, marked by the bits of the leaf's place; it is accepted against the
root of the tree, which is that of the list of leaves and of an accumulator that took them. Behind
the last leaf there is none. -/
theorem Tree.leaf_has_path (leaves : List Digest) (h : leaves.length ≤ 2 ^ 63) (i : Nat) :
    (∀ leaf, leaves[i]? = some leaf → ∃ path, (Tree.ofLeaves leaves).proof i = .ok path ∧
      path.length = maxDepth (UInt64.ofNat leaves.length) - 1 ∧ path.length ≤ 63 ∧
      (∀ (k : Nat) entry, path.entries[k]? = some entry → entry.isLeft = i.testBit k) ∧
      path.verifies leaf (Tree.ofLeaves leaves).root = true ∧
      path.verifies leaf (Merkle.root leaves) = true ∧
      ∃ acc, Accumulator.empty.appendAll leaves = (acc, .ok ()) ∧
        path.verifies leaf acc.root = true) ∧
    (leaves.length ≤ i →
      (Tree.ofLeaves leaves).proof i = .error (.misuse (.noLeaf i leaves.length))) := by
  have hcap : leaves.length ≤ maxLeafCount.toNat := by rwa [toNat_maxLeafCount]
  have hsize : leaves.length < UInt64.size := Nat.lt_of_le_of_lt hcap maxLeafCount.toNat_lt
  refine ⟨fun leaf hleaf => ?_, Tree.proof_of_le⟩
  obtain ⟨hi, rfl⟩ := List.getElem?_eq_some_iff.mp hleaf
  obtain ⟨path, hproof, hlength, hfold⟩ := Tree.fold_proof hi
  have hshort : path.length ≤ 63 := hlength ▸ clog_le_of_length_le h
  have haccept : path.verifies leaves[i] (Merkle.root leaves) = true :=
    Path.verifies_iff.mpr ⟨Nat.le_trans hshort (by decide), hfold⟩
  refine ⟨path, hproof, ?_, hshort, fun k entry hentry => ?_, ?_, haccept, ?_⟩
  · rw [hlength, maxDepth_ofNat_sub_one hsize]
  · rw [Tree.proof_of_lt hi] at hproof
    obtain rfl := Except.ok.inj hproof
    exact isLeft_of_getElem?_siblings hentry
  · rwa [Tree.root_ofLeaves]
  · refine ⟨Accumulator.holding leaves, ?_, ?_⟩
    · have hcap' : ([] ++ leaves).length ≤ maxLeafCount.toNat := hcap
      have happend := Accumulator.appendAll_holding hcap'
      rwa [List.nil_append] at happend
    · rwa [Accumulator.root_holding hsize]

/-- The last of five leaves is its own sibling on two layers, and stands on the right on the
third. -/
theorem Tree.leaf_has_path_five :
    let leaves : List Digest := [.hash [1], .hash [2], .hash [3], .hash [4], .hash [5]]
    leaves.length ≤ 2 ^ 63 ∧ ∃ path, (Tree.ofLeaves leaves).proof 4 = .ok path ∧
      path.length = 3 ∧ path.entries.map Digest.isLeft = [false, false, true] ∧
      path.verifies (.hash [5]) (Merkle.root leaves) = true ∧
      (Tree.ofLeaves leaves).proof 5 = .error (.misuse (.noLeaf 5 5)) := by
  intro leaves
  have hcap : leaves.length ≤ 2 ^ 63 := by decide
  obtain ⟨hpath, -⟩ := Tree.leaf_has_path leaves hcap 4
  obtain ⟨path, hproof, hlength, -, hsides, -, haccept, -⟩ := hpath (.hash [5]) rfl
  have hdepth : maxDepth (UInt64.ofNat leaves.length) - 1 = 3 := by decide
  rw [hdepth] at hlength
  refine ⟨hcap, path, hproof, hlength, ?_, haccept, (Tree.leaf_has_path leaves hcap 5).2 ?_⟩
  · refine List.ext_getElem (by rw [List.length_map]; exact hlength) fun k hk _ => ?_
    rw [List.length_map] at hk
    rw [List.getElem_map, hsides k _ (List.getElem?_eq_getElem hk)]
    have hk : k < 3 := hlength ▸ hk
    match k with
    | 0 | 1 | 2 => rfl
  · exact Nat.le_refl 5

/-- Each digest of a layer has a path as long as the layer is deep. -/
theorem exists_path_of_mem_above {leaves : List Digest} {level : Nat}
    (h : level ≤ Nat.clog 2 leaves.length) {node : Digest} (hnode : node ∈ above level leaves) :
    ∃ path : Path, path.length = Nat.clog 2 leaves.length - level ∧
      path.fold node = Merkle.root leaves := by
  obtain ⟨i, hi, rfl⟩ := List.getElem_of_mem hnode
  obtain ⟨path, -, hlength, hfold⟩ := Tree.fold_proof hi
  obtain ⟨hroot, hdepth⟩ := root_above h
  exact ⟨path, hlength.trans hdepth, hfold.trans hroot⟩

/-- On a path that is not empty a digest is accepted just if it is on its other side. -/
theorem Path.verifies_congr {path : Path} {leaf leaf' : Digest} (hne : path.entries ≠ [])
    (h : leaf.asLeft = leaf'.asLeft) (root : Digest) :
    path.verifies leaf root = path.verifies leaf' root := by
  rw [Bool.eq_iff_iff, verifies_iff, verifies_iff, fold_congr hne h]

/-- A path no longer than the tree is deep that leads to the root starts in the layer as far below
the root as it is long. -/
theorem Path.exists_node_of_fold_eq_root {leaves : List Digest} (h0 : leaves ≠ []) {leaf : Digest}
    {path : Path} (hlen : path.length ≤ Nat.clog 2 leaves.length)
    (hfold : path.fold leaf = Merkle.root leaves)
    (hfree : CollisionFree Digest.asLeft
      (treeHashed (Nat.clog 2 leaves.length) leaves ++ path.hashed leaf)) :
    ∃ node ∈ above (Nat.clog 2 leaves.length - path.length) leaves,
      leaf.asLeft = node.asLeft ∧ (path.entries = [] → leaf = node) := by
  have htop : Merkle.root leaves ∈ above (Nat.clog 2 leaves.length) leaves := by
    rw [above_eq_top h0 (Nat.le_pow_clog Nat.one_lt_two _), root_eq_top]
    exact List.mem_cons_self
  by_cases hempty : path.entries = []
  · have hleaf : leaf = Merkle.root leaves := by rwa [fold, hempty] at hfold
    have hlength : path.length = 0 := by rw [Path.length, hempty, List.length_nil]
    rw [hlength]
    exact ⟨leaf, hleaf ▸ htop, rfl, fun _ => rfl⟩
  · obtain ⟨node, hnode, hside⟩ := exists_node_of_fold (fun _ _ h => h) hfree
      (List.subset_append_left ..) (List.subset_append_right ..) hlen htop (congrArg _ hfold)
    exact ⟨node, hnode, hside, fun h => absurd h hempty⟩

/-- **What an accepted path proves.** A path no longer than the tree is deep that leads from a
digest to the root starts at a digest of the layer as far below the root as it is long, as long as
no two of the byte strings that the tree and the path hash collide up to the side of their hash; the
two digests differ in their side at most, and not at all if the path is empty. So a path of full
length starts at a leaf, and a shorter one only at a digest above the leaves, each of which has such
a path. The side is lost: on a path that is not empty, against whatever root, a digest is accepted
just if it is on its other side. -/
theorem Path.accepted_starts_in_layer (leaves : List Digest) (h0 : leaves ≠ [])
    (h : leaves.length ≤ 2 ^ 63) (leaf : Digest) (path : Path) :
    let depth := maxDepth (UInt64.ofNat leaves.length) - 1
    let layers := (Tree.ofLeaves leaves).layers
    (path.length ≤ depth → path.verifies leaf (Merkle.root leaves) = true →
      CollisionFree Digest.asLeft (treeHashed depth leaves ++ path.hashed leaf) →
      ∃ layer, layers[depth - path.length]? = some layer ∧ ∃ node ∈ layer,
        leaf.asLeft = node.asLeft ∧ (path.entries = [] → leaf = node)) ∧
    layers.head? = some leaves ∧
    (∀ level layer, layers[level]? = some layer → ∀ node ∈ layer, ∃ path : Path,
      path.length = depth - level ∧ path.verifies node (Merkle.root leaves) = true) ∧
    ∀ root leaf', path.entries ≠ [] → leaf'.asLeft = leaf.asLeft →
      path.verifies leaf' root = path.verifies leaf root := by
  intro depth layers
  have hsize : leaves.length < UInt64.size := Nat.lt_of_le_of_lt h (by decide)
  have hdepth : depth = Nat.clog 2 leaves.length := maxDepth_ofNat_sub_one hsize
  rw [hdepth]
  refine ⟨fun hlen haccept hfree => ?_, ?_, fun level layer hlayer node hnode => ?_,
    fun root leaf' hne hside => Path.verifies_congr hne hside root⟩
  · obtain ⟨-, hfold⟩ := Path.verifies_iff.mp haccept
    exact ⟨_, getElem?_layersFrom (Nat.sub_le ..),
      Path.exists_node_of_fold_eq_root h0 hlen hfold hfree⟩
  · rw [List.head?_eq_getElem?]
    exact getElem?_layersFrom (Nat.zero_le _)
  · have hlevel : level ≤ Nat.clog 2 leaves.length := by
      have hlt := (List.getElem?_eq_some_iff.mp hlayer).1
      rw [show layers = layersFrom leaves from rfl, length_layersFrom] at hlt
      omega
    obtain rfl := Option.some.inj ((getElem?_layersFrom hlevel).symm.trans hlayer)
    obtain ⟨path, hlength, hfold⟩ := exists_path_of_mem_above hlevel hnode
    have hmax : path.length ≤ Path.maxLength := by
      have := clog_le_of_length_le h
      rw [hlength, Path.maxLength]
      omega
    exact ⟨path, hlength, Path.verifies_iff.mpr ⟨hmax, hfold⟩⟩

/-- Of three leaves the last is known from its path up to its side. -/
theorem Path.accepted_starts_in_layer_three :
    let leaves : List Digest := [.hash [1], .hash [2], .hash [3]]
    let leaf := (Digest.hash [3]).asRight
    leaves ≠ [] ∧ leaves.length ≤ 2 ^ 63 ∧ ∃ path : Path,
      path.length = 2 ∧ path.verifies leaf (Merkle.root leaves) = true ∧
      CollisionFree Digest.asLeft (treeHashed 2 leaves ++ path.hashed leaf) ∧
      ∃ node ∈ leaves, leaf.asLeft = node.asLeft := by
  intro leaves leaf
  have h0 : leaves ≠ [] := List.cons_ne_nil _ _
  have hcap : leaves.length ≤ 2 ^ 63 := by decide
  have hdepth : maxDepth (UInt64.ofNat leaves.length) - 1 = 2 := by decide
  have hside : leaf.asLeft = (Digest.hash [3]).asLeft := Digest.asLeft_asRight _
  have hthird : 2 < leaves.length := by decide
  obtain ⟨path, hlength, hfold, hhashed⟩ := Tree.exists_path hthird
  have hclog : Nat.clog 2 leaves.length = 2 := by decide
  rw [hclog] at hlength hhashed
  have hne : path.entries ≠ [] := by
    intro hempty
    rw [Path.length, hempty] at hlength
    exact nomatch hlength
  have haccept : path.verifies leaf (Merkle.root leaves) = true :=
    Path.verifies_iff.mpr ⟨by rw [hlength]; decide, (Path.fold_congr hne hside).trans hfold⟩
  have hfree : CollisionFree Digest.asLeft (treeHashed 2 leaves ++ path.hashed leaf) := by
    have hnodup : ((treeHashed 2 leaves).map fun s => (Digest.hash s).asLeft).Nodup := by
      decide +kernel
    refine (collisionFree_of_nodup hnodup).mono (List.append_subset.mpr ⟨fun _ hs => hs, ?_⟩)
    rwa [Path.hashed_congr path hside]
  obtain ⟨hlayer, hleaves, -⟩ := Path.accepted_starts_in_layer leaves h0 hcap leaf path
  rw [hdepth] at hlayer
  obtain ⟨layer, hget, node, hnode, hsame, -⟩ := hlayer (Nat.le_of_eq hlength) haccept hfree
  rw [hlength, Nat.sub_self, ← List.head?_eq_getElem?, hleaves] at hget
  obtain rfl := Option.some.inj hget
  exact ⟨h0, hcap, path, hlength, haccept, hfree, node, hnode, hsame⟩

end LightClient.Merkle
