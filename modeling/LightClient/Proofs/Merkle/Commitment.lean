import LightClient.Proofs.Merkle.Alike

/-!
What a root says of the leaves below it. Main statement: of two lists with as many leaves, two or
more, the roots are the same just if the leaves differ in their sides only, as far as nothing
collides that is hashed when they are appended; and then the roots stay the same, whatever leaves
both lists go on with.
-/

namespace LightClient.Merkle

open Digest (joined)
open Merkle.Tree (parents length_parents)

variable {layer layer' : List Digest} {levels : Nat} {log : List (List UInt8)}

/-! ## From the leaves to the root -/

/-- Layers that differ in sides only have the same parents. -/
theorem parents_congr (h : layer.map Digest.asLeft = layer'.map Digest.asLeft) :
    parents layer = parents layer' := by
  fun_induction parents layer generalizing layer' with
  | case1 l r rest ih =>
    obtain ⟨l', tail, rfl, hl, htail⟩ := List.map_eq_cons_iff.mp h.symm
    obtain ⟨r', rest', rfl, hr, hrest⟩ := List.map_eq_cons_iff.mp htail
    rw [parents, ih hrest.symm, Digest.pair_congr hl hr]
  | case2 l =>
    obtain ⟨l', tail, rfl, hl, htail⟩ := List.map_eq_cons_iff.mp h.symm
    obtain rfl := List.map_eq_nil_iff.mp htail
    rw [parents, Digest.pair_congr hl hl]
  | case3 => rw [List.map_eq_nil_iff.mp h.symm, parents]

theorem length_eq_of_alike (h : layer.map Digest.asLeft = layer'.map Digest.asLeft) :
    layer.length = layer'.length := by
  simpa using congrArg List.length h

/-- The full subtrees over layers that differ in sides only differ in sides only: the smallest one
may be a digest of the layer itself, and all others are made of its parents. -/
theorem peaks_alike (h : layer.map Digest.asLeft = layer'.map Digest.asLeft) :
    (peaks layer).map Digest.asLeft = (peaks layer').map Digest.asLeft := by
  have hlen := length_eq_of_alike h
  cases Nat.mod_two_eq_zero_or_one layer.length with
  | inl heven =>
    have heven' : layer'.length % 2 = 0 := hlen ▸ heven
    rw [peaks_of_even heven, peaks_of_even heven', ← parents_of_even heven,
      ← parents_of_even heven', parents_congr h]
  | inr hodd =>
    obtain ⟨init, d, hinit, rfl⟩ := exists_concat_of_odd hodd
    obtain ⟨init', d', hinit', rfl⟩ := exists_concat_of_odd (hlen ▸ hodd)
    rw [List.map_append, List.map_append] at h
    obtain ⟨hi, hd⟩ := List.append_inj' h rfl
    rw [peaks_concat hinit, peaks_concat hinit', ← parents_of_even hinit,
      ← parents_of_even hinit', parents_congr hi, List.map_cons, List.map_cons,
      List.singleton_inj.mp hd]

/-- From two leaves on, the sides of the leaves are lost in the root. -/
theorem root_congr (h2 : 2 ≤ layer.length)
    (h : layer.map Digest.asLeft = layer'.map Digest.asLeft) : root layer = root layer' := by
  have h2' : 2 ≤ layer'.length := length_eq_of_alike h ▸ h2
  rw [← root_parents h2, ← root_parents h2', parents_congr h]

/-! ## From the root to the leaves -/

/-- Pairs whose hashes look alike are made of digests that look alike, so layers with parents that
differ in sides only differ in sides only. -/
theorem alike_of_parents (hfree : CollisionFree Digest.asLeft log)
    (hlen : layer.length = layer'.length) (hlog : joinUp (evenUp layer) ⊆ log)
    (hlog' : joinUp (evenUp layer') ⊆ log)
    (h : (parents layer).map Digest.asLeft = (parents layer').map Digest.asLeft) :
    layer.map Digest.asLeft = layer'.map Digest.asLeft := by
  fun_induction parents layer generalizing layer' with
  | case1 l r rest ih =>
    obtain ⟨l', tail, rfl⟩ := List.exists_cons_of_length_eq_add_one hlen.symm
    have htail : (r :: rest).length = tail.length := Nat.succ.inj hlen
    obtain ⟨r', rest', rfl⟩ := List.exists_cons_of_length_eq_add_one htail.symm
    have hlen : rest.length = rest'.length := Nat.succ.inj htail
    rw [evenUp_cons_cons] at hlog hlog'
    obtain ⟨hpair, hrest⟩ := List.cons_subset.mp hlog
    obtain ⟨hpair', hrest'⟩ := List.cons_subset.mp hlog'
    rw [parents, List.map_cons, List.map_cons, List.cons.injEq] at h
    obtain ⟨hl, hr⟩ := hfree.of_pair hpair hpair' h.1
    rw [List.map_cons, List.map_cons, List.map_cons, List.map_cons, hl, hr,
      ih hlen hrest hrest' h.2]
  | case2 l =>
    obtain ⟨l', rfl⟩ := List.length_eq_one_iff.mp hlen.symm
    obtain ⟨hl, -⟩ := hfree.of_pair (hlog List.mem_cons_self) (hlog' List.mem_cons_self)
      (List.singleton_inj.mp h)
    exact congrArg ([·]) hl
  | case3 => rw [List.length_eq_zero_iff.mp hlen.symm]

/-- The layers below are found from the top down. -/
theorem alike_of_above (hfree : CollisionFree Digest.asLeft log)
    (hlen : layer.length = layer'.length) (hlog : treeHashed levels layer ⊆ log)
    (hlog' : treeHashed levels layer' ⊆ log)
    (h : (above levels layer).map Digest.asLeft = (above levels layer').map Digest.asLeft) :
    layer.map Digest.asLeft = layer'.map Digest.asLeft := by
  induction levels generalizing layer layer' with
  | zero => exact h
  | succ levels ih =>
    rw [treeHashed, List.append_subset] at hlog hlog'
    have hparents : (parents layer).length = (parents layer').length := by
      rw [length_parents, length_parents, hlen]
    apply alike_of_parents hfree hlen hlog.1 hlog'.1
    exact ih hparents hlog.2 hlog'.2 h

/-- **Equal roots come from equal leaves**, up to their sides. -/
theorem alike_of_root (hfree : CollisionFree Digest.asLeft log)
    (hlen : layer.length = layer'.length)
    (hlog : treeHashed (Nat.clog 2 layer.length) layer ⊆ log)
    (hlog' : treeHashed (Nat.clog 2 layer'.length) layer' ⊆ log)
    (hroot : root layer = root layer') :
    layer.map Digest.asLeft = layer'.map Digest.asLeft := by
  cases layer with
  | nil => rw [List.length_eq_zero_iff.mp hlen.symm]
  | cons d rest =>
    have h0' : layer' ≠ [] := List.length_pos_iff.mp (hlen ▸ Nat.succ_pos rest.length)
    have htop := above_eq_top (List.cons_ne_nil d rest) (Nat.le_pow_clog Nat.one_lt_two _)
    have htop' := above_eq_top h0' (Nat.le_pow_clog Nat.one_lt_two _)
    rw [← root_eq_top] at htop htop'
    rw [← hlen] at htop' hlog'
    apply alike_of_above hfree hlen hlog hlog'
    rw [htop, htop', hroot]

namespace Accumulator

variable {acc acc' : Accumulator} {leaves leaves' : List Digest}

/-! ## Accumulators over alike leaves -/

theorem holding_alike (h2 : 2 ≤ leaves.length) (hsize : leaves.length < UInt64.size)
    (h : leaves.map Digest.asLeft = leaves'.map Digest.asLeft) :
    (holding leaves).Alike (holding leaves') := by
  have hlen := length_eq_of_alike h
  have hroot := root_congr h2 h
  have h0 : leaves ≠ [] := List.length_pos_iff.mp (by omega)
  have h0' : leaves' ≠ [] := List.length_pos_iff.mp (by omega)
  constructor
  · rw [holding, holding, hlen]
  · rw [holding, holding, frontier, frontier, if_neg h0, if_neg h0', fullSubtrees, fullSubtrees,
      hlen, hroot, List.map_append, List.map_append]
    split
    · rfl
    · rw [peaks_alike h]
  · rw [root_holding hsize, root_holding (hlen ▸ hsize), hroot]

/-- However far leaves are appended to alike accumulators, they are all taken by both or the same
one is refused, and the accumulators stay alike. -/
theorem Alike.appendAll (h : Alike acc acc') (hv : acc.validate = .ok ())
    (hv' : acc'.validate = .ok ()) (more : List Digest) :
    (acc.appendAll more).2 = (acc'.appendAll more).2 ∧
      Alike (acc.appendAll more).1 (acc'.appendAll more).1 := by
  induction more generalizing acc acc' with
  | nil => exact ⟨rfl, h⟩
  | cons leaf more ih =>
    rw [Accumulator.appendAll, Accumulator.appendAll]
    rcases exists_push_or_full hv leaf with ⟨root, after, hp⟩ | hfull
    · have ha : acc.append leaf = .ok after := append_eq_ok.mpr ⟨root, hp⟩
      obtain ⟨after', ha', halike⟩ := h.append ha
      rw [ha, ha']
      exact ih halike (validate_append ha) (validate_append ha')
    · rw [Accumulator.append, push_of_full hfull, Accumulator.append,
        push_of_full (h.leafCount_eq ▸ hfull)]
      exact ⟨rfl, h⟩

/-- What is hashed for the tree over leaves is hashed when they are appended. -/
theorem treeHashed_subset_appendHashed_empty (h : leaves.length ≤ maxLeafCount.toNat) :
    treeHashed (Nat.clog 2 leaves.length) leaves ⊆ empty.appendHashed leaves := by
  have happend : ([] ++ leaves).length ≤ maxLeafCount.toNat := h
  have hsub := treeHashed_subset_appendHashed happend
  have hnone : treeHashed (Nat.clog 2 ([] : List Digest).length) [] = [] := by
    rw [List.length_nil, Nat.clog_zero_right]
    rfl
  rwa [hnone, List.nil_append, List.nil_append, holding_nil] at hsub

/-- **A root commits to its leaves, but for their sides.** Let two lists have as many leaves, within
the capacity. From two leaves on, lists that differ in sides only give the same root, and whatever
leaves both accumulators take then, they take or refuse them alike and their roots stay the same.
Conversely the roots are the same only of such lists, as far as nothing that is hashed when they are
appended collides up to the side of its hash. A single leaf is its own root, with its side. -/
theorem root_eq_iff_leaves_alike (leaves leaves' : List Digest)
    (hlen : leaves.length = leaves'.length) (hcap : leaves.length ≤ 2 ^ 63) :
    ∃ acc acc', empty.appendAll leaves = (acc, .ok ()) ∧
      empty.appendAll leaves' = (acc', .ok ()) ∧
      (2 ≤ leaves.length →
        (leaves.map Digest.asLeft = leaves'.map Digest.asLeft → acc.root = acc'.root ∧
          ∀ more, (acc.appendAll more).2 = (acc'.appendAll more).2 ∧
            (acc.appendAll more).1.root = (acc'.appendAll more).1.root) ∧
        (CollisionFree Digest.asLeft (empty.appendHashed leaves ++ empty.appendHashed leaves') →
          (acc.root = acc'.root ↔ leaves.map Digest.asLeft = leaves'.map Digest.asLeft))) ∧
      (leaves.length = 1 → (acc.root = acc'.root ↔ leaves = leaves')) := by
  rw [← toNat_maxLeafCount] at hcap
  have hcap' : leaves'.length ≤ maxLeafCount.toNat := hlen ▸ hcap
  have hsize : leaves.length < UInt64.size := Nat.lt_of_le_of_lt hcap maxLeafCount.toNat_lt
  have hsize' : leaves'.length < UInt64.size := hlen ▸ hsize
  refine ⟨holding leaves, holding leaves', appendAll_empty hcap, appendAll_empty hcap', ?_, ?_⟩
  · intro h2
    have hsame (h : leaves.map Digest.asLeft = leaves'.map Digest.asLeft) :
        (holding leaves).Alike (holding leaves') := holding_alike h2 hsize h
    constructor
    · intro h
      refine ⟨(hsame h).root_eq, fun more => ?_⟩
      obtain ⟨hanswer, halike⟩ :=
        (hsame h).appendAll (validate_holding hcap) (validate_holding hcap') more
      exact ⟨hanswer, halike.root_eq⟩
    · intro hfree
      refine ⟨fun hroot => ?_, fun h => (hsame h).root_eq⟩
      rw [root_holding hsize, root_holding hsize'] at hroot
      apply alike_of_root hfree hlen _ _ hroot
      · exact List.subset_append_of_subset_left _ (treeHashed_subset_appendHashed_empty hcap)
      · exact List.subset_append_of_subset_right _ (treeHashed_subset_appendHashed_empty hcap')
  · intro h1
    obtain ⟨leaf, rfl⟩ := List.length_eq_one_iff.mp h1
    obtain ⟨leaf', rfl⟩ := List.length_eq_one_iff.mp hlen.symm
    rw [root_holding hsize, root_holding hsize']
    exact List.singleton_inj.symm

theorem appendHashed_pair (a b : Digest) : empty.appendHashed [a, b] = [joined a b] := by
  have hone : frontier [a] = [a] := by simp [frontier, fullSubtrees, Merkle.root, halve]
  have htwo : Nat.clog 2 2 = 1 := by decide
  have hnil : ([] : List Digest).length < maxLeafCount.toNat := by decide
  have ha : ([] ++ [a]).length < maxLeafCount.toNat := by simp [toNat_maxLeafCount]
  rw [← holding_nil, appendHashed_cons hnil, appendHashed_cons ha, pushHashed_holding hnil,
    pushHashed_holding ha]
  simp [appendHashed, carryHashed, hone, htwo]

/-- Three leaves on other sides give the root of the three; and another second leaf of two gives
another root. -/
theorem root_eq_iff_leaves_alike_three :
    let leaves : List Digest := [.hash [1], .hash [2], .hash [3]]
    let sided := leaves.map Digest.asRight
    leaves ≠ sided ∧ leaves.length = sided.length ∧ leaves.length ≤ 2 ^ 63 ∧ 2 ≤ leaves.length ∧
    leaves.map Digest.asLeft = sided.map Digest.asLeft ∧
    (∃ acc acc', empty.appendAll leaves = (acc, .ok ()) ∧ empty.appendAll sided = (acc', .ok ()) ∧
      acc.root = acc'.root ∧
      ∀ more, (acc.appendAll more).1.root = (acc'.appendAll more).1.root) ∧
    CollisionFree Digest.asLeft
      (empty.appendHashed [.zero, .hash [1]] ++ empty.appendHashed [.zero, .hash [2]]) ∧
    ∃ acc acc', empty.appendAll [.zero, .hash [1]] = (acc, .ok ()) ∧
      empty.appendAll [.zero, .hash [2]] = (acc', .ok ()) ∧ acc.root ≠ acc'.root := by
  intro leaves sided
  have hcap : leaves.length ≤ 2 ^ 63 := by decide
  have hlen : leaves.length = sided.length := (List.length_map _).symm
  have hsides : leaves.map Digest.asLeft = sided.map Digest.asLeft := by simp [leaves, sided]
  have hne : leaves ≠ sided := by decide +kernel
  obtain ⟨acc, acc', hacc, hacc', hmany, -⟩ := root_eq_iff_leaves_alike leaves sided hlen hcap
  obtain ⟨hroot, hlater⟩ := (hmany (by decide)).1 hsides
  refine ⟨hne, hlen, hcap, by decide, hsides,
    ⟨acc, acc', hacc, hacc', hroot, fun more => (hlater more).2⟩, ?_⟩
  have hfree : CollisionFree Digest.asLeft
      (empty.appendHashed [.zero, .hash [1]] ++ empty.appendHashed [.zero, .hash [2]]) := by
    have hnodup : ([joined .zero (.hash [1]), joined .zero (.hash [2])].map
        fun s => (Digest.hash s).asLeft).Nodup := by
      decide +kernel
    rw [appendHashed_pair, appendHashed_pair]
    exact collisionFree_of_nodup hnodup
  obtain ⟨acc, acc', hacc, hacc', hmany, -⟩ :=
    root_eq_iff_leaves_alike [.zero, .hash [1]] [.zero, .hash [2]] (by simp) (by simp)
  refine ⟨hfree, acc, acc', hacc, hacc', ?_⟩
  rw [Ne, (hmany (by simp)).2 hfree]
  decide +kernel

end Accumulator

end LightClient.Merkle
