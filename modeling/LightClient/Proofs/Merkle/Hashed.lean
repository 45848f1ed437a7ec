import LightClient.Proofs.Merkle.Growth
import LightClient.Proofs.Merkle.Pair
import Mathlib.Data.List.Nodup

/-!
What is hashed on the way to a root: the byte strings of the pairs in a tree, along a path, and in
an append. Main statement: the pairs of a tree are among those that were hashed when its leaves were
appended one by one.
-/

namespace LightClient.Merkle

open Digest (joined)
open Merkle.Tree (parents)

/-- No two different byte strings of a log have hashes that look the same. -/
def CollisionFree {α : Type} (view : Digest → α) (log : List (List UInt8)) : Prop :=
  ∀ a ∈ log, ∀ b ∈ log, view (.hash a) = view (.hash b) → a = b

theorem CollisionFree.mono {α : Type} {view : Digest → α} {log log' : List (List UInt8)}
    (h : CollisionFree view log) (hsub : log' ⊆ log) : CollisionFree view log' :=
  fun a ha b hb => h a (hsub ha) b (hsub hb)

/-- A log is free of collisions if its hashes all look different. -/
theorem collisionFree_of_nodup {α : Type} {view : Digest → α} {log : List (List UInt8)}
    (h : (log.map fun s => view (.hash s)).Nodup) : CollisionFree view log :=
  fun _ ha _ hb heq => List.inj_on_of_nodup_map h ha hb heq

/-! ## Trees -/

/-- The byte strings of every two neighbours. -/
def joinUp (layer : List Digest) : List (List UInt8) :=
  (neighbours layer).map fun (left, right) => joined left right

/-- What is hashed on so many levels above a layer. -/
def treeHashed : Nat → List Digest → List (List UInt8)
  | 0, _ => []
  | levels + 1, layer => joinUp (evenUp layer) ++ treeHashed levels (parents layer)

/-- What is hashed for the full subtrees over a layer. -/
def fullHashed : Nat → List Digest → List (List UInt8)
  | 0, _ => []
  | levels + 1, layer => joinUp layer ++ fullHashed levels (pairUp layer)

theorem joinUp_append {layer : List Digest} (h : layer.length % 2 = 0) (rest : List Digest) :
    joinUp (layer ++ rest) = joinUp layer ++ joinUp rest := by
  rw [joinUp, neighbours_append h, List.map_append, joinUp, joinUp]

theorem mem_of_mem_neighbours {layer : List Digest} {l r : Digest}
    (h : (l, r) ∈ neighbours layer) : l ∈ layer ∧ r ∈ layer := by
  fun_induction neighbours layer with
  | case1 left right rest ih =>
    cases List.mem_cons.mp h with
    | inl heq =>
      obtain ⟨rfl, rfl⟩ := Prod.mk.inj heq
      simp
    | inr h =>
      obtain ⟨hl, hr⟩ := ih h
      simp [hl, hr]
  | case2 => exact absurd h List.not_mem_nil

theorem mem_of_mem_evenUp {layer : List Digest} {d : Digest} (h : d ∈ evenUp layer) :
    d ∈ layer := by
  rw [evenUp] at h
  split at h
  · cases List.mem_append.mp h with
    | inl h =>
      exact h
    | inr h =>
      exact List.mem_of_getLast? (Option.mem_toList.mp h)
  · exact h

/-- A parent is the hash of the byte string of two digests below. -/
theorem exists_joined_of_mem_parents {layer : List Digest} {d : Digest} (h : d ∈ parents layer) :
    ∃ l ∈ layer, ∃ r ∈ layer, d = l.pair r ∧ joined l r ∈ joinUp (evenUp layer) := by
  rw [← pairUp_evenUp, pairUp_eq_map] at h
  obtain ⟨⟨l, r⟩, hlr, rfl⟩ := List.mem_map.mp h
  obtain ⟨hl, hr⟩ := mem_of_mem_neighbours hlr
  exact ⟨l, mem_of_mem_evenUp hl, r, mem_of_mem_evenUp hr, rfl, List.mem_map.mpr ⟨_, hlr, rfl⟩⟩

theorem treeHashed_succ (levels : Nat) (layer : List Digest) :
    treeHashed (levels + 1) layer =
      treeHashed levels layer ++ joinUp (evenUp (above levels layer)) := by
  induction levels generalizing layer with
  | zero => rw [treeHashed, treeHashed, treeHashed, above, List.append_nil, List.nil_append]
  | succ levels ih => rw [treeHashed, ih, treeHashed, above, List.append_assoc]

theorem treeHashed_mono {lower levels : Nat} (h : lower ≤ levels) (layer : List Digest) :
    treeHashed lower layer ⊆ treeHashed levels layer := by
  induction h with
  | refl => exact List.Subset.refl _
  | step _ ih =>
    rw [treeHashed_succ]
    exact List.subset_append_of_subset_left _ ih

/-- A digest above the lowest layer is the hash of a pair of the tree. -/
theorem exists_hashed_of_mem_above {level levels : Nat} {layer : List Digest} {d : Digest}
    (h0 : 0 < level) (h : level ≤ levels) (hd : d ∈ above level layer) :
    ∃ s ∈ treeHashed levels layer, s.length = 64 ∧ d = .hash s := by
  obtain ⟨below, rfl⟩ : ∃ n, level = n + 1 := ⟨level - 1, by omega⟩
  rw [above_succ] at hd
  obtain ⟨l, -, r, -, rfl, hs⟩ := exists_joined_of_mem_parents hd
  refine ⟨joined l r, treeHashed_mono h layer ?_, Digest.length_joined .., rfl⟩
  rw [treeHashed_succ]
  exact List.mem_append_right _ hs

/-! ## Full subtrees -/

theorem fullHashed_of_length_le_one {layer : List Digest} (h : layer.length ≤ 1) (levels : Nat) :
    fullHashed levels layer = [] := by
  induction levels generalizing layer with
  | zero => rfl
  | succ levels ih =>
    have hnone : neighbours layer = [] := by
      match layer, h with
      | [], _ | [_], _ => rfl
    rw [fullHashed, joinUp, hnone, pairUp_eq_map, hnone]
    exact ih (Nat.zero_le 1)

/-- There are no full subtrees higher up than the depth of the tree. -/
theorem fullHashed_subset_of_le {layer : List Digest} {depth : Nat}
    (h : layer.length ≤ 2 ^ depth) (levels : Nat) :
    fullHashed levels layer ⊆ fullHashed depth layer := by
  induction levels generalizing layer depth with
  | zero => exact List.nil_subset _
  | succ levels ih =>
    cases depth with
    | zero =>
      rw [fullHashed_of_length_le_one (by simpa using h)]
      exact List.nil_subset _
    | succ depth =>
      have hhalf : (pairUp layer).length ≤ 2 ^ depth := by
        rw [length_pairUp]
        rw [Nat.pow_succ] at h
        omega
      exact List.append_subset_of_subset_of_subset (List.subset_append_left ..)
        (List.subset_append_of_subset_right _ (ih hhalf))

/-- The full subtrees over the first leaves of a tree are parts of the tree. -/
theorem fullHashed_subset_treeHashed (levels : Nat) (layer rest : List Digest) :
    fullHashed levels layer ⊆ treeHashed levels (layer ++ rest) := by
  induction levels generalizing layer rest with
  | zero => exact List.nil_subset _
  | succ levels ih =>
    have heven (layer rest : List Digest) (h : layer.length % 2 = 0) :
        fullHashed (levels + 1) layer ⊆ treeHashed (levels + 1) (layer ++ rest) := by
      rw [fullHashed, treeHashed, evenUp_append h, joinUp_append h, parents_append h]
      exact List.append_subset_of_subset_of_subset
        (List.subset_append_of_subset_left _ (List.subset_append_left ..))
        (List.subset_append_of_subset_right _ (ih ..))
    cases Nat.mod_two_eq_zero_or_one layer.length with
    | inl h =>
      exact heven layer rest h
    | inr h =>
      obtain ⟨init, last, hinit, rfl⟩ := exists_concat_of_odd h
      have hlast : fullHashed (levels + 1) (init ++ [last]) = fullHashed (levels + 1) init := by
        have hnone : joinUp [last] = [] := rfl
        rw [fullHashed, fullHashed, pairUp_concat hinit, joinUp_append hinit, hnone,
          List.append_nil]
      rw [hlast, List.append_assoc]
      exact heven init _ hinit

/-! ## Paths -/

namespace Path

/-- The bytes that are hashed for the parent of a digest and its sibling. -/
def climbHashed (below sibling : Digest) : List UInt8 :=
  if sibling.isLeft then joined sibling below else joined below sibling

/-- What is hashed along siblings. -/
def hashedFrom (leaf : Digest) : List Digest → List (List UInt8)
  | [] => []
  | sibling :: siblings => climbHashed leaf sibling :: hashedFrom (climb leaf sibling) siblings

/-- What is hashed to check a path. -/
def hashed (path : Path) (leaf : Digest) : List (List UInt8) :=
  hashedFrom leaf path.entries

theorem climb_eq_hash (below sibling : Digest) :
    climb below sibling = .hash (climbHashed below sibling) := by
  rw [climb, climbHashed]
  split <;> rfl

@[simp] theorem length_climbHashed (below sibling : Digest) :
    (climbHashed below sibling).length = 64 := by
  rw [climbHashed]
  split <;> exact Digest.length_joined ..

theorem hashed_asRight (left right : Digest) :
    hashed ⟨[right.asRight]⟩ left = [joined left right] := by
  simp [hashed, hashedFrom, climbHashed]

theorem hashedFrom_append (leaf : Digest) (siblings more : List Digest) :
    hashedFrom leaf (siblings ++ more) =
      hashedFrom leaf siblings ++ hashedFrom (siblings.foldl climb leaf) more := by
  induction siblings generalizing leaf with
  | nil => rfl
  | cons sibling siblings ih => exact congrArg (_ :: ·) (ih _)

/-- The end of a path that is not empty is one of the hashes made along it. -/
theorem exists_hashed_of_ne_nil {siblings : List Digest} (h : siblings ≠ []) (leaf : Digest) :
    ∃ s ∈ hashedFrom leaf siblings, s.length = 64 ∧ siblings.foldl climb leaf = .hash s := by
  rw [← List.dropLast_append_getLast h, hashedFrom_append, List.foldl_append]
  exact ⟨_, List.mem_append_right _ List.mem_cons_self, length_climbHashed .., climb_eq_hash ..⟩

end Path

/-! ## Appends -/

namespace Accumulator

/-- What is hashed when a digest is carried up. -/
def carryHashed : Nat → Nat → Digest → List Digest → List (List UInt8)
  | 0, _, _, _ => []
  | levels + 1, count, top, old =>
    if count % 2 = 0 then joined top top :: carryHashed levels (count / 2) (top.pair top) old
    else
      match old with
      | [] => []
      | left :: old => joined left top :: carryHashed levels (count / 2) (left.pair top) old

/-- What is hashed when a leaf is appended. -/
def pushHashed (acc : Accumulator) (leaf : Digest) : List (List UInt8) :=
  if acc.leafCount ≥ maxLeafCount then []
  else carryHashed (maxDepth (acc.leafCount + 1) - 1) acc.leafCount.toNat leaf acc.nodes

theorem carryHashed_even {levels count : Nat} (h : count % 2 = 0) (d : Digest)
    (old : List Digest) :
    carryHashed (levels + 1) count d old =
      joined d d :: carryHashed levels (count / 2) (d.pair d) old := by
  rw [carryHashed.eq_def]
  exact if_pos h

theorem carryHashed_odd {levels count : Nat} (h : count % 2 = 1) (d l : Digest)
    (old : List Digest) :
    carryHashed (levels + 1) count d (l :: old) =
      joined l d :: carryHashed levels (count / 2) (l.pair d) old := by
  rw [carryHashed.eq_def]
  exact if_neg (by omega)

/-- The pairs of a tree with one more digest are those of full subtrees without it, and those that
are made when the digest is carried up. -/
theorem treeHashed_concat (levels : Nat) (layer : List Digest) (d : Digest) (rest : List Digest) :
    treeHashed levels (layer ++ [d]) ⊆
      fullHashed levels layer ++ carryHashed levels layer.length d (peaks layer ++ rest) := by
  induction levels generalizing layer d with
  | zero => exact List.nil_subset _
  | succ levels ih =>
    intro s hs
    -- On this level the digest makes one pair: with itself if no digest stands alone before it,
    -- and with that one otherwise.
    rw [treeHashed, List.mem_append] at hs
    cases Nat.mod_two_eq_zero_or_one layer.length with
    | inl heven =>
      have hrest := @ih (pairUp layer) (d.pair d) s
      rw [← parents_concat heven, ← peaks_of_even heven, length_pairUp] at hrest
      have hpairs : joinUp (evenUp (layer ++ [d])) = joinUp layer ++ [joined d d] := by
        rw [evenUp_append heven, joinUp_append heven]
        rfl
      rw [hpairs] at hs
      rw [fullHashed, carryHashed_even heven]
      simp only [List.mem_append, List.mem_cons, List.not_mem_nil, or_false] at hs hrest ⊢
      tauto
    | inr hodd =>
      obtain ⟨init, l, hinit, rfl⟩ := exists_concat_of_odd hodd
      have hrest := @ih (pairUp init) (l.pair d) s
      rw [← parents_concat_concat hinit, length_pairUp_concat hinit l] at hrest
      have hpairs : joinUp (evenUp (init ++ [l] ++ [d])) = joinUp init ++ [joined l d] := by
        have htwo : evenUp ([l] ++ [d]) = [l, d] := by simp [evenUp]
        rw [List.append_assoc, evenUp_append hinit, joinUp_append hinit, htwo]
        rfl
      have hnone : joinUp [l] = [] := rfl
      rw [hpairs] at hs
      rw [fullHashed, pairUp_concat hinit, joinUp_append hinit, hnone, peaks_concat hinit,
        List.cons_append, carryHashed_odd hodd]
      simp only [List.mem_append, List.mem_cons, List.not_mem_nil, or_false] at hs hrest ⊢
      tauto

theorem pushHashed_holding {leaves : List Digest} (h : leaves.length < maxLeafCount.toNat)
    (leaf : Digest) : (holding leaves).pushHashed leaf =
      carryHashed (Nat.clog 2 (leaves.length + 1)) leaves.length leaf (frontier leaves) := by
  obtain ⟨hcount, hlt⟩ := leafCount_holding_lt h
  rw [pushHashed, if_neg (UInt64.not_le.mpr hlt), maxDepth_leafCount_succ hlt, hcount, holding]

/-- One more leaf makes no other pairs than those of its append. -/
theorem treeHashed_concat_subset {leaves : List Digest}
    (h : leaves.length < maxLeafCount.toNat) (leaf : Digest) :
    treeHashed (Nat.clog 2 (leaves ++ [leaf]).length) (leaves ++ [leaf]) ⊆
      treeHashed (Nat.clog 2 leaves.length) leaves ++ (holding leaves).pushHashed leaf := by
  obtain ⟨rest, hrest⟩ := exists_frontier_eq leaves
  have hfull := fullHashed_subset_of_le (Nat.le_pow_clog Nat.one_lt_two leaves.length)
    (Nat.clog 2 (leaves.length + 1))
  have htree := fullHashed_subset_treeHashed (Nat.clog 2 leaves.length) leaves []
  rw [List.append_nil] at htree
  rw [pushHashed_holding h, hrest, List.length_append, List.length_singleton]
  intro s hs
  cases List.mem_append.mp (treeHashed_concat _ leaves leaf rest hs) with
  | inl hs =>
    exact List.mem_append_left _ (htree (hfull hs))
  | inr hs =>
    exact List.mem_append_right _ hs

/-- What is hashed when leaves are appended one after the other. -/
def appendHashed (acc : Accumulator) : List Digest → List (List UInt8)
  | [] => []
  | leaf :: leaves =>
    acc.pushHashed leaf ++
      match acc.append leaf with
      | .ok acc => acc.appendHashed leaves
      | .error _ => []

theorem appendHashed_cons {leaves : List Digest} (h : leaves.length < maxLeafCount.toNat)
    (leaf : Digest) (more : List Digest) : (holding leaves).appendHashed (leaf :: more) =
      (holding leaves).pushHashed leaf ++ (holding (leaves ++ [leaf])).appendHashed more := by
  rw [appendHashed, append_holding h]

/-- The pairs of a tree are made when its leaves are appended. -/
theorem treeHashed_subset_appendHashed {leaves more : List Digest}
    (h : (leaves ++ more).length ≤ maxLeafCount.toNat) :
    treeHashed (Nat.clog 2 (leaves ++ more).length) (leaves ++ more) ⊆
      treeHashed (Nat.clog 2 leaves.length) leaves ++ (holding leaves).appendHashed more := by
  induction more generalizing leaves with
  | nil =>
    rw [List.append_nil]
    exact List.subset_append_left ..
  | cons leaf more ih =>
    have hlen : leaves.length < maxLeafCount.toNat := by
      rw [List.length_append, List.length_cons] at h
      omega
    rw [List.append_cons] at h ⊢
    rw [appendHashed_cons hlen]
    intro s hs
    have hstep := @treeHashed_concat_subset leaves hlen leaf s
    have hrest := ih h hs
    simp only [List.mem_append] at hstep hrest ⊢
    tauto

end Accumulator

end LightClient.Merkle
