import LightClient.Proofs.Merkle.Hashed
import Mathlib.Data.List.Induction

/-!
What an accepted path proves. Main statement: as far as no two of the byte strings that were hashed
collide, a path which is no longer than the tree is deep and leads to a node of the tree starts at a
node of the tree.
-/

namespace LightClient.Merkle

open Digest (joined)
open Merkle.Tree (parents)

/-- A digest looks the same on both sides. -/
def SideBlind {α : Type} (view : Digest → α) : Prop :=
  ∀ a b : Digest, a.asLeft = b.asLeft → view a = view b

section Binding

variable {α : Type} {view : Digest → α} {log : List (List UInt8)}

/-- The digest below on a path looks like one of the two below the node that it leads to. -/
theorem view_eq_of_climbHashed_eq (hview : SideBlind view) {below sibling l r : Digest}
    (h : Path.climbHashed below sibling = joined l r) :
    view below = view l ∨ view below = view r := by
  rw [Path.climbHashed] at h
  split at h
  · exact .inr (hview _ _ (Digest.joined_inj h).2)
  · exact .inl (hview _ _ (Digest.joined_inj h).1)

/-- **A path that leads to a node of a tree starts at a node of the tree**, so many layers below as
the path has entries. -/
theorem exists_node_of_fold (hview : SideBlind view) (hfree : CollisionFree view log)
    {levels : Nat} {leaves siblings : List Digest} {leaf node : Digest}
    (htree : treeHashed levels leaves ⊆ log) (hpath : Path.hashedFrom leaf siblings ⊆ log)
    (hlen : siblings.length ≤ levels) (hnode : node ∈ above levels leaves)
    (hfold : view (siblings.foldl Path.climb leaf) = view node) :
    ∃ d ∈ above (levels - siblings.length) leaves, view leaf = view d := by
  induction siblings using List.reverseRecOn generalizing levels node with
  | nil => exact ⟨node, hnode, hfold⟩
  | append_singleton siblings sibling ih =>
    -- The last entry is taken off, and with it the top layer.
    rw [List.length_append, List.length_singleton] at hlen ⊢
    obtain ⟨levels, rfl⟩ : ∃ n, levels = n + 1 := ⟨levels - 1, by omega⟩
    rw [above_succ] at hnode
    rw [treeHashed_succ, List.append_subset] at htree
    rw [Path.hashedFrom_append, List.append_subset] at hpath
    obtain ⟨l, hl, r, hr, rfl, hjoined⟩ := exists_joined_of_mem_parents hnode
    rw [List.foldl_append, List.foldl_cons, List.foldl_nil, Path.climb_eq_hash,
      Digest.pair_eq_hash] at hfold
    have heq := hfree _ (hpath.2 List.mem_cons_self) _ (htree.2 hjoined) hfold
    rw [Nat.add_sub_add_right]
    cases view_eq_of_climbHashed_eq hview heq with
    | inl hleft =>
      exact ih htree.1 hpath.1 (by omega) hl hleft
    | inr hright =>
      exact ih htree.1 hpath.1 (by omega) hr hright

/-- A path with more entries than the tree has layers hashes something that looks like a leaf. -/
theorem exists_hashed_of_fold (hview : SideBlind view) (hfree : CollisionFree view log)
    {levels : Nat} {leaves siblings : List Digest} {leaf node : Digest}
    (htree : treeHashed levels leaves ⊆ log) (hpath : Path.hashedFrom leaf siblings ⊆ log)
    (hlen : levels < siblings.length) (hnode : node ∈ above levels leaves)
    (hfold : view (siblings.foldl Path.climb leaf) = view node) :
    ∃ d ∈ leaves, ∃ s ∈ Path.hashedFrom leaf siblings, s.length = 64 ∧
      view (.hash s) = view d := by
  have hsplit := List.take_append_drop (siblings.length - levels) siblings
  have hne : siblings.take (siblings.length - levels) ≠ [] := by
    rw [← List.length_pos_iff, List.length_take]
    omega
  have hdrop : (siblings.drop (siblings.length - levels)).length = levels := by
    rw [List.length_drop]
    omega
  rw [← hsplit, Path.hashedFrom_append] at hpath ⊢
  rw [← hsplit, List.foldl_append] at hfold
  obtain ⟨s, hs, hlength, heq⟩ := Path.exists_hashed_of_ne_nil hne leaf
  obtain ⟨d, hd, hview⟩ := exists_node_of_fold hview hfree htree
    (List.append_subset.mp hpath).2 (Nat.le_of_eq hdrop) hnode hfold
  rw [hdrop, Nat.sub_self] at hd
  exact ⟨d, hd, s, List.mem_append_left _ hs, hlength, heq ▸ hview⟩

end Binding

/-! ## Two leaves with one path -/

namespace Path

variable {leaf leaf' : Digest}

/-- What is hashed for a parent does not depend on the side that the digest below had before. -/
theorem climbHashed_congr (h : leaf.asLeft = leaf'.asLeft) (sibling : Digest) :
    climbHashed leaf sibling = climbHashed leaf' sibling := by
  rw [climbHashed, climbHashed, Digest.joined_congr rfl h, Digest.joined_congr h rfl]

theorem asLeft_eq_of_climbHashed_eq {sibling : Digest}
    (h : climbHashed leaf sibling = climbHashed leaf' sibling) : leaf.asLeft = leaf'.asLeft := by
  rw [climbHashed, climbHashed] at h
  split at h
  · exact (Digest.joined_inj h).2
  · exact (Digest.joined_inj h).1

/-- On a path that is not empty a leaf leads to the same root from any side. -/
theorem fold_congr {path : Path} (hne : path.entries ≠ []) (h : leaf.asLeft = leaf'.asLeft) :
    path.fold leaf = path.fold leaf' := by
  obtain ⟨sibling, siblings, hpath⟩ := List.exists_cons_of_ne_nil hne
  rw [fold, fold, hpath, List.foldl_cons, List.foldl_cons, climb_eq_hash, climb_eq_hash,
    climbHashed_congr h]

theorem hashed_congr (path : Path) (h : leaf.asLeft = leaf'.asLeft) :
    path.hashed leaf = path.hashed leaf' := by
  rw [hashed, hashed]
  cases path.entries with
  | nil => rfl
  | cons sibling siblings =>
    rw [hashedFrom, hashedFrom, climb_eq_hash, climb_eq_hash, climbHashed_congr h]

/-- Leaves that one path leads to roots that look alike are themselves alike, or two different byte
strings were hashed on the way whose hashes are. -/
theorem asLeft_eq_of_foldl_climb {siblings : List Digest}
    (h : (siblings.foldl climb leaf).asLeft = (siblings.foldl climb leaf').asLeft) :
    leaf.asLeft = leaf'.asLeft ∨
      ∃ a ∈ hashedFrom leaf siblings, ∃ b ∈ hashedFrom leaf' siblings,
        a ≠ b ∧ (Digest.hash a).asLeft = (Digest.hash b).asLeft := by
  induction siblings generalizing leaf leaf' with
  | nil => exact .inl h
  | cons sibling siblings ih =>
    rcases ih h with hparent | ⟨a, ha, b, hb, hne, heq⟩
    · by_cases hsame : climbHashed leaf sibling = climbHashed leaf' sibling
      · exact .inl (asLeft_eq_of_climbHashed_eq hsame)
      · rw [climb_eq_hash, climb_eq_hash] at hparent
        exact .inr ⟨_, List.mem_cons_self, _, List.mem_cons_self, hsame, hparent⟩
    · exact .inr ⟨a, List.mem_cons_of_mem _ ha, b, List.mem_cons_of_mem _ hb, hne, heq⟩

end Path

end LightClient.Merkle
