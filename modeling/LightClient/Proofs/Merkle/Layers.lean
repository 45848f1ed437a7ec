import LightClient.Merkle.Root
import LightClient.Merkle.Tree
import LightClient.Proofs.Merkle.Depth

/-!
Layers over a list of leaves. Halving a list and stacking the layers of a tree come to the same
root: that of the layer which stands above the leaves by the depth of their tree.
-/

namespace LightClient.Merkle

open Merkle.Tree (parents length_parents layersFrom)

/-! ## One layer -/

theorem length_pairUp (layer : List Digest) : (pairUp layer).length = layer.length / 2 := by
  fun_induction pairUp layer with
  | case1 left right rest ih =>
    simp only [List.length_cons, ih]
    omega
  | case2 layer h =>
    match layer, h with
    | [], _ | [_], _ => simp
    | left :: right :: rest, h => exact (h left right rest rfl).elim

theorem evenUp_cons_cons (left right : Digest) (rest : List Digest) :
    evenUp (left :: right :: rest) = left :: right :: evenUp rest := by
  cases rest with
  | nil => simp [evenUp]
  | cons a rest =>
    simp only [evenUp, List.length_cons, List.getLast?_cons_cons]
    rw [show (rest.length + 1 + 1 + 1) % 2 = (rest.length + 1) % 2 by omega]
    split <;> rfl

/-- Repeating a last odd digest and then pairing neighbours gives the parents. -/
theorem pairUp_evenUp (layer : List Digest) : pairUp (evenUp layer) = parents layer := by
  fun_induction parents layer with
  | case1 left right rest ih => rw [evenUp_cons_cons, pairUp, ih]
  | case2 left => rfl
  | case3 => rfl

theorem parents_of_even {layer : List Digest} (h : layer.length % 2 = 0) :
    parents layer = pairUp layer := by
  rw [← pairUp_evenUp, evenUp, if_neg (by omega)]

/-- Every two neighbours of a layer. -/
def neighbours : List Digest → List (Digest × Digest)
  | left :: right :: rest => (left, right) :: neighbours rest
  | _ => []

theorem pairUp_eq_map (layer : List Digest) :
    pairUp layer = (neighbours layer).map fun (left, right) => left.pair right := by
  fun_induction neighbours layer with
  | case1 left right rest ih => rw [pairUp, ih, List.map_cons]
  | case2 layer h =>
    match layer, h with
    | [], _ | [_], _ => rfl
    | left :: right :: rest, h => exact (h left right rest rfl).elim

theorem neighbours_append {layer : List Digest} (h : layer.length % 2 = 0) (rest : List Digest) :
    neighbours (layer ++ rest) = neighbours layer ++ neighbours rest := by
  fun_induction neighbours layer with
  | case1 left right layer ih =>
    simp only [List.length_cons] at h
    rw [List.cons_append, List.cons_append, neighbours, ih (by omega), List.cons_append]
  | case2 layer hn =>
    match layer, h, hn with
    | [], _, _ => rfl
    | [_], h, _ => simp at h
    | left :: right :: layer, _, hn => exact (hn left right layer rfl).elim

theorem pairUp_append {layer : List Digest} (h : layer.length % 2 = 0) (rest : List Digest) :
    pairUp (layer ++ rest) = pairUp layer ++ pairUp rest := by
  rw [pairUp_eq_map, neighbours_append h, List.map_append, ← pairUp_eq_map, ← pairUp_eq_map]

theorem pairUp_drop (layer : List Digest) (n : Nat) :
    pairUp (layer.drop (2 * n)) = (pairUp layer).drop n := by
  induction n generalizing layer with
  | zero => rfl
  | succ n ih =>
    match layer with
    | [] => simp [pairUp]
    | [_] => simp [pairUp, Nat.mul_succ]
    | left :: right :: layer => exact ih layer

theorem pairUp_take (layer : List Digest) (n : Nat) :
    pairUp (layer.take (2 * n)) = (pairUp layer).take n := by
  induction n generalizing layer with
  | zero => rfl
  | succ n ih =>
    match layer with
    | [] => simp [pairUp]
    | [_] => simp [pairUp, Nat.mul_succ]
    | left :: right :: layer => exact congrArg (left.pair right :: ·) (ih layer)

/-! ## The layers above -/

/-- The layer that stands so many levels above. -/
def above : Nat → List Digest → List Digest
  | 0, layer => layer
  | levels + 1, layer => above levels (parents layer)

/-- The root of a tree of so many levels over a layer. -/
def top (levels : Nat) (layer : List Digest) : Digest :=
  (above levels layer).headD .zero

theorem above_succ (levels : Nat) (layer : List Digest) :
    above (levels + 1) layer = parents (above levels layer) := by
  induction levels generalizing layer with
  | zero => rfl
  | succ levels ih => exact ih (parents layer)

theorem length_above {levels : Nat} {layer : List Digest} (h0 : layer ≠ [])
    (h : layer.length ≤ 2 ^ levels) : (above levels layer).length = 1 := by
  induction levels generalizing layer with
  | zero =>
    have := List.length_pos_iff.mpr h0
    rw [above]
    omega
  | succ levels ih =>
    have := List.length_pos_iff.mpr h0
    have hlen := length_parents layer
    refine ih (List.length_pos_iff.mp (by omega)) ?_
    rw [Nat.pow_succ] at h
    omega

/-- At the depth of the tree there is nothing but the root. -/
theorem above_eq_top {levels : Nat} {layer : List Digest} (h0 : layer ≠ [])
    (h : layer.length ≤ 2 ^ levels) : above levels layer = [top levels layer] := by
  obtain ⟨d, hd⟩ := List.length_eq_one_iff.mp (length_above h0 h)
  rw [top, hd]
  rfl

/-! ## Roots -/

theorem halve_eq_above {rounds : Nat} {layer : List Digest}
    (h : Nat.clog 2 layer.length ≤ rounds) :
    halve rounds layer = above (Nat.clog 2 layer.length) layer := by
  induction rounds generalizing layer with
  | zero => rw [Nat.le_zero.mp h]; rfl
  | succ rounds ih =>
    rw [halve]
    split
    · next hlen => rw [Nat.clog_of_right_le_one hlen]; rfl
    · next hlen =>
      rw [clog_halve (by omega)] at h ⊢
      rw [pairUp_evenUp, above, ← length_parents]
      rw [← length_parents] at h
      exact ih (by omega)

theorem root_eq_top (leaves : List Digest) :
    root leaves = top (Nat.clog 2 leaves.length) leaves := by
  rw [root, halve_eq_above (Nat.clog_le_of_le_pow (Nat.le_of_lt Nat.lt_two_pow_self))]
  rfl

theorem layersFrom_ne_nil (layer : List Digest) : layersFrom layer ≠ [] := by
  rw [layersFrom]
  split <;> simp

/-- The last layer of a tree is the one that stands above the leaves by its depth. -/
theorem getLast?_layersFrom (layer : List Digest) :
    (layersFrom layer).getLast? = some (above (Nat.clog 2 layer.length) layer) := by
  fun_induction layersFrom layer with
  | case1 layer h => rw [Nat.clog_of_right_le_one h]; rfl
  | case2 layer h ih =>
    rw [clog_halve (by omega), ← length_parents, above, ← ih]
    obtain ⟨a, rest, heq⟩ := List.exists_cons_of_ne_nil (layersFrom_ne_nil (parents layer))
    rw [heq, List.getLast?_cons_cons]

theorem length_layersFrom (layer : List Digest) :
    (layersFrom layer).length = Nat.clog 2 layer.length + 1 := by
  fun_induction layersFrom layer with
  | case1 layer h =>
    rw [Nat.clog_of_right_le_one h]
    rfl
  | case2 layer h ih =>
    rw [clog_halve (by omega), ← length_parents, List.length_cons, ih]

/-- The layers of a tree stand one above the other. -/
theorem getElem?_layersFrom {level : Nat} {layer : List Digest}
    (h : level ≤ Nat.clog 2 layer.length) :
    (layersFrom layer)[level]? = some (above level layer) := by
  fun_induction layersFrom layer generalizing level with
  | case1 layer hone =>
    rw [Nat.clog_of_right_le_one hone] at h
    obtain rfl := Nat.le_zero.mp h
    rfl
  | case2 layer hmany ih =>
    cases level with
    | zero => rfl
    | succ level =>
      rw [clog_halve (by omega), ← length_parents] at h
      rw [List.getElem?_cons_succ, above, ih (by omega)]

/-- A tree has the root of its leaves. -/
theorem Tree.root_ofLeaves (leaves : List Digest) :
    (Tree.ofLeaves leaves).root = Merkle.root leaves := by
  rw [Tree.root, Tree.ofLeaves, getLast?_layersFrom, root_eq_top]
  rfl

theorem root_pair (left right : Digest) : root [left, right] = left.pair right := by
  simp [root, halve, evenUp, pairUp]

theorem root_parents {layer : List Digest} (h : 2 ≤ layer.length) :
    root (parents layer) = root layer := by
  rw [root_eq_top layer, root_eq_top, clog_halve h, length_parents]
  rfl

/-- A layer of a tree is the lowest of a tree with the same root, and with so many layers less. -/
theorem root_above {level : Nat} {layer : List Digest} (h : level ≤ Nat.clog 2 layer.length) :
    root (above level layer) = root layer ∧
      Nat.clog 2 (above level layer).length = Nat.clog 2 layer.length - level := by
  induction level generalizing layer with
  | zero => exact ⟨rfl, rfl⟩
  | succ level ih =>
    have hmany : 2 ≤ layer.length := by
      by_contra hone
      rw [Nat.clog_of_right_le_one (by omega)] at h
      omega
    rw [clog_halve hmany, ← length_parents] at h ⊢
    obtain ⟨hroot, hdepth⟩ := ih (Nat.le_of_succ_le_succ h)
    exact ⟨hroot.trans (root_parents hmany), by rw [above, hdepth, Nat.add_sub_add_right]⟩

end LightClient.Merkle
