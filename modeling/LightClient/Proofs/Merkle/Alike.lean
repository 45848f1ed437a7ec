import LightClient.Proofs.Merkle.Obtainable

/-!
Accumulators with one root that differ in sides only. Main statements: accumulators with as many
leaves and one root that both pass the check are such, as far as nothing collides that the checks
hash; and appends keep this, and give the same roots.
-/

namespace LightClient.Merkle

namespace Frontier

variable {nodes nodes' : List Digest} {leafCount : UInt64}

/-- Frontiers that are accepted for one number of leaves, and end in one root, differ in the sides
of their nodes only. -/
theorem Accepted.alike (h : Accepted nodes leafCount) (h' : Accepted nodes' leafCount)
    (hroot : nodes.getLastD .zero = nodes'.getLastD .zero)
    (hfree : CollisionFree Digest.asLeft
      (validateHashed nodes leafCount ++ validateHashed nodes' leafCount)) :
    nodes.map Digest.asLeft = nodes'.map Digest.asLeft := by
  have hlen : nodes.length = nodes'.length := h.length_eq.trans h'.length_eq.symm
  rcases List.eq_nil_or_concat' nodes with rfl | ⟨below, root, rfl⟩
  · rw [List.length_eq_zero_iff.mp hlen.symm]
  rcases List.eq_nil_or_concat' nodes' with rfl | ⟨below', root', rfl⟩
  · exact absurd hlen (by simp)
  rw [List.getLastD_concat, List.getLastD_concat] at hroot
  suffices hbelow : below.map Digest.asLeft = below'.map Digest.asLeft by
    rw [List.map_append, List.map_append, hbelow, hroot]
  by_cases hone : (below ++ [root]).length ≤ 1
  · simp only [List.length_append, List.length_singleton] at hone hlen
    rw [List.eq_nil_of_length_eq_zero (show below.length = 0 by omega),
      List.eq_nil_of_length_eq_zero (show below'.length = 0 by omega)]
  · have hone' := hlen ▸ hone
    rw [h.validateHashed_eq hone, h'.validateHashed_eq hone'] at hfree
    have hclimb := h.climb_eq.resolve_left hone
    have hclimb' := h'.climb_eq.resolve_left hone'
    simp only [List.dropLast_concat, List.getLastD_concat] at hclimb hclimb' hfree
    exact (alike_of_climb hfree rfl hclimb hclimb' (List.subset_append_left ..)
      (List.subset_append_right ..) (congrArg _ hroot)).1

/-- The sides of the nodes below the root are not checked. -/
theorem Accepted.congr {below below' : List Digest} {root : Digest}
    (h : Accepted (below ++ [root]) leafCount)
    (halike : below.map Digest.asLeft = below'.map Digest.asLeft) :
    Accepted (below' ++ [root]) leafCount := by
  have hlen : (below' ++ [root]).length = (below ++ [root]).length := by
    have hbelow := congrArg List.length halike
    rw [List.length_map, List.length_map] at hbelow
    rw [List.length_append, List.length_append, hbelow]
  have hclimb := h.climb_eq
  rw [List.dropLast_concat, List.getLastD_concat] at hclimb
  refine ⟨h.within_capacity, hlen.trans h.length_eq, ?_⟩
  rw [hlen, List.dropLast_concat, List.getLastD_concat]
  exact hclimb.imp id (climb_congr halike)

end Frontier

namespace Accumulator

open Frontier (Accepted validateHashed)

variable {acc acc' after : Accumulator} {leaf root d : Digest} {levels count : Nat}
  {partly : Bool} {old old' kept : List Digest}

/-- Accumulators with one root that differ in the sides of their nodes only. -/
structure Alike (acc acc' : Accumulator) : Prop where
  leafCount_eq : acc.leafCount = acc'.leafCount
  nodes_alike : acc.nodes.map Digest.asLeft = acc'.nodes.map Digest.asLeft
  root_eq : acc.root = acc'.root

/-- What is hashed when packed bytes are read and checked. -/
def decodeHashed (bytes : List UInt8) : List (List UInt8) :=
  match parts.whole "incremental merkle" bytes with
  | .ok (nodes, leafCount) => validateHashed nodes leafCount
  | .error _ => []

theorem decodeHashed_eq {bytes : List UInt8} (h : decode bytes = .ok acc) :
    decodeHashed bytes = validateHashed acc.nodes acc.leafCount := by
  rw [decodeHashed, (decode_eq_ok.mp h).1]

/-- The last node is the root, also of no leaves. -/
theorem root_of_accepted (h : Accepted acc.nodes acc.leafCount) :
    acc.root = acc.nodes.getLastD .zero := by
  rw [Accumulator.root]
  split
  · next h0 =>
    have hlen := h.length_eq
    rw [h0, show frontierLength 0 = 0 by decide, List.length_eq_zero_iff] at hlen
    rw [hlen]
    rfl
  · rfl

/-- **One root allows alike accumulators only.** Packed bytes that are accepted with as many leaves
and one root give accumulators that are alike, as far as nothing that their checks hash collides up
to the side of its hash. -/
theorem alike_of_decode {bytes bytes' : List UInt8} (h : decode bytes = .ok acc)
    (h' : decode bytes' = .ok acc') (hcount : acc.leafCount = acc'.leafCount)
    (hroot : acc.root = acc'.root)
    (hfree : CollisionFree Digest.asLeft (decodeHashed bytes ++ decodeHashed bytes')) :
    Alike acc acc' := by
  have haccepted := validate_iff_accepted.mp (decode_eq_ok.mp h).2
  have haccepted' := validate_iff_accepted.mp (decode_eq_ok.mp h').2
  rw [decodeHashed_eq h, decodeHashed_eq h', ← hcount] at hfree
  refine ⟨hcount, ?_, hroot⟩
  rw [root_of_accepted haccepted, root_of_accepted haccepted'] at hroot
  exact haccepted.alike (hcount ▸ haccepted') hroot hfree

/-- A carry does not depend on the sides of the nodes that it finds on the left. -/
theorem exists_alike_carry (h : old.map Digest.asLeft = old'.map Digest.asLeft)
    (hc : carry levels count d partly old = some (kept, root)) :
    ∃ kept', carry levels count d partly old' = some (kept', root) ∧
      kept.map Digest.asLeft = kept'.map Digest.asLeft := by
  induction levels generalizing count d partly old old' kept with
  | zero =>
    obtain ⟨rfl, rfl⟩ := Prod.mk.inj (Option.some.inj hc)
    exact ⟨[], rfl, rfl⟩
  | succ levels ih =>
    rcases carry_succ_cases hc with
      ⟨heven, above, habove, rfl⟩ | ⟨hodd, l, rest, above, rfl, habove, rfl⟩
    · obtain ⟨above', habove', halike⟩ := ih h habove
      rw [carry_even heven, habove']
      refine ⟨_, rfl, ?_⟩
      cases partly
      · exact congrArg (d.asLeft :: ·) halike
      · exact halike
    · obtain ⟨l', rest', rfl, hl, hrest⟩ := List.map_eq_cons_iff.mp h.symm
      obtain ⟨above', habove', halike⟩ := ih hrest.symm habove
      rw [carry_odd hodd, Digest.pair_congr hl rfl, habove']
      refine ⟨_, rfl, ?_⟩
      cases partly
      · exact halike
      · rw [if_pos rfl, if_pos rfl, List.map_cons, List.map_cons, hl, halike]

/-- **Appends do not tell alike accumulators apart**: the roots are the same, and the accumulators
stay alike. -/
theorem Alike.append (h : Alike acc acc') (ha : acc.append leaf = .ok after) :
    ∃ after', acc'.append leaf = .ok after' ∧ Alike after after' := by
  obtain ⟨root, hp⟩ := append_eq_ok.mp ha
  obtain ⟨hlt, kept, hc, rfl⟩ := push_cases hp
  obtain ⟨kept', hc', halike⟩ := exists_alike_carry h.nodes_alike hc
  have hp' : acc'.push leaf = .ok (root, ⟨kept' ++ [root], acc'.leafCount + 1⟩) := by
    rw [h.leafCount_eq] at hlt hc'
    rw [push, if_neg (UInt64.not_le.mpr hlt)]
    simp only [maxDepth_leafCount_succ hlt, hc']
  refine ⟨_, append_eq_ok.mpr ⟨root, hp'⟩, congrArg (· + 1) h.leafCount_eq, ?_, ?_⟩
  · rw [List.map_append, List.map_append, halike]
  · rw [(leafCount_root_push hp).2, (leafCount_root_push hp').2]

/-- The nodes below the root may stand on any side. -/
theorem alike_of_below {below below' : List Digest} {n : UInt64}
    (hv : (Accumulator.mk (below ++ [root]) n).validate = .ok ())
    (halike : below.map Digest.asLeft = below'.map Digest.asLeft) :
    Alike ⟨below ++ [root], n⟩ ⟨below' ++ [root], n⟩ ∧
      (Accumulator.mk (below' ++ [root]) n).validate = .ok () := by
  refine ⟨⟨rfl, ?_, ?_⟩, validate_iff_accepted.mpr ((validate_iff_accepted.mp hv).congr halike)⟩
  · rw [List.map_append, List.map_append, halike]
  · rw [Accumulator.root, Accumulator.root, List.getLastD_concat, List.getLastD_concat]

/-! ## Three leaves -/

theorem holding_three (a b c : Digest) :
    holding [a, b, c] = ⟨[c, a.pair b, (a.pair b).pair (c.pair c)], 3⟩ := by
  have hclog : Nat.clog 2 3 = 2 := by decide
  simp [holding, frontier, fullSubtrees, hclog, peaks, pairUp, Merkle.root, halve, evenUp]

theorem validateHashed_three (last pair root : Digest) :
    validateHashed [last, pair, root] 3 =
      [Digest.joined last last, Digest.joined pair (last.pair last)] :=
  rfl

/-- The other side of the last leaf changes nothing of what is hashed. -/
theorem collisionFree_three {last pair root : Digest}
    (hnodup : ([Digest.joined last last, Digest.joined pair (last.pair last)].map
      fun s => (Digest.hash s).asLeft).Nodup) :
    CollisionFree Digest.asLeft
      (validateHashed [last, pair, root] 3 ++ validateHashed [last.asRight, pair, root] 3) := by
  have hside := last.asLeft_asRight
  have hsub (x y : List UInt8) : [x, y] ++ [x, y] ⊆ [x, y] := by simp
  rw [validateHashed_three, validateHashed_three, Digest.joined_congr hside hside,
    Digest.pair_congr hside hside]
  exact (collisionFree_of_nodup hnodup).mono (hsub ..)

end Accumulator

end LightClient.Merkle
