import LightClient.Proofs.Merkle.Hashed
import LightClient.Proofs.Merkle.Validity

/-!
What the check of a frontier accepts, and what it hashes on the way. Main statement: as far as no
two of the byte strings that were hashed collide up to the side of their hash, two walks that end at
one root have used the same nodes, up to their sides.
-/

namespace LightClient.Merkle

open Digest (joined)

/-- Pairs whose hashes look alike are of digests that look alike. -/
theorem CollisionFree.of_pair {log : List (List UInt8)} (hfree : CollisionFree Digest.asLeft log)
    {l l' r r' : Digest} (h : joined l r ∈ log) (h' : joined l' r' ∈ log)
    (heq : (l.pair r).asLeft = (l'.pair r').asLeft) :
    l.asLeft = l'.asLeft ∧ r.asLeft = r'.asLeft :=
  Digest.joined_inj (hfree _ h _ h' heq)

namespace Frontier

/-! ## Acceptance -/

/-- What acceptance of a frontier says. -/
structure Accepted (nodes : List Digest) (leafCount : UInt64) : Prop where
  within_capacity : leafCount ≤ maxLeafCount
  length_eq : nodes.length = frontierLength leafCount
  climb_eq : nodes.length ≤ 1 ∨
    climb (maxDepth leafCount - 1) leafCount.toNat none nodes.dropLast =
      .ok ([], some (nodes.getLastD .zero))

theorem validate_eq_ok_iff {nodes : List Digest} {leafCount : UInt64} :
    validate nodes leafCount = .ok () ↔ Accepted nodes leafCount := by
  rw [validate]
  split
  · next hmany =>
    refine ⟨fun h => ?_, fun h => absurd hmany (UInt64.not_lt.mpr h.within_capacity)⟩
    cases h
  split
  · next hlen =>
    refine ⟨fun h => ?_, fun h => absurd h.length_eq hlen⟩
    cases h
  next hmany hlen =>
  have haccepted := Accepted.mk (UInt64.not_lt.mp hmany) (Decidable.not_not.mp hlen)
  split
  · next hone => exact ⟨fun _ => haccepted (.inl hone), fun _ => rfl⟩
  next hone =>
  constructor
  · intro h
    refine haccepted (.inr ?_)
    cases hc : climb (maxDepth leafCount - 1) leafCount.toNat none nodes.dropLast with
    | error e =>
      rw [hc] at h
      cases h
    | ok r =>
      obtain ⟨unused, top⟩ := r
      rw [hc] at h
      cases unused with
      | cons node unused => cases h
      | nil =>
        cases top with
        | none => cases h
        | some derived =>
          change (if derived = nodes.getLastD .zero then Except.ok () else .error _) = .ok () at h
          split at h
          · next hroot => rw [hroot]
          · cases h
  · intro h
    rw [h.climb_eq.resolve_left hone]
    simp [bind, Except.bind, pure, Except.pure]

/-! ## What the walk hashes -/

/-- What is hashed on the walk up a frontier. -/
def climbHashed : Nat → Nat → Option Digest → List Digest → List (List UInt8)
  | 0, _, _, _ => []
  | levels + 1, width, top, nodes =>
    let above := (width + 1) / 2
    if width % 2 = 1 then
      match top with
      | some top => joined top top :: climbHashed levels above (some (top.pair top)) nodes
      | none =>
        match nodes with
        | left :: nodes =>
          joined left left :: climbHashed levels above (some (left.pair left)) nodes
        | [] => []
    else
      match top with
      | some top =>
        match nodes with
        | left :: nodes =>
          joined left top :: climbHashed levels above (some (left.pair top)) nodes
        | [] => []
      | none => climbHashed levels above none nodes

/-- What is hashed when a frontier is checked. -/
def validateHashed (nodes : List Digest) (leafCount : UInt64) : List (List UInt8) :=
  if leafCount > maxLeafCount ∨ nodes.length ≠ frontierLength leafCount ∨ nodes.length ≤ 1 then []
  else climbHashed (maxDepth leafCount - 1) leafCount.toNat none nodes.dropLast

theorem Accepted.validateHashed_eq {nodes : List Digest} {leafCount : UInt64}
    (h : Accepted nodes leafCount) (hmany : ¬ nodes.length ≤ 1) :
    validateHashed nodes leafCount =
      climbHashed (maxDepth leafCount - 1) leafCount.toNat none nodes.dropLast := by
  refine if_neg ?_
  rintro (hroom | hlen | hone)
  · exact UInt64.not_lt.mpr h.within_capacity hroom
  · exact hlen h.length_eq
  · exact hmany hone

variable {levels width : Nat} {nodes nodes' : List Digest} {top top' : Option Digest}
  {root root' : Digest}

theorem climbHashed_odd_some (h : width % 2 = 1) (d : Digest) :
    climbHashed (levels + 1) width (some d) nodes =
      joined d d :: climbHashed levels ((width + 1) / 2) (some (d.pair d)) nodes := by
  rw [climbHashed.eq_def]
  simp only [if_pos h]

theorem climbHashed_odd_none (h : width % 2 = 1) (d : Digest) :
    climbHashed (levels + 1) width none (d :: nodes) =
      joined d d :: climbHashed levels ((width + 1) / 2) (some (d.pair d)) nodes := by
  rw [climbHashed.eq_def]
  simp only [if_pos h]

theorem climbHashed_even_some (h : width % 2 = 0) (l d : Digest) :
    climbHashed (levels + 1) width (some d) (l :: nodes) =
      joined l d :: climbHashed levels ((width + 1) / 2) (some (l.pair d)) nodes := by
  rw [climbHashed.eq_def]
  simp only [if_neg (show ¬ width % 2 = 1 by omega)]

theorem climbHashed_even_none (h : width % 2 = 0) :
    climbHashed (levels + 1) width none nodes =
      climbHashed levels ((width + 1) / 2) none nodes := by
  rw [climbHashed.eq_def]
  simp only [if_neg (show ¬ width % 2 = 1 by omega)]

/-- On an odd level a walk that is not cut short starts with a node of the frontier. -/
theorem exists_cons_of_climb_odd {r : List Digest × Option Digest} (hodd : width % 2 = 1)
    (h : climb (levels + 1) width none nodes = .ok r) : ∃ l rest, nodes = l :: rest := by
  refine List.exists_cons_of_ne_nil ?_
  rintro rfl
  rw [climb.eq_def] at h
  simp [if_pos hodd] at h

/-- On an even level a walk that is not cut short finds a node to the left of the digest. -/
theorem exists_cons_of_climb_even {r : List Digest × Option Digest} {d : Digest}
    (heven : width % 2 = 0) (h : climb (levels + 1) width (some d) nodes = .ok r) :
    ∃ l rest, nodes = l :: rest := by
  refine List.exists_cons_of_ne_nil ?_
  rintro rfl
  rw [climb.eq_def] at h
  simp [heven] at h

/-- A walk does not depend on the sides of the nodes. -/
theorem climb_congr (halike : nodes.map Digest.asLeft = nodes'.map Digest.asLeft)
    {r : Option Digest} (h : climb levels width top nodes = .ok ([], r)) :
    climb levels width top nodes' = .ok ([], r) := by
  induction levels generalizing width top nodes nodes' with
  | zero =>
    obtain ⟨rfl, rfl⟩ := Prod.mk.inj (Except.ok.inj h)
    obtain rfl := List.map_eq_nil_iff.mp halike.symm
    rfl
  | succ levels ih =>
    cases Nat.mod_two_eq_zero_or_one width with
    | inl heven =>
      match top with
      | none =>
        rw [climb_even_none heven] at h ⊢
        exact ih halike h
      | some d =>
        obtain ⟨l, rest, rfl⟩ := exists_cons_of_climb_even heven h
        obtain ⟨l', rest', rfl, hl, hrest⟩ := List.map_eq_cons_iff.mp halike.symm
        rw [climb_even_some heven] at h ⊢
        rw [Digest.pair_congr hl rfl]
        exact ih hrest.symm h
    | inr hodd =>
      match top with
      | none =>
        obtain ⟨l, rest, rfl⟩ := exists_cons_of_climb_odd hodd h
        obtain ⟨l', rest', rfl, hl, hrest⟩ := List.map_eq_cons_iff.mp halike.symm
        rw [climb_odd_none hodd] at h ⊢
        rw [Digest.pair_congr hl hl]
        exact ih hrest.symm h
      | some d =>
        rw [climb_odd_some hodd] at h ⊢
        exact ih halike h

/-- **Walks to roots that look alike have used nodes that look alike.** Two walks over equally many
leaves go side by side: at each level both hash one pair, and pairs with hashes that look alike are
of digests that look alike. -/
theorem alike_of_climb {log : List (List UInt8)} (hfree : CollisionFree Digest.asLeft log)
    (hsame : top.isSome = top'.isSome)
    (h : climb levels width top nodes = .ok ([], some root))
    (h' : climb levels width top' nodes' = .ok ([], some root'))
    (hlog : climbHashed levels width top nodes ⊆ log)
    (hlog' : climbHashed levels width top' nodes' ⊆ log)
    (hroot : root.asLeft = root'.asLeft) :
    nodes.map Digest.asLeft = nodes'.map Digest.asLeft ∧
      top.map Digest.asLeft = top'.map Digest.asLeft := by
  induction levels generalizing width top nodes top' nodes' with
  | zero =>
    obtain ⟨rfl, rfl⟩ := Prod.mk.inj (Except.ok.inj h)
    obtain ⟨rfl, rfl⟩ := Prod.mk.inj (Except.ok.inj h')
    exact ⟨rfl, congrArg some hroot⟩
  | succ levels ih =>
    have step {l d l' d' : Digest} {rest rest' : List Digest}
        (hc : climb levels ((width + 1) / 2) (some (l.pair d)) rest = .ok ([], some root))
        (hc' : climb levels ((width + 1) / 2) (some (l'.pair d')) rest' = .ok ([], some root'))
        (hs : joined l d :: climbHashed levels ((width + 1) / 2) (some (l.pair d)) rest ⊆ log)
        (hs' : joined l' d' :: climbHashed levels ((width + 1) / 2) (some (l'.pair d')) rest' ⊆
          log) :
        rest.map Digest.asLeft = rest'.map Digest.asLeft ∧ l.asLeft = l'.asLeft ∧
          d.asLeft = d'.asLeft := by
      rw [List.cons_subset] at hs hs'
      have hsame : (some (l.pair d)).isSome = (some (l'.pair d')).isSome := rfl
      obtain ⟨hrest, htop⟩ := ih hsame hc hc' hs.2 hs'.2
      exact ⟨hrest, hfree.of_pair hs.1 hs'.1 (Option.some.inj htop)⟩
    cases Nat.mod_two_eq_zero_or_one width with
    | inl heven =>
      match top, top', hsame with
      | none, none, _ =>
        rw [climb_even_none heven] at h h'
        rw [climbHashed_even_none heven] at hlog hlog'
        exact ih rfl h h' hlog hlog'
      | some d, some d', _ =>
        obtain ⟨l, rest, rfl⟩ := exists_cons_of_climb_even heven h
        obtain ⟨l', rest', rfl⟩ := exists_cons_of_climb_even heven h'
        rw [climb_even_some heven] at h h'
        rw [climbHashed_even_some heven] at hlog hlog'
        obtain ⟨hrest, hl, hd⟩ := step h h' hlog hlog'
        exact ⟨by rw [List.map_cons, List.map_cons, hl, hrest], congrArg some hd⟩
    | inr hodd =>
      match top, top', hsame with
      | none, none, _ =>
        obtain ⟨d, rest, rfl⟩ := exists_cons_of_climb_odd hodd h
        obtain ⟨d', rest', rfl⟩ := exists_cons_of_climb_odd hodd h'
        rw [climb_odd_none hodd] at h h'
        rw [climbHashed_odd_none hodd] at hlog hlog'
        obtain ⟨hrest, hd, -⟩ := step h h' hlog hlog'
        exact ⟨by rw [List.map_cons, List.map_cons, hd, hrest], rfl⟩
      | some d, some d', _ =>
        rw [climb_odd_some hodd] at h h'
        rw [climbHashed_odd_some hodd] at hlog hlog'
        obtain ⟨hrest, hd, -⟩ := step h h' hlog hlog'
        exact ⟨hrest, congrArg some hd⟩

end Frontier

end LightClient.Merkle
