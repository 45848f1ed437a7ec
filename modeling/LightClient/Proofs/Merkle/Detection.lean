import LightClient.Proofs.Merkle.Alike

/-!
What the check of a frontier detects. Main statement: next to a frontier that is accepted, and has
nodes below its root, those that end in the same root are accepted just if their nodes differ in
sides only, as far as nothing collides that the checks hash; and with another root none is. So a
change of one byte is detected unless it turns the side of a node below the root.
-/

namespace LightClient

/-! ## One byte of a digest -/

/-- Bytes agree below their top bit just if no other bit stands in their difference. -/
theorem and_eq_and_iff_xor (b b' : UInt8) :
    b &&& 0x7f = b' &&& 0x7f ↔ (b ^^^ b') &&& 0x7f = 0 := by
  have hsplit : (b ^^^ b') &&& 0x7f = (b &&& 0x7f) ^^^ (b' &&& 0x7f) := by
    apply UInt8.toNat_inj.mp
    simp only [UInt8.toNat_and, UInt8.toNat_xor, Nat.and_xor_distrib_right]
  rw [hsplit, UInt8.xor_eq_zero_iff]

/-- Different bytes agree below their top bit just if they differ in that bit. -/
theorem and_eq_and_iff_of_ne {b b' : UInt8} (hne : b ≠ b') :
    b &&& 0x7f = b' &&& 0x7f ↔ b ^^^ b' = 0x80 := by
  have htop : ∀ x : UInt8, x &&& 0x7f = 0 ↔ x = 0 ∨ x = 0x80 :=
    Digest.forall_byte (by decide +kernel)
  rw [and_eq_and_iff_xor, htop, UInt8.xor_eq_zero_iff]
  exact or_iff_right hne

/-- Another item in the place of one gives another list. -/
theorem set_ne_of_getElem? {α : Type} {l : List α} {i : Nat} {a b : α} (h : l[i]? = some a)
    (hne : b ≠ a) : l.set i b ≠ l := by
  intro heq
  obtain ⟨hlt, -⟩ := List.getElem?_eq_some_iff.mp h
  rw [← heq, List.getElem?_set_self hlt] at h
  exact hne (Option.some.inj h)

namespace Digest

/-- The digest with another byte at a place. -/
def setByte (d : Digest) (place : Nat) (b : UInt8) : Digest :=
  ⟨d.bytes.set place b, by rw [List.length_set, d.length_bytes]⟩

@[simp] theorem bytes_setByte (d : Digest) (place : Nat) (b : UInt8) :
    (d.setByte place b).bytes = d.bytes.set place b := rfl

theorem setByte_ne {d : Digest} {place : Nat} {old b : UInt8} (hold : d.bytes[place]? = some old)
    (hne : b ≠ old) : d.setByte place b ≠ d :=
  fun heq => set_ne_of_getElem? hold hne (congrArg bytes heq)

/-- **One changed byte only turns the side** of a digest just if it is the first byte and its top
bit is what changed. -/
theorem asLeft_setByte_iff {d : Digest} {place : Nat} {old b : UInt8}
    (hold : d.bytes[place]? = some old) (hne : b ≠ old) :
    (d.setByte place b).asLeft = d.asLeft ↔ place = 0 ∧ b ^^^ old = 0x80 := by
  obtain ⟨first, rest, hd⟩ := d.exists_bytes_eq
  rw [asLeft, asLeft, Digest.mk.injEq, d.bytes_mapFirst hd]
  rw [hd] at hold
  cases place with
  | zero =>
    obtain rfl := Option.some.inj hold
    have hset : (d.setByte 0 b).bytes = b :: rest := by
      rw [bytes_setByte, hd, List.set_cons_zero]
    rw [bytes_mapFirst _ hset, List.cons_eq_cons, and_eq_and_iff_of_ne hne]
    tauto
  | succ place =>
    rw [List.getElem?_cons_succ] at hold
    have hset : (d.setByte (place + 1) b).bytes = first :: rest.set place b := by
      rw [bytes_setByte, hd, List.set_cons_succ]
    rw [bytes_mapFirst _ hset, List.cons_eq_cons]
    simp [set_ne_of_getElem? hold hne]

end Digest

namespace Merkle.Frontier

open Digest (joined)

variable {below below' nodes nodes' : List Digest} {root root' : Digest} {leafCount : UInt64}

/-! ## Frontiers next to one that is accepted -/

/-- Where the only one bit of the number of leaves does not stand for the root, there are nodes
below it. -/
theorem one_lt_frontierLength (h0 : leafCount ≠ 0) (h2 : ¬ ∃ d, leafCount.toNat = 2 ^ d) :
    1 < frontierLength leafCount := by
  have hbits : leafCount.toNat.bitIndices.length ≠ 0 := by
    intro hnone
    have hsum := Nat.sum_map_two_pow_bitIndices leafCount.toNat
    rw [List.length_eq_zero_iff.mp hnone] at hsum
    exact h0 (UInt64.toNat_inj.mp hsum.symm)
  rw [frontierLength_eq h0, if_neg fun heq => h2 ⟨_, heq⟩]
  omega

/-- With nodes below that differ in sides only just one root is accepted. -/
theorem Accepted.validate_alike (h : Accepted (below ++ [root]) leafCount) (hne : below ≠ [])
    (halike : below.map Digest.asLeft = below'.map Digest.asLeft) (root' : Digest) :
    validate (below' ++ [root']) leafCount =
      if root = root' then .ok () else .error (.wrongRoot root' root) := by
  have hbelow : below.length = below'.length := by simpa using congrArg List.length halike
  have hlen : (below' ++ [root']).length = (below ++ [root]).length := by
    rw [List.length_append, List.length_append, hbelow, List.length_singleton,
      List.length_singleton]
  have hmany : ¬ (below ++ [root]).length ≤ 1 := by
    have := List.length_pos_iff.mpr hne
    rw [List.length_append, List.length_singleton]
    omega
  have hclimb := h.climb_eq.resolve_left hmany
  rw [List.dropLast_concat, List.getLastD_concat] at hclimb
  rw [validate, if_neg (UInt64.not_lt.mpr h.within_capacity), hlen,
    if_neg (not_not_intro h.length_eq), if_neg hmany, List.dropLast_concat,
    List.getLastD_concat, climb_congr halike hclimb]
  rfl

/-- A frontier that is accepted for a number of leaves that needs more than a root has nodes
below. -/
theorem Accepted.exists_concat (h : Accepted nodes leafCount)
    (hmany : 1 < frontierLength leafCount) :
    ∃ below root, below ≠ [] ∧ nodes = below ++ [root] := by
  have hlen := h.length_eq
  rcases List.eq_nil_or_concat' nodes with rfl | ⟨below, root, rfl⟩
  · rw [List.length_nil] at hlen
    omega
  · refine ⟨below, root, ?_, rfl⟩
    rintro rfl
    rw [List.nil_append, List.length_singleton] at hlen
    omega

/-- With the same root just the nodes that differ in sides only are accepted. -/
theorem Accepted.validate_eq_ok_iff_alike (h : Accepted (below ++ [root]) leafCount)
    (hne : below ≠ []) (hfree : CollisionFree Digest.asLeft
      (validateHashed (below ++ [root]) leafCount ++ validateHashed (below' ++ [root]) leafCount)) :
    validate (below' ++ [root]) leafCount = .ok () ↔
      below.map Digest.asLeft = below'.map Digest.asLeft := by
  constructor
  · intro hv
    have hroot : (below ++ [root]).getLastD .zero = (below' ++ [root]).getLastD .zero := by
      rw [List.getLastD_concat, List.getLastD_concat]
    have halike := h.alike (validate_eq_ok_iff.mp hv) hroot hfree
    rw [List.map_append, List.map_append] at halike
    exact (List.append_inj' halike rfl).1
  · intro halike
    rw [h.validate_alike hne halike, if_pos rfl]

/-- Nodes below the root, of which one is put in the place of another, differ in sides only just if
the two do. -/
theorem map_asLeft_set_iff {i : Nat} {node node' : Digest} (hi : below[i]? = some node) :
    below.map Digest.asLeft = (below.set i node').map Digest.asLeft ↔
      node'.asLeft = node.asLeft := by
  obtain ⟨hlt, hnode⟩ := List.getElem?_eq_some_iff.mp hi
  have hlt : i < (below.map Digest.asLeft).length := by rwa [List.length_map]
  rw [List.map_set]
  constructor
  · intro h
    have hget := congrArg (·[i]?) h
    simp only [List.getElem?_map, hi, Option.map_some] at hget
    rw [List.getElem?_set_self hlt] at hget
    exact (Option.some.inj hget).symm
  · intro h
    have hside : (below.map Digest.asLeft)[i] = node.asLeft := by rw [List.getElem_map, hnode]
    rw [h, ← hside, List.set_getElem_self]

/-- Another node in the place of one below the root is accepted if the two differ in sides only, and
no other is. -/
theorem Accepted.validate_set (h : Accepted (below ++ [root]) leafCount) (hne : below ≠ [])
    {i : Nat} {node node' : Digest} (hi : below[i]? = some node) :
    let changed := below.set i node' ++ [root]
    (node'.asLeft = node.asLeft → validate changed leafCount = .ok ()) ∧
    (CollisionFree Digest.asLeft
        (validateHashed (below ++ [root]) leafCount ++ validateHashed changed leafCount) →
      node'.asLeft ≠ node.asLeft → ∃ e, validate changed leafCount = .error e) := by
  intro changed
  have hside : below.map Digest.asLeft = (below.set i node').map Digest.asLeft ↔
      node'.asLeft = node.asLeft := map_asLeft_set_iff hi
  constructor
  · intro hsame
    rw [h.validate_alike hne (hside.mpr hsame), if_pos rfl]
  · intro hfree hother
    cases hv : validate changed leafCount with
    | error e => exact ⟨e, rfl⟩
    | ok => exact absurd (hside.mp ((h.validate_eq_ok_iff_alike hne hfree).mp hv)) hother

/-- **What the check of a frontier detects.** Take a frontier that is accepted for a number of
leaves that is neither zero nor a power of two. Nodes that end in the same root are accepted if
there are as many and those below the root differ in sides only; and they are accepted only then, as
far as nothing that the two checks hash collides up to the side of its hash. If the nodes below the
root differ in sides only and the roots differ, the root is refused. So a change of one byte of one
node is detected, unless the node is below the root and the change just turns its side, which is
never noticed. -/
theorem validate_iff_alike_below (nodes : List Digest) (leafCount : UInt64) (h0 : leafCount ≠ 0)
    (h2 : ¬ ∃ d, leafCount.toNat = 2 ^ d) (h : validate nodes leafCount = .ok ()) :
    (∀ nodes', nodes'.getLast? = nodes.getLast? →
      (nodes'.length = nodes.length ∧
          nodes.dropLast.map Digest.asLeft = nodes'.dropLast.map Digest.asLeft →
        validate nodes' leafCount = .ok ()) ∧
      (CollisionFree Digest.asLeft
          (validateHashed nodes leafCount ++ validateHashed nodes' leafCount) →
        (validate nodes' leafCount = .ok () ↔ nodes'.length = nodes.length ∧
          nodes.dropLast.map Digest.asLeft = nodes'.dropLast.map Digest.asLeft))) ∧
    (∀ nodes', nodes.dropLast.map Digest.asLeft = nodes'.dropLast.map Digest.asLeft →
      nodes'.getLast? ≠ nodes.getLast? →
        validate nodes' leafCount =
          .error (.wrongRoot (nodes'.getLastD .zero) (nodes.getLastD .zero))) ∧
    ∀ (i place : Nat) (node : Digest) (old b : UInt8), nodes[i]? = some node →
      node.bytes[place]? = some old → b ≠ old →
      let changed := nodes.set i (node.setByte place b)
      (i + 1 = nodes.length → ∃ e, validate changed leafCount = .error e) ∧
      (i + 1 < nodes.length →
        (place = 0 ∧ b ^^^ old = 0x80 → validate changed leafCount = .ok ()) ∧
        (CollisionFree Digest.asLeft
            (validateHashed nodes leafCount ++ validateHashed changed leafCount) →
          ¬ (place = 0 ∧ b ^^^ old = 0x80) → ∃ e, validate changed leafCount = .error e)) := by
  have haccepted := validate_eq_ok_iff.mp h
  obtain ⟨below, root, hne, rfl⟩ := haccepted.exists_concat (one_lt_frontierLength h0 h2)
  rw [List.getLast?_concat, List.dropLast_concat, List.getLastD_concat]
  refine ⟨fun nodes' hlast => ?_, fun nodes' halike hlast => ?_, ?_⟩
  · obtain ⟨below', rfl⟩ := List.getLast?_eq_some_iff.mp hlast
    rw [List.dropLast_concat]
    have hlen (halike : below.map Digest.asLeft = below'.map Digest.asLeft) :
        (below' ++ [root]).length = (below ++ [root]).length := by
      simpa using (congrArg List.length halike).symm
    refine ⟨fun halike => ?_, fun hfree => ?_⟩
    · rw [haccepted.validate_alike hne halike.2, if_pos rfl]
    · rw [haccepted.validate_eq_ok_iff_alike hne hfree]
      exact ⟨fun halike => ⟨hlen halike, halike⟩, fun h => h.2⟩
  · rcases List.eq_nil_or_concat' nodes' with rfl | ⟨below', root', rfl⟩
    · exact absurd (List.map_eq_nil_iff.mp halike) hne
    · rw [List.getLast?_concat] at hlast
      rw [List.dropLast_concat] at halike
      rw [haccepted.validate_alike hne halike, List.getLastD_concat,
        if_neg fun heq => hlast (congrArg some heq.symm)]
  · intro i place node old b hi hold hb changed
    rw [List.length_append, List.length_singleton]
    constructor
    · intro hlast
      obtain rfl : i = below.length := by omega
      rw [List.getElem?_concat_length] at hi
      obtain rfl := Option.some.inj hi
      have hchanged : changed = below ++ [root.setByte place b] := by
        simp only [changed, List.set_append_right, Nat.le_refl, Nat.sub_self, List.set_cons_zero]
      have hroot : root ≠ root.setByte place b := (Digest.setByte_ne hold hb).symm
      rw [hchanged, haccepted.validate_alike hne rfl, if_neg hroot]
      exact ⟨_, rfl⟩
    · intro hbelow
      have hlt : i < below.length := by omega
      rw [List.getElem?_append_left hlt] at hi
      have hchanged : changed = below.set i (node.setByte place b) ++ [root] :=
        List.set_append_left i _ hlt
      rw [hchanged, ← Digest.asLeft_setByte_iff hold hb]
      exact haccepted.validate_set hne hi

/-- Below the root of three leaves the side of a node may be turned, another byte may not be
changed; nor may the root. -/
theorem validate_iff_alike_below_three :
    let root := Digest.zero.pair (Digest.zero.pair .zero)
    let nodes := [Digest.zero, .zero, root]
    let changed := nodes.set 1 (Digest.zero.setByte 7 1)
    ((3 : UInt64) ≠ 0 ∧ (¬ ∃ d, (3 : UInt64).toNat = 2 ^ d) ∧ validate nodes 3 = .ok ()) ∧
    validate [Digest.zero.asRight, .zero, root] 3 = .ok () ∧
    validate (nodes.set 0 (Digest.zero.setByte 0 0x80)) 3 = .ok () ∧
    validate [.zero, .zero, .zero] 3 = .error (.wrongRoot .zero root) ∧
    CollisionFree Digest.asLeft (validateHashed nodes 3 ++ validateHashed changed 3) ∧
    ∃ e, validate changed 3 = .error e := by
  intro root nodes changed
  have h0 : (3 : UInt64) ≠ 0 := by decide
  have h2 : ¬ ∃ d, (3 : UInt64).toNat = 2 ^ d := by
    rintro ⟨d, hd⟩
    match d with
    | 0 => cases hd
    | d + 1 =>
      rw [Nat.pow_succ, show (3 : UInt64).toNat = 3 from rfl] at hd
      omega
  have h : validate nodes 3 = .ok () := by decide +kernel
  have hnodup : ([joined .zero .zero, joined .zero (Digest.zero.pair .zero),
      joined (Digest.zero.setByte 7 1) (Digest.zero.pair .zero)].map
        fun s => (Digest.hash s).asLeft).Nodup := by
    decide +kernel
  have hchanged : changed = [Digest.zero, Digest.zero.setByte 7 1, root] := rfl
  have hfree : CollisionFree Digest.asLeft
      (validateHashed nodes 3 ++ validateHashed changed 3) := by
    rw [hchanged, Accumulator.validateHashed_three, Accumulator.validateHashed_three]
    refine (collisionFree_of_nodup hnodup).mono ?_
    simp
  obtain ⟨hsame, hother, hbyte⟩ := validate_iff_alike_below nodes 3 h0 h2 h
  have hroot : Digest.zero ≠ root := by decide +kernel
  refine ⟨⟨h0, h2, h⟩, ?_, ?_, ?_, hfree, ?_⟩
  · exact (hsame [Digest.zero.asRight, .zero, root] (by simp [nodes])).1 ⟨rfl, by simp [nodes]⟩
  · exact ((hbyte 0 0 .zero 0 0x80 rfl rfl (by decide)).2 (by decide)).1 (by decide)
  · apply hother [.zero, .zero, .zero] (by simp [nodes])
    exact fun heq => hroot (Option.some.inj heq)
  · exact ((hbyte 1 7 .zero 0 1 rfl rfl (by decide)).2 (by decide)).2 hfree (by decide)

end Merkle.Frontier

end LightClient
