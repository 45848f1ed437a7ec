import LightClient.Proofs.Merkle.Acceptance

/-!
Which accumulators can be made. Main statement: just those that pass the check; and any of these,
whether or not leaves lead to it, takes leaves up to the capacity and refuses the next one.
-/

namespace LightClient.Merkle.Accumulator

open Frontier (Accepted validate_eq_ok_iff)

/-- The accumulators that can be made: the empty one, those that are read or put together from
parts, and those after appends. -/
inductive Obtainable : Accumulator → Prop
  | empty : Obtainable empty
  | ofParts {nodes leafCount acc} (h : ofParts nodes leafCount = .ok acc) : Obtainable acc
  | decode {bytes acc} (h : decode bytes = .ok acc) : Obtainable acc
  | ofJson {arrival j acc} (h : LightClient.ofJson arrival j = .ok acc) : Obtainable acc
  | append {acc leaf after} (h : Obtainable acc) (ha : acc.append leaf = .ok after) :
    Obtainable after
  | appendAll {acc} (h : Obtainable acc) (leaves : List Digest) :
    Obtainable (acc.appendAll leaves).1

variable {acc after : Accumulator} {leaf root : Digest}

/-! ## Parts -/

theorem validate_iff_accepted : acc.validate = .ok () ↔ Accepted acc.nodes acc.leafCount := by
  rw [validate, mapError_eq_ok, validate_eq_ok_iff]

theorem ofParts_eq_ok {nodes : List Digest} {leafCount : UInt64} :
    ofParts nodes leafCount = .ok acc ↔
      acc.nodes = nodes ∧ acc.leafCount = leafCount ∧ acc.validate = .ok () := by
  rw [ofParts]
  constructor
  · intro h
    cases hv : Frontier.validate nodes leafCount with
    | error e => rw [hv] at h; cases h
    | ok =>
      rw [hv] at h
      obtain rfl := Except.ok.inj h
      exact ⟨rfl, rfl, mapError_eq_ok.mpr hv⟩
  · rintro ⟨rfl, rfl, h⟩
    rw [mapError_eq_ok.mp h]
    rfl

/-- The parts of a packed accumulator. -/
def parts : Decoder (List Digest × UInt64) := do
  let nodes ← unpack
  let leafCount ← Decoder.u64 "leaf_count"
  return (nodes, leafCount)

/-- Parts that are read and put together are those of the accumulator, which passes its check. -/
theorem exists_ofParts_iff {ε : Type} {read : Except ε (List Digest × UInt64)} :
    (∃ r, read = .ok r ∧ ofParts r.1 r.2 = .ok acc) ↔
      read = .ok (acc.nodes, acc.leafCount) ∧ acc.validate = .ok () := by
  simp only [ofParts_eq_ok]
  constructor
  · rintro ⟨⟨nodes, leafCount⟩, hread, rfl, rfl, hv⟩
    exact ⟨hread, hv⟩
  · rintro ⟨hread, hv⟩
    exact ⟨_, hread, rfl, rfl, hv⟩

theorem decode_eq_ok {bytes : List UInt8} : decode bytes = .ok acc ↔
    parts.whole "incremental merkle" bytes = .ok (acc.nodes, acc.leafCount) ∧
      acc.validate = .ok () := by
  change ((parts.whole "incremental merkle" bytes).mapError Error.decode >>=
    fun read => ofParts read.1 read.2) = _ ↔ _
  rw [bind_eq_ok, ← exists_ofParts_iff]
  simp only [mapError_eq_ok]

theorem ofJson_eq_ok {arrival : Json.Arrival} {j : Json} :
    LightClient.ofJson arrival j = .ok acc ↔
      fields.read arrival j = .ok (acc.nodes, acc.leafCount) ∧ acc.validate = .ok () := by
  change (fields.read arrival j >>= fun read => (ofParts read.1 read.2).mapError _) = _ ↔ _
  rw [bind_eq_ok, ← exists_ofParts_iff]
  simp only [mapError_eq_ok]

/-! ## Appends -/

/-- A carry needs no more nodes than the count has one bits. -/
theorem exists_carry {levels count : Nat} {partly : Bool} {old : List Digest}
    (h : count.bitIndices.length ≤ old.length) (d : Digest) :
    ∃ kept root, carry levels count d partly old = some (kept, root) := by
  induction levels generalizing count d partly old with
  | zero => exact ⟨[], d, rfl⟩
  | succ levels ih =>
    cases Nat.mod_two_eq_zero_or_one count with
    | inl heven =>
      have hhalf : (count / 2).bitIndices.length ≤ old.length := by
        rw [show count = 2 * (count / 2) by omega, Nat.bitIndices_two_mul, List.length_map] at h
        exact h
      obtain ⟨kept, root, hc⟩ := ih hhalf (d.pair d)
      rw [carry_even heven, hc]
      exact ⟨_, _, rfl⟩
    | inr hodd =>
      rw [show count = 2 * (count / 2) + 1 by omega, Nat.bitIndices_two_mul_add_one,
        List.length_cons, List.length_map] at h
      obtain ⟨l, old, rfl⟩ : ∃ l rest, old = l :: rest :=
        List.exists_cons_of_length_pos (by omega)
      obtain ⟨kept, root, hc⟩ := ih (Nat.le_of_succ_le_succ h) (l.pair d)
      rw [carry_odd hodd, hc]
      exact ⟨_, _, rfl⟩

theorem length_bitIndices_le (n : UInt64) : n.toNat.bitIndices.length ≤ frontierLength n := by
  rw [frontierLength, bitCount_eq]
  split <;> omega

/-- An accumulator that passes the check has a subtree for each one bit of its count, and so it
takes a leaf unless it is full. -/
theorem exists_push (hv : acc.validate = .ok ()) (hlt : acc.leafCount.toNat < 2 ^ 63)
    (leaf : Digest) : ∃ root after, acc.push leaf = .ok (root, after) := by
  rw [← toNat_maxLeafCount, ← UInt64.lt_iff_toNat_lt] at hlt
  have hbits := length_bitIndices_le acc.leafCount
  rw [← length_nodes_of_validate hv] at hbits
  obtain ⟨kept, root, hc⟩ : ∃ kept root, carry (maxDepth (acc.leafCount + 1) - 1)
      acc.leafCount.toNat leaf false acc.nodes = some (kept, root) :=
    exists_carry hbits leaf
  rw [push, if_neg (UInt64.not_le.mpr hlt)]
  simp only [hc]
  exact ⟨_, _, rfl⟩

/-- A push counts the leaf and gives the root. -/
theorem leafCount_root_push (h : acc.push leaf = .ok (root, after)) :
    after.leafCount.toNat = acc.leafCount.toNat + 1 ∧ after.root = root := by
  obtain ⟨hlt, kept, -, rfl⟩ := push_cases h
  have hcount := toNat_leafCount_succ hlt
  have hne : acc.leafCount + 1 ≠ 0 := by
    intro h0
    rw [h0] at hcount
    simp at hcount
  exact ⟨hcount, by rw [Accumulator.root, if_neg hne, List.getLastD_concat]⟩

theorem toNat_leafCount_le (hv : acc.validate = .ok ()) : acc.leafCount.toNat ≤ 2 ^ 63 := by
  rw [← toNat_maxLeafCount, ← UInt64.le_iff_toNat_le]
  exact (validate_iff_accepted.mp hv).within_capacity

theorem push_of_full (h : acc.leafCount.toNat = 2 ^ 63) (leaf : Digest) :
    acc.push leaf = .error (.misuse (.full (2 ^ 63))) := by
  have hfull : acc.leafCount = maxLeafCount :=
    UInt64.toNat_inj.mp (h.trans toNat_maxLeafCount.symm)
  rw [push, if_pos (show acc.leafCount ≥ maxLeafCount from hfull ▸ UInt64.le_refl _), h]

/-- An accumulator that passes the check takes a leaf, or it is full. -/
theorem exists_push_or_full (hv : acc.validate = .ok ()) (leaf : Digest) :
    (∃ root after, acc.push leaf = .ok (root, after)) ∨ acc.leafCount.toNat = 2 ^ 63 := by
  cases Nat.lt_or_eq_of_le (toNat_leafCount_le hv) with
  | inl hlt => exact .inl (exists_push hv hlt leaf)
  | inr hfull => exact .inr hfull

theorem append_eq_ok : acc.append leaf = .ok after ↔ ∃ root, acc.push leaf = .ok (root, after) := by
  rw [append]
  cases acc.push leaf with
  | error e =>
    constructor
    · intro h
      cases h
    · rintro ⟨root, h⟩
      cases h
  | ok r =>
    obtain ⟨root, after'⟩ := r
    constructor
    · intro h
      obtain rfl : after' = after := Except.ok.inj h
      exact ⟨root, rfl⟩
    · rintro ⟨root', h⟩
      obtain ⟨-, rfl⟩ := Prod.mk.inj (Except.ok.inj h)
      rfl

theorem validate_append (h : acc.append leaf = .ok after) : after.validate = .ok () := by
  obtain ⟨root, hp⟩ := append_eq_ok.mp h
  exact validate_push hp

/-- However far leaves are appended, the accumulator passes the check. -/
theorem validate_appendAll (hv : acc.validate = .ok ()) (leaves : List Digest) :
    (acc.appendAll leaves).1.validate = .ok () := by
  induction leaves generalizing acc with
  | nil => exact hv
  | cons leaf leaves ih =>
    rw [appendAll]
    cases ha : acc.append leaf with
    | error e => exact hv
    | ok after => exact ih (validate_append ha)

/-- Every accumulator that can be made passes the check. -/
theorem Obtainable.validate (h : Obtainable acc) : acc.validate = .ok () := by
  induction h with
  | empty => rfl
  | ofParts h => exact (ofParts_eq_ok.mp h).2.2
  | decode h => exact (decode_eq_ok.mp h).2
  | ofJson h => exact (ofJson_eq_ok.mp h).2
  | append _ ha _ => exact validate_append ha
  | appendAll _ leaves ih => exact validate_appendAll ih leaves

/-- The number of leaves that an accumulator still takes. -/
def room (acc : Accumulator) : Nat :=
  2 ^ 63 - acc.leafCount.toNat

/-- Leaves are appended as long as there is room; the first one without room is refused, and those
before it stay. -/
theorem appendAll_eq (hv : acc.validate = .ok ()) (leaves : List Digest) :
    ∃ after, (leaves.take acc.room).foldlM append acc = .ok after ∧
      after.leafCount.toNat = acc.leafCount.toNat + (leaves.take acc.room).length ∧
      acc.appendAll leaves = (after,
        if leaves.length ≤ acc.room then .ok () else .error (.misuse (.full (2 ^ 63)))) := by
  induction leaves generalizing acc with
  | nil => exact ⟨acc, by rw [List.take_nil]; rfl, by simp, rfl⟩
  | cons leaf leaves ih =>
    rw [appendAll]
    cases Nat.lt_or_eq_of_le (toNat_leafCount_le hv) with
    | inl hlt =>
      obtain ⟨root, next, hp⟩ := exists_push hv hlt leaf
      have hnext := (leafCount_root_push hp).1
      have ha : acc.append leaf = .ok next := append_eq_ok.mpr ⟨root, hp⟩
      have hroom : acc.room = next.room + 1 := by
        rw [room, room, hnext]
        omega
      obtain ⟨after, hfold, hcount, hall⟩ := ih (validate_append ha)
      rw [hroom, List.take_succ_cons, List.foldlM_cons, ha, List.length_cons, List.length_cons]
      refine ⟨after, hfold, ?_, ?_⟩
      · rw [hcount, hnext]
        omega
      · simp only [hall, Nat.add_le_add_iff_right]
    | inr hfull =>
      have ha : acc.append leaf = .error (.misuse (.full (2 ^ 63))) := by
        rw [append, push_of_full hfull]
        rfl
      have hroom : acc.room = 0 := by rw [room, hfull, Nat.sub_self]
      rw [hroom, ha]
      exact ⟨acc, rfl, rfl, rfl⟩

/-- **The frontier invariant.** The accumulators that can be made are just those that pass the
check. Any frontier that passes it, also one that no leaves lead to, takes one more leaf and gives
the root of a frontier that passes it again, or is full, refuses the leaf and stays as it is; so
leaves are appended as long as there is room, and all before the first that fails stay. -/
theorem obtainable_iff_and_grows (acc : Accumulator) :
    (Obtainable acc ↔ acc.validate = .ok ()) ∧
    (Frontier.validate acc.nodes acc.leafCount = .ok () →
      (∀ leaf,
        (acc.leafCount.toNat < 2 ^ 63 ∧ ∃ root after, acc.push leaf = .ok (root, after) ∧
          after.leafCount.toNat = acc.leafCount.toNat + 1 ∧ after.root = root ∧
          Frontier.validate after.nodes after.leafCount = .ok ()) ∨
        (acc.leafCount.toNat = 2 ^ 63 ∧ acc.push leaf = .error (.misuse (.full (2 ^ 63))) ∧
          ∀ leaves, acc.appendAll (leaf :: leaves) =
            (acc, .error (.misuse (.full (2 ^ 63)))))) ∧
      ∀ leaves, ∃ after, (leaves.take acc.room).foldlM append acc = .ok after ∧
        after.leafCount.toNat = acc.leafCount.toNat + (leaves.take acc.room).length ∧
        acc.appendAll leaves = (after,
          if leaves.length ≤ acc.room then .ok () else .error (.misuse (.full (2 ^ 63))))) := by
  refine ⟨⟨Obtainable.validate, fun hv => .ofParts (ofParts_eq_ok.mpr ⟨rfl, rfl, hv⟩)⟩,
    fun hv => ?_⟩
  have hv : acc.validate = .ok () := mapError_eq_ok.mpr hv
  refine ⟨fun leaf => ?_, appendAll_eq hv⟩
  cases Nat.lt_or_eq_of_le (toNat_leafCount_le hv) with
  | inl hlt =>
    obtain ⟨root, after, hp⟩ := exists_push hv hlt leaf
    obtain ⟨hcount, hroot⟩ := leafCount_root_push hp
    exact .inl ⟨hlt, root, after, hp, hcount, hroot, validate_eq_ok (validate_push hp)⟩
  | inr hfull =>
    refine .inr ⟨hfull, push_of_full hfull leaf, fun leaves => ?_⟩
    rw [appendAll, append, push_of_full hfull]
    rfl

/-- A root of four leaves that are not known takes a fifth leaf; one of the most leaves takes
none. -/
theorem grows_four_and_full :
    Frontier.validate [.zero] 4 = .ok () ∧
    (∃ root after, (⟨[.zero], 4⟩ : Accumulator).push .zero = .ok (root, after) ∧
      after.leafCount.toNat = 5 ∧ after.root = root) ∧
    Frontier.validate [.zero] maxLeafCount = .ok () ∧
    (⟨[.zero], maxLeafCount⟩ : Accumulator).push .zero = .error (.misuse (.full (2 ^ 63))) := by
  have hfour : Frontier.validate [.zero] 4 = .ok () := by decide
  have hfull : Frontier.validate [.zero] maxLeafCount = .ok () := by decide
  refine ⟨hfour, ?_, hfull, ?_⟩
  · obtain ⟨-, root, after, hp, hcount, hroot, -⟩ | ⟨hfull, -⟩ :=
      ((obtainable_iff_and_grows ⟨[.zero], 4⟩).2 hfour).1 .zero
    · exact ⟨root, after, hp, hcount, hroot⟩
    · exact absurd hfull (by decide)
  · obtain ⟨hlt, -⟩ | ⟨-, hp, -⟩ :=
      ((obtainable_iff_and_grows ⟨[.zero], maxLeafCount⟩).2 hfull).1 .zero
    · exact absurd hlt (by decide)
    · exact hp

end LightClient.Merkle.Accumulator
