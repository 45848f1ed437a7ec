import LightClient.Proofs.Except
import LightClient.Proofs.Merkle.Growth
import LightClient.Proofs.Packed.RoundTrip
import Mathlib.Data.List.Induction

/-!
Accumulators pass their own check. Main statements: whatever an append gives is accepted by the
frontier check, and an accumulator that is accepted is read back from its packed bytes.
-/

namespace LightClient.Merkle

theorem bitCount_eq (n : UInt64) : bitCount n = n.toNat.bitIndices.length := by
  refine (List.perm_ext_iff_of_nodup (List.nodup_range.filter _) Nat.bitIndices_nodup).mpr
    (fun i => ?_) |>.length_eq
  rw [List.mem_filter, List.mem_range, Nat.mem_bitIndices]
  refine ⟨fun h => h.2, fun h => ⟨?_, h⟩⟩
  rw [← Nat.pow_lt_pow_iff_right (a := 2) Nat.one_lt_two]
  exact Nat.lt_of_le_of_lt (Nat.ge_two_pow_of_testBit h) n.toNat_lt

theorem two_pow_of_length_bitIndices {n : Nat} (h : n.bitIndices.length = 1) :
    n = 2 ^ Nat.clog 2 n := by
  obtain ⟨d, hd⟩ := List.length_eq_one_iff.mp h
  have hsum := Nat.sum_map_two_pow_bitIndices n
  rw [hd, List.map_singleton, List.sum_singleton] at hsum
  rw [← hsum, Nat.clog_pow 2 d Nat.one_lt_two]

/-- A frontier has a node for each one bit of the number of leaves, and one for the root unless the
only bit stands for it. -/
theorem frontierLength_eq {n : UInt64} (hn : n ≠ 0) :
    frontierLength n =
      (if n.toNat = 2 ^ Nat.clog 2 n.toNat then 0 else n.toNat.bitIndices.length) + 1 := by
  rw [frontierLength, bitCount_eq]
  split
  · next h =>
    have hsum := Nat.sum_map_two_pow_bitIndices n.toNat
    rw [List.length_eq_zero_iff.mp h] at hsum
    exact absurd (UInt64.toNat_inj.mp hsum.symm) hn
  · next h => rw [if_pos (two_pow_of_length_bitIndices h)]
  · next h0 h1 =>
    rw [if_neg]
    intro h
    rw [h, Nat.bitIndices_two_pow] at h1
    exact h1 rfl

namespace Frontier

variable {levels width : Nat} {nodes : List Digest}

theorem climb_odd_some (h : width % 2 = 1) (d : Digest) :
    climb (levels + 1) width (some d) nodes =
      climb levels ((width + 1) / 2) (some (d.pair d)) nodes := by
  rw [climb.eq_def]
  simp only [if_pos h]

theorem climb_odd_none (h : width % 2 = 1) (d : Digest) :
    climb (levels + 1) width none (d :: nodes) =
      climb levels ((width + 1) / 2) (some (d.pair d)) nodes := by
  rw [climb.eq_def]
  simp only [if_pos h]

theorem climb_even_some (h : width % 2 = 0) (l d : Digest) :
    climb (levels + 1) width (some d) (l :: nodes) =
      climb levels ((width + 1) / 2) (some (l.pair d)) nodes := by
  rw [climb.eq_def]
  simp only [if_neg (show ¬ width % 2 = 1 by omega)]

theorem climb_even_none (h : width % 2 = 0) :
    climb (levels + 1) width none nodes = climb levels ((width + 1) / 2) none nodes := by
  rw [climb.eq_def]
  simp only [if_neg (show ¬ width % 2 = 1 by omega)]

end Frontier

namespace Accumulator

open Frontier

variable {levels count : Nat} {d root : Digest} {partly : Bool} {old kept : List Digest}

/-- What one level of a carry does to the frontier that the levels above it give. -/
theorem carry_succ_cases (h : carry (levels + 1) count d partly old = some (kept, root)) :
    (count % 2 = 0 ∧ ∃ above, carry levels (count / 2) (d.pair d) true old = some (above, root) ∧
      kept = if partly then above else d :: above) ∨
    (count % 2 = 1 ∧ ∃ l old' above, old = l :: old' ∧
      carry levels (count / 2) (l.pair d) partly old' = some (above, root) ∧
      kept = if partly then l :: above else above) := by
  cases Nat.mod_two_eq_zero_or_one count with
  | inl heven =>
    rw [carry_even heven, Option.map_eq_some_iff] at h
    obtain ⟨⟨above, root'⟩, habove, heq⟩ := h
    obtain ⟨rfl, rfl⟩ := Prod.mk.inj heq
    exact .inl ⟨heven, above, habove, rfl⟩
  | inr hodd =>
    match old with
    | [] => simp [carry, hodd] at h
    | l :: old =>
      rw [carry_odd hodd, Option.map_eq_some_iff] at h
      obtain ⟨⟨above, root'⟩, habove, heq⟩ := h
      obtain ⟨rfl, rfl⟩ := Prod.mk.inj heq
      exact .inr ⟨hodd, l, old, above, rfl, habove, rfl⟩

theorem carry_partly_cases (h : carry (levels + 1) count d true old = some (kept, root)) :
    (count % 2 = 0 ∧ carry levels (count / 2) (d.pair d) true old = some (kept, root)) ∨
    (count % 2 = 1 ∧ ∃ l old' above, carry levels (count / 2) (l.pair d) true old' =
      some (above, root) ∧ kept = l :: above) := by
  rcases carry_succ_cases h with ⟨heven, above, habove, hk⟩ | ⟨hodd, l, old', above, -, habove, hk⟩
  · exact .inl ⟨heven, hk ▸ habove⟩
  · exact .inr ⟨hodd, l, old', above, habove, hk⟩

theorem carry_full_cases (h : carry (levels + 1) count d false old = some (kept, root)) :
    (count % 2 = 0 ∧ ∃ above, carry levels (count / 2) (d.pair d) true old = some (above, root) ∧
      kept = d :: above) ∨
    (count % 2 = 1 ∧ ∃ (l : Digest) (old' : List Digest),
      carry levels (count / 2) (l.pair d) false old' = some (kept, root)) := by
  rcases carry_succ_cases h with ⟨heven, above, habove, hk⟩ | ⟨hodd, l, old', above, -, habove, hk⟩
  · exact .inl ⟨heven, above, habove, hk⟩
  · exact .inr ⟨hodd, l, old', hk ▸ habove⟩

/-- Above a subtree that is not full a carry keeps a node for each one bit of the count. -/
theorem length_carry_partly (h : count < 2 ^ levels)
    (hc : carry levels count d true old = some (kept, root)) :
    kept.length = count.bitIndices.length := by
  induction levels generalizing count d old kept with
  | zero =>
    obtain ⟨rfl, -⟩ := Prod.mk.inj (Option.some.inj hc)
    rw [show count = 0 by simpa using h]
    simp
  | succ levels ih =>
    rw [Nat.pow_succ] at h
    rcases carry_partly_cases hc with ⟨heven, habove⟩ | ⟨hodd, l, old', above, habove, rfl⟩
    · rw [ih (by omega) habove]
      conv => rhs; rw [show count = 2 * (count / 2) by omega]
      rw [Nat.bitIndices_two_mul, List.length_map]
    · rw [List.length_cons, ih (by omega) habove]
      conv => rhs; rw [show count = 2 * (count / 2) + 1 by omega]
      rw [Nat.bitIndices_two_mul_add_one, List.length_cons, List.length_map]

/-- A carry from the leaves up keeps a node for each one bit of the new count, or none if there is
but one. -/
theorem length_carry_full (h : Nat.clog 2 (count + 1) = levels)
    (hc : carry levels count d false old = some (kept, root)) :
    kept.length = if count + 1 = 2 ^ levels then 0 else (count + 1).bitIndices.length := by
  induction levels generalizing count d old kept with
  | zero =>
    have hle := le_one_of_clog_eq_zero h
    obtain ⟨rfl, -⟩ := Prod.mk.inj (Option.some.inj hc)
    rw [if_pos (by omega)]
    rfl
  | succ levels ih =>
    obtain ⟨htwo, hle⟩ := bounds_of_clog_eq_succ h
    rw [clog_halve htwo] at h
    rw [Nat.pow_succ]
    rcases carry_full_cases hc with ⟨heven, above, habove, rfl⟩ | ⟨hodd, l, old', habove⟩
    · rw [if_neg (by omega), List.length_cons, length_carry_partly (by omega) habove]
      conv => rhs; rw [show count + 1 = 2 * (count / 2) + 1 by omega]
      rw [Nat.bitIndices_two_mul_add_one, List.length_cons, List.length_map]
    · have hhalf : count + 1 = 2 * (count / 2 + 1) := by omega
      have hdepth : Nat.clog 2 (count / 2 + 1) = levels := by
        rw [← Nat.succ.inj h]
        congr 1
        omega
      have hiff : count + 1 = 2 ^ levels * 2 ↔ count / 2 + 1 = 2 ^ levels := by omega
      rw [ih hdepth habove]
      simp only [hiff]
      rw [hhalf, Nat.bitIndices_two_mul, List.length_map]

/-- The check of a frontier walks the carry again: above a subtree that is not full it takes what
the carry kept, and finds its root. -/
theorem climb_carry_partly (hc : carry levels count d true old = some (kept, root)) :
    climb levels (count + 1) (some d) kept = .ok ([], some root) := by
  induction levels generalizing count d old kept with
  | zero =>
    obtain ⟨rfl, rfl⟩ := Prod.mk.inj (Option.some.inj hc)
    rfl
  | succ levels ih =>
    rcases carry_partly_cases hc with ⟨heven, habove⟩ | ⟨hodd, l, old', above, habove, rfl⟩
    · rw [climb_odd_some (by omega), show (count + 1 + 1) / 2 = count / 2 + 1 by omega]
      exact ih habove
    · rw [climb_even_some (by omega), show (count + 1 + 1) / 2 = count / 2 + 1 by omega]
      exact ih habove

theorem climb_carry_full (hc : carry levels count d false old = some (kept, root))
    (hk : kept ≠ []) : climb levels (count + 1) none kept = .ok ([], some root) := by
  induction levels generalizing count d old kept with
  | zero =>
    obtain ⟨rfl, -⟩ := Prod.mk.inj (Option.some.inj hc)
    exact absurd rfl hk
  | succ levels ih =>
    rcases carry_full_cases hc with ⟨heven, above, habove, rfl⟩ | ⟨hodd, l, old', habove⟩
    · rw [climb_odd_none (by omega), show (count + 1 + 1) / 2 = count / 2 + 1 by omega]
      exact climb_carry_partly habove
    · rw [climb_even_none (by omega), show (count + 1 + 1) / 2 = count / 2 + 1 by omega]
      exact ih habove hk

/-! ## The check and the packed form -/

/-- Whatever an append gives passes the check. -/
theorem validate_push {acc acc' : Accumulator} {leaf : Digest}
    (h : acc.push leaf = .ok (root, acc')) : acc'.validate = .ok () := by
  obtain ⟨hlt, kept, hc, rfl⟩ := push_cases h
  have hcount := toNat_leafCount_succ hlt
  have hne : acc.leafCount + 1 ≠ 0 := by
    intro h0
    rw [h0] at hcount
    simp at hcount
  have hlen : (kept ++ [root]).length = frontierLength (acc.leafCount + 1) := by
    rw [List.length_append, List.length_singleton, length_carry_full rfl hc,
      frontierLength_eq hne, hcount]
  have hroom : ¬ acc.leafCount + 1 > maxLeafCount := by
    rw [gt_iff_lt, UInt64.lt_iff_toNat_lt, hcount]
    rw [UInt64.lt_iff_toNat_lt] at hlt
    omega
  rw [validate, Frontier.validate, if_neg hroom, if_neg (not_not_intro hlen)]
  split
  · rfl
  · next hk =>
    have hne : kept ≠ [] := by
      rintro rfl
      simp at hk
    rw [List.dropLast_concat, List.getLastD_concat, hcount, maxDepth_leafCount_succ hlt,
      climb_carry_full hc hne]
    simp [bind, Except.bind, pure, Except.pure]

theorem validate_holding {leaves : List Digest} (h : leaves.length ≤ maxLeafCount.toNat) :
    (holding leaves).validate = .ok () := by
  induction leaves using List.reverseRecOn with
  | nil => rfl
  | append_singleton init last _ =>
    rw [List.length_append, List.length_singleton] at h
    exact validate_push (push_holding (by omega) last)

theorem frontierLength_le (n : UInt64) : frontierLength n ≤ 65 := by
  have hle : bitCount n ≤ 64 :=
    Nat.le_trans (List.length_filter_le ..) (by rw [List.length_range])
  rw [frontierLength]
  split <;> omega

theorem validate_eq_ok {acc : Accumulator} (h : acc.validate = .ok ()) :
    Frontier.validate acc.nodes acc.leafCount = .ok () := by
  rw [validate] at h
  cases hv : Frontier.validate acc.nodes acc.leafCount with
  | ok => rfl
  | error e => rw [hv] at h; exact nomatch h

theorem length_nodes_of_validate {acc : Accumulator} (h : acc.validate = .ok ()) :
    acc.nodes.length = frontierLength acc.leafCount := by
  have hv := validate_eq_ok h
  rw [Frontier.validate] at hv
  split at hv
  · exact nomatch hv
  · split at hv
    · exact nomatch hv
    · next hlen => exact not_not.mp hlen

/-- An accumulator that passes its check is read back from its packed bytes. -/
theorem decode_encode {acc : Accumulator} (h : acc.validate = .ok ()) :
    decode acc.encode = .ok acc := by
  have hlen := length_nodes_of_validate h
  have hle := frontierLength_le acc.leafCount
  have hfits : Fits acc.nodes := ⟨Nat.lt_of_le_of_lt (hlen ▸ hle) (by decide), fun _ _ => trivial⟩
  have hread : Decoder.Reads (do
      let nodes ← unpack
      let leafCount ← Decoder.u64 "leaf_count"
      return (nodes, leafCount)) acc.encode (acc.nodes, acc.leafCount) :=
    (reads_pack acc.nodes hfits).bind ((Decoder.reads_u64 "leaf_count" acc.leafCount).map _)
  have hparts : ofParts acc.nodes acc.leafCount = .ok acc := by
    rw [ofParts, validate_eq_ok h]
    rfl
  rw [decode]
  simp only [hread.whole]
  exact hparts

end Accumulator

end LightClient.Merkle
