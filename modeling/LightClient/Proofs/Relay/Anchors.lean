import LightClient.Proofs.Merkle.Inclusion
import LightClient.Proofs.Relay.Soundness

/-!
Roots of different anchors. Main statement: as far as nothing that was hashed for the headers
collides on the bytes that an id keeps of a hash, no two recorded roots are the same, and a proof
for one anchor is refused at every other.
-/

namespace LightClient

open Merkle (CollisionFree root)

namespace Merkle

namespace Accumulator

/-- What is hashed for the first leaves is hashed for all of them. -/
theorem appendHashed_subset_append (acc : Accumulator) (leaves more : List Digest) :
    acc.appendHashed leaves ⊆ acc.appendHashed (leaves ++ more) := by
  induction leaves generalizing acc with
  | nil => exact List.nil_subset _
  | cons leaf leaves ih =>
    rw [List.cons_append, appendHashed, appendHashed]
    refine List.append_subset_of_subset_of_subset (List.subset_append_left ..) ?_
    refine List.subset_append_of_subset_right _ ?_
    cases acc.append leaf with
    | error e => exact List.nil_subset _
    | ok acc => exact ih acc

end Accumulator

end Merkle

theorem takenHashed_take_subset (headers : List Header) (n : Nat) :
    takenHashed (headers.take n) ⊆ takenHashed headers := by
  have hids : Session.ids headers =
      Session.ids (headers.take n) ++ Session.ids (headers.drop n) := by
    rw [Session.ids, Session.ids, Session.ids, ← List.map_append, List.take_append_drop]
  rw [takenHashed, takenHashed, hids]
  refine List.append_subset_of_subset_of_subset ?_ ?_
  · exact List.subset_append_of_subset_left _ (List.map_subset _ (List.take_subset ..))
  · exact List.subset_append_of_subset_right _ (Merkle.Accumulator.appendHashed_subset_append ..)

namespace Session

namespace Consistent

variable {chain : AccountName} {headers : List Header} {s : Session MemoryStore}

/-- The last header of a longer list of headers is none of a shorter one, so its id, which leads to
the root of the longer list, does not lead to that of the shorter one. -/
theorem root_take_ne (hc : Consistent chain headers s) (hfits : ∀ h ∈ headers, Fits h)
    (hfree : CollisionFree Digest.tail (takenHashed headers)) {i j : Nat} (hij : i < j)
    (hj : j < headers.length) :
    root (ids (headers.take (i + 1))) ≠ root (ids (headers.take (j + 1))) := by
  intro heq
  have hlen := hc.length_le
  have hcount (n : Nat) : (headers.take n).length ≤ Merkle.maxLeafCount.toNat := by
    rw [List.length_take, Merkle.toNat_maxLeafCount]
    omega
  have hlast : j < (ids (headers.take (j + 1))).length := by
    rw [length_ids, List.length_take]
    omega
  have hid : (ids (headers.take (j + 1)))[j] = headers[j].id := by
    simp only [ids, List.getElem_map, List.getElem_take]
  have hmem {h : Header} (hh : h ∈ headers) : h.encode ∈ takenHashed headers :=
    List.mem_append_left _ (List.mem_map_of_mem hh)
  obtain ⟨path, -, hfold, hpath⟩ := Merkle.Tree.exists_path hlast
  rw [hid, length_ids] at hpath
  rw [hid, ← heq] at hfold
  have hlog : path.hashed headers[j].id ⊆ takenHashed headers :=
    List.Subset.trans hpath <| List.Subset.trans (treeHashed_subset_takenHashed (hcount _))
      (takenHashed_take_subset ..)
  obtain ⟨h, hh, htail⟩ := exists_header_of_fold hfree (hcount (i + 1))
    (List.length_pos_iff.mp (by rw [List.length_take]; omega)) (takenHashed_take_subset ..)
    (hmem (List.getElem_mem hj)) hlog hfold
  have hh' := List.mem_of_mem_take hh
  have hsame := eq_of_tail_id hfree (hfits _ (List.getElem_mem hj)) (hfits h hh')
    (hmem (List.getElem_mem hj)) (hmem hh') htail
  -- The two headers are one, but they have different numbers.
  obtain ⟨k, hk, rfl⟩ := List.getElem_of_mem hh
  rw [List.length_take] at hk
  rw [List.getElem_take] at hsame
  have hnum := congrArg (·.blockNum.toNat) hsame
  simp only [hc.numbers hj, hc.numbers (i := k) (by omega)] at hnum
  omega

/-- Recorded roots are those over the ids up to a header. -/
theorem anchorRoot_cases (hc : Consistent chain headers s) {anchor : UInt32} {r : Digest}
    (h : Prover.anchorRoot s.store chain anchor = .ok r) :
    ∃ (j : Nat) (hj : j < headers.length), headers[j].blockNum = anchor ∧
      r = root (ids (headers.take (j + 1))) := by
  have hfind : ∃ record, (s.store.blocksOf chain).find? anchor = some record := by
    cases hf : (s.store.blocksOf chain).find? anchor with
    | some record => exact ⟨record, rfl⟩
    | none =>
      rw [Prover.anchorRoot] at h
      simp only [getBlock, hf] at h
      cases h
  obtain ⟨record, hrecord⟩ := hfind
  have hmem := Table.mem_of_findIn hrecord
  rw [hc.entries_eq] at hmem
  obtain ⟨_, hr, hkey⟩ := List.mem_map.mp hmem
  obtain ⟨j, hj, rfl⟩ := List.mem_mapIdx.mp hr
  obtain rfl : headers[j].blockNum = anchor := congrArg Prod.fst hkey
  rw [hc.anchorRoot_eq hj] at h
  exact ⟨j, hj, rfl, (Except.ok.inj h).symm⟩

/-- No two recorded roots are the same. -/
theorem anchorRoot_ne (hc : Consistent chain headers s) (hfits : ∀ h ∈ headers, Fits h)
    (hfree : CollisionFree Digest.tail (takenHashed headers)) {anchor anchor' : UInt32}
    {r r' : Digest} (h : Prover.anchorRoot s.store chain anchor = .ok r)
    (h' : Prover.anchorRoot s.store chain anchor' = .ok r') (hne : anchor ≠ anchor') : r ≠ r' := by
  obtain ⟨i, hi, rfl, rfl⟩ := hc.anchorRoot_cases h
  obtain ⟨j, hj, rfl, rfl⟩ := hc.anchorRoot_cases h'
  rcases Nat.lt_trichotomy i j with hij | rfl | hji
  · exact hc.root_take_ne hfits hfree hij hj
  · exact absurd rfl hne
  · exact (hc.root_take_ne hfits hfree hji hi).symm

/-- A proof leads to the root of its own anchor, so at any other root it is refused. -/
theorem proveBlock_refused (hc : Consistent chain headers s) {i j : Nat} (hij : i ≤ j)
    (hi : i < headers.length) (hj : j < headers.length) {r : Digest}
    (hne : r ≠ root (ids (headers.take (j + 1)))) :
    ∃ proof, Prover.proveBlock s.store chain headers[i].blockNum headers[j].blockNum = .ok proof ∧
      proof.verify r .standard =
        .error (.merkle (.mismatch (root (ids (headers.take (j + 1)))) r)) := by
  obtain ⟨path, hproof, hlen, hfold⟩ := hc.proveBlock_eq hij hi hj
  have hlimit : ¬ path.length > Limits.standard.blockPath.toNat :=
    Nat.not_lt.mpr (Nat.le_trans hlen (by decide))
  have hmax : ¬ path.length > Merkle.Path.maxLength :=
    Nat.not_lt.mpr (Nat.le_trans hlen (by decide))
  refine ⟨_, hproof, ?_⟩
  rw [BlockProof.verify, verifyPath, if_neg hlimit, Merkle.Path.check, if_neg hmax, hfold,
    if_neg hne.symm]
  rfl

/-- Every block up to an anchor has a proof, and it is refused at the root of every other anchor. -/
theorem exists_proveBlock_refused (hc : Consistent chain headers s)
    (hfits : ∀ h ∈ headers, Fits h) (hfree : CollisionFree Digest.tail (takenHashed headers))
    {span : Span} (hspan : s.tracker.span = some span) {num anchor : UInt32}
    (hfirst : span.first ≤ num) (hnum : num ≤ anchor) (hhead : anchor ≤ span.head) :
    ∃ proof r, Prover.proveBlock s.store chain num anchor = .ok proof ∧
      Prover.anchorRoot s.store chain anchor = .ok r ∧
      ∀ anchor' r', Prover.anchorRoot s.store chain anchor' = .ok r' → anchor' ≠ anchor →
        proof.verify r' .standard = .error (.merkle (.mismatch r r')) := by
  obtain ⟨i, j, hij, hj, rfl, rfl, -⟩ := hc.exists_of_range hspan hfirst hnum hhead
  obtain ⟨path, hproof, -⟩ := hc.proveBlock_eq hij (by omega) hj
  have hroot := hc.anchorRoot_eq hj
  refine ⟨_, _, hproof, hroot, fun anchor' r' hr' hne => ?_⟩
  obtain ⟨proof, hproof', hrefused⟩ :=
    hc.proveBlock_refused hij (by omega) hj (hc.anchorRoot_ne hfits hfree hr' hroot hne)
  obtain rfl := Except.ok.inj (hproof.symm.trans hproof')
  exact hrefused

end Consistent

/-- **Anchors are separated.** After any steps from an empty store, if no two different byte strings
that were hashed to take the headers have hashes that end alike, the roots recorded for two
different blocks are different. So the proof of a block at an anchor, which there is for every block
up to every anchor, is refused at the root of every other anchor, since it leads to that of its
own. -/
theorem run_separates_anchors (chain : AccountName) (steps : List Step)
    (hfits : ∀ h ∈ (start chain).accepted steps, Fits h)
    (hfree : CollisionFree Digest.tail (takenHashed ((start chain).accepted steps))) :
    let s := (start chain).run steps
    (∀ anchor anchor' r r', Prover.anchorRoot s.store chain anchor = .ok r →
      Prover.anchorRoot s.store chain anchor' = .ok r' → anchor ≠ anchor' → r ≠ r') ∧
    ∀ span, s.tracker.span = some span → ∀ num anchor, span.first ≤ num → num ≤ anchor →
      anchor ≤ span.head → ∃ proof r, Prover.proveBlock s.store chain num anchor = .ok proof ∧
        Prover.anchorRoot s.store chain anchor = .ok r ∧
        ∀ anchor' r', Prover.anchorRoot s.store chain anchor' = .ok r' → anchor' ≠ anchor →
          proof.verify r' .standard = .error (.merkle (.mismatch r r')) := by
  intro s
  have hc := run_start chain steps
  exact ⟨fun anchor anchor' r r' => hc.anchorRoot_ne hfits hfree,
    fun span hspan num anchor => hc.exists_proveBlock_refused hfits hfree hspan⟩

/-- The proof of the first of two blocks at itself is refused at the second. -/
theorem run_separates_two :
    let first := plainHeader .zero (.hash [1])
    let second := plainHeader first.id .zero
    let s := (start ⟨1⟩).run [.update first, .update second]
    CollisionFree Digest.tail (takenHashed [first, second]) ∧
      ∃ proof r r', Prover.proveBlock s.store ⟨1⟩ first.blockNum first.blockNum = .ok proof ∧
        Prover.anchorRoot s.store ⟨1⟩ first.blockNum = .ok r ∧
        Prover.anchorRoot s.store ⟨1⟩ second.blockNum = .ok r' ∧ r ≠ r' ∧
        proof.verify r' .standard = .error (.merkle (.mismatch r r')) := by
  intro first second s
  have hfirst : first.blockNum = 1 := by decide
  have hlt : first.blockNum.toNat + 1 < 2 ^ 32 := by rw [hfirst]; decide
  have haccepted := accepted_pair ⟨1⟩ hlt .zero
  have hc := haccepted ▸ run_start ⟨1⟩ [.update first, .update second]
  have hfree : CollisionFree Digest.tail (takenHashed [first, second]) := by
    have hnodup : ([first.encode, second.encode, Digest.joined first.id second.id].map
        fun s => (Digest.hash s).tail).Nodup := by
      decide +kernel
    rw [takenHashed_pair]
    exact Merkle.collisionFree_of_nodup hnodup
  have hspan : s.tracker.span = some ⟨first.blockNum, second.blockNum, second.id⟩ := hc.span_eq
  have hle : first.blockNum ≤ second.blockNum := (plainHeader_follows hlt .zero).blockNum_le
  have hne : second.blockNum ≠ first.blockNum := by
    intro heq
    have hnum := (plainHeader_follows hlt .zero).1
    rw [heq] at hnum
    omega
  obtain ⟨hroots, hproofs⟩ := run_separates_anchors ⟨1⟩ [.update first, .update second]
    (by rw [haccepted]; exact fits_plainHeaders _ _ _ _) (by rw [haccepted]; exact hfree)
  obtain ⟨proof, r, hproof, hr, hrefused⟩ :=
    hproofs _ hspan first.blockNum first.blockNum (UInt32.le_refl _) (UInt32.le_refl _) hle
  have hr' : Prover.anchorRoot s.store ⟨1⟩ second.blockNum = .ok (root (ids [first, second])) :=
    hc.anchorRoot_eq (j := 1) (by decide)
  exact ⟨hfree, proof, r, _, hproof, hr, hr', hroots _ _ _ _ hr hr' hne.symm,
    hrefused _ _ hr' hne⟩

end Session

end LightClient
