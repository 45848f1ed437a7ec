import LightClient.Proofs.Merkle.Binding
import LightClient.Proofs.Relay.Provable

/-!
What an accepted proof proves about the tracked chain. Main statement: as far as no two byte strings
that were hashed collide on the bytes that an id keeps of a hash, the header in an accepted proof is
one of those that were taken up to the anchor.
-/

namespace LightClient

open Merkle (Accumulator CollisionFree SideBlind treeHashed above)

namespace Digest

/-- The first byte is none of those that an id keeps of a hash. -/
theorem sideBlind_tail : SideBlind tail := by
  intro a b h
  have hbytes (d : Digest) : d.tail = d.asLeft.bytes.tail.drop 3 := by
    rw [asLeft, tail_mapFirst, tail, ← List.drop_one, List.drop_drop]
  rw [hbytes, hbytes, h]

end Digest

/-- What is hashed when headers are taken: each header, and the pairs that its id makes in the
accumulator. -/
def takenHashed (headers : List Header) : List (List UInt8) :=
  headers.map Header.encode ++ Accumulator.empty.appendHashed (Session.ids headers)

/-- What is hashed when a proof is checked: both headers, and the pairs along both paths. -/
def CrossChainProof.hashed (p : CrossChainProof) : List (List UInt8) :=
  p.block.header.encode :: p.transaction.header.encode ::
    (p.transaction.path.hashed p.transaction.receipt ++ p.block.path.hashed p.block.header.id)

theorem takenHashed_pair (h h' : Header) :
    takenHashed [h, h'] = [h.encode, h'.encode, Digest.joined h.id h'.id] := by
  have hone : Merkle.maxDepth 1 = 1 := by decide
  have htwo : Merkle.maxDepth 2 = 2 := by decide
  simp [takenHashed, Session.ids, Accumulator.appendHashed, Accumulator.pushHashed,
    Accumulator.carryHashed, Accumulator.append, Accumulator.push, Accumulator.carry,
    Accumulator.empty, Merkle.maxLeafCount, hone, htwo]

section Soundness

variable {headers : List Header} {log : List (List UInt8)}

theorem treeHashed_subset_takenHashed (h : headers.length ≤ Merkle.maxLeafCount.toNat) :
    treeHashed (Nat.clog 2 headers.length) (Session.ids headers) ⊆ takenHashed headers := by
  have hids : ([] ++ Session.ids headers).length ≤ Merkle.maxLeafCount.toNat := by
    simpa using h
  have hsub := Accumulator.treeHashed_subset_appendHashed hids
  rw [List.nil_append, Session.length_ids, List.length_nil, Nat.clog_zero_right, treeHashed,
    List.nil_append, Accumulator.holding_nil] at hsub
  exact List.subset_append_of_subset_right _ hsub

/-- A packed header is longer than the byte string of a pair. -/
theorem encode_ne_of_length {h : Header} {s : List UInt8} (hs : s.length = 64) :
    h.encode ≠ s := by
  rintro rfl
  have hlen : 116 ≤ h.encode.length := h.length_pack
  omega

/-- The end of an id is that of no pair. -/
theorem tail_id_ne (hfree : CollisionFree Digest.tail log) {h : Header} {s : List UInt8}
    (hh : h.encode ∈ log) (hs : s ∈ log) (hlen : s.length = 64) :
    h.id.tail ≠ (Digest.hash s).tail := by
  rw [Header.tail_id]
  exact fun htail => encode_ne_of_length hlen (hfree _ hh _ hs htail)

/-- Headers whose ids end alike are the same. -/
theorem eq_of_tail_id (hfree : CollisionFree Digest.tail log) {h h' : Header} (hf : Fits h)
    (hf' : Fits h') (hmem : h.encode ∈ log) (hmem' : h'.encode ∈ log)
    (htail : h.id.tail = h'.id.tail) : h = h' := by
  rw [Header.tail_id, Header.tail_id] at htail
  exact pack_injective hf hf' (hfree _ hmem _ hmem' htail)

/-- A path that leads from a block id to the root over ids starts at one of them: a shorter one
would start at a pair, and a longer one would make an id from a pair. -/
theorem exists_header_of_fold (hfree : CollisionFree Digest.tail log)
    (hcount : headers.length ≤ Merkle.maxLeafCount.toNat) (h0 : headers ≠ [])
    (htaken : takenHashed headers ⊆ log) {h : Header} {path : Merkle.Path} (hmem : h.encode ∈ log)
    (hpath : path.hashed h.id ⊆ log)
    (hfold : path.fold h.id = Merkle.root (Session.ids headers)) :
    ∃ h' ∈ headers, h.id.tail = h'.id.tail := by
  have htree := List.Subset.trans (treeHashed_subset_takenHashed hcount) htaken
  have hencode {h' : Header} (hh' : h' ∈ headers) : h'.encode ∈ log :=
    htaken (List.mem_append_left _ (List.mem_map_of_mem hh'))
  have hids : Session.ids headers ≠ [] := by simpa [Session.ids] using h0
  have hroot : Merkle.root (Session.ids headers) ∈
      above (Nat.clog 2 headers.length) (Session.ids headers) := by
    rw [Merkle.root_eq_top, Session.length_ids,
      Merkle.above_eq_top hids (by rw [Session.length_ids]; exact Nat.le_pow_clog Nat.one_lt_two _)]
    exact List.mem_cons_self
  have hview := congrArg Digest.tail hfold
  cases Nat.lt_or_ge (Nat.clog 2 headers.length) path.entries.length with
  | inl hlong =>
    obtain ⟨d, hd, s, hs, hlen, heq⟩ := Merkle.exists_hashed_of_fold Digest.sideBlind_tail hfree
      htree hpath hlong hroot hview
    obtain ⟨h', hh', rfl⟩ := List.mem_map.mp hd
    exact absurd heq.symm (tail_id_ne hfree (hencode hh') (hpath hs) hlen)
  | inr hshort =>
    obtain ⟨d, hd, heq⟩ := Merkle.exists_node_of_fold Digest.sideBlind_tail hfree htree hpath
      hshort hroot hview
    cases Nat.eq_zero_or_pos (Nat.clog 2 headers.length - path.entries.length) with
    | inl hzero =>
      rw [hzero] at hd
      obtain ⟨h', hh', rfl⟩ := List.mem_map.mp hd
      exact ⟨h', hh', heq⟩
    | inr hpos =>
      obtain ⟨s, hs, hlen, rfl⟩ := Merkle.exists_hashed_of_mem_above hpos (Nat.sub_le ..) hd
      exact absurd heq (tail_id_ne hfree hmem (htree hs) hlen)

end Soundness

namespace Session

/-- A proof that is accepted against the root over the first ids holds one of their headers in both
of its parts. -/
theorem Consistent.exists_header_of_verify {chain : AccountName} {headers : List Header}
    {s : Session MemoryStore} (hc : Consistent chain headers s) (hfits : ∀ h ∈ headers, Fits h)
    {k : Nat} (hk : k < headers.length) {p : CrossChainProof} (hp : Fits p) {limits : Limits}
    {v : Verified} (hv : p.verify (Merkle.root (ids (headers.take (k + 1)))) limits = .ok v)
    (hfree : CollisionFree Digest.tail (takenHashed (headers.take (k + 1)) ++ p.hashed)) :
    ∃ (j : Nat) (_ : j ≤ k), p.block.header = headers[j] ∧
      p.transaction.header = p.block.header := by
  obtain ⟨haccepted, -⟩ := CrossChainProof.verify_eq_ok.mp hv
  have hlen := hc.length_le
  have htake : (headers.take (k + 1)).length = k + 1 := by
    rw [List.length_take]
    omega
  have hblock : p.block.header.encode ∈
      takenHashed (headers.take (k + 1)) ++ p.hashed :=
    List.mem_append_right _ List.mem_cons_self
  have htransaction : p.transaction.header.encode ∈
      takenHashed (headers.take (k + 1)) ++ p.hashed :=
    List.mem_append_right _ (List.mem_cons_of_mem _ List.mem_cons_self)
  have hpath : p.block.path.hashed p.block.header.id ⊆
      takenHashed (headers.take (k + 1)) ++ p.hashed :=
    List.subset_append_of_subset_right _ <| List.subset_cons_of_subset _ <|
      List.subset_cons_of_subset _ (List.subset_append_right ..)
  have hcount : (headers.take (k + 1)).length ≤ Merkle.maxLeafCount.toNat := by
    rw [htake, Merkle.toNat_maxLeafCount]
    omega
  -- The block id ends like that of a header that was taken, and so does the receipt's header.
  obtain ⟨h, hh, htail⟩ := exists_header_of_fold hfree hcount
    (List.length_pos_iff.mp (by omega)) (List.subset_append_left ..) hblock hpath
    haccepted.block.fold_eq
  have hmem : h.encode ∈ takenHashed (headers.take (k + 1)) ++ p.hashed :=
    List.mem_append_left _ (List.mem_append_left _ (List.mem_map_of_mem hh))
  have hblockEq := eq_of_tail_id hfree hp.2.1 (hfits h (List.mem_of_mem_take hh)) hblock hmem htail
  have htransactionEq := eq_of_tail_id hfree hp.1.2 hp.2.1 htransaction hblock
    (congrArg Digest.tail haccepted.same_id)
  obtain ⟨j, hj, rfl⟩ := List.getElem_of_mem hh
  rw [List.getElem_take] at hblockEq
  rw [htake] at hj
  exact ⟨j, by omega, hblockEq, htransactionEq⟩

/-- **An accepted proof is about a header that was taken.** Let a proof be accepted against the root
recorded for a block of a session. If no two different byte strings that were hashed to take the
headers up to that block, or to check the proof, have hashes that end alike, then both parts of the
proof hold one of these headers; the verifier names its number and its id; and the receipt leads to
the root that the header names for its receipts. -/
theorem verify_sound (chain : AccountName) (steps : List Step) {headers : List Header}
    (hheaders : (start chain).accepted steps = headers) (hfits : ∀ h ∈ headers, Fits h) {k : Nat}
    (hk : k < headers.length) {root : Digest}
    (hroot : Prover.anchorRoot ((start chain).run steps).store chain headers[k].blockNum =
      .ok root)
    {p : CrossChainProof} (hp : Fits p) {limits : Limits} {v : Verified}
    (hv : p.verify root limits = .ok v)
    (hfree : CollisionFree Digest.tail (takenHashed (headers.take (k + 1)) ++ p.hashed)) :
    ∃ (j : Nat) (_ : j ≤ k), p.block.header = headers[j] ∧ p.transaction.header = headers[j] ∧
      v.blockId = headers[j].id ∧ v.blockNum.toNat = headers[0].blockNum.toNat + j ∧
      v.chain = p.chain ∧ v.receipt = p.transaction.receipt ∧
      p.transaction.path.fold v.receipt = headers[j].transactionRoot := by
  have hc := hheaders ▸ run_start chain steps
  rw [hc.anchorRoot_eq hk] at hroot
  obtain rfl := Except.ok.inj hroot
  obtain ⟨j, hj, hblock, htransaction⟩ := hc.exists_header_of_verify hfits hk hp hv hfree
  obtain ⟨haccepted, rfl⟩ := CrossChainProof.verify_eq_ok.mp hv
  refine ⟨j, hj, hblock, htransaction.trans hblock, ?_, ?_, rfl, rfl, ?_⟩
  · rw [hblock]
  · rw [hblock]
    exact hc.numbers (by omega)
  · have hreceipt := haccepted.receipt.fold_eq
    rwa [htransaction, hblock] at hreceipt

/-- The proof of the first of two blocks at the second, whose only receipt is its root. -/
theorem verify_sound_pair :
    let first := plainHeader .zero (.hash [1])
    let second := plainHeader first.id .zero
    let s := (start ⟨1⟩).run [.update first, .update second]
    let p : CrossChainProof :=
      ⟨⟨1⟩, ⟨.hash [1], ⟨[]⟩, first⟩, ⟨first, ⟨[second.id.asRight]⟩, second.blockNum⟩⟩
    ∃ root v, Prover.anchorRoot s.store ⟨1⟩ second.blockNum = .ok root ∧
      p.verify root .standard = .ok v ∧
      CollisionFree Digest.tail (takenHashed [first, second] ++ p.hashed) ∧
      ∃ j ≤ 1, [first, second][j]? = some p.block.header ∧
        v.blockNum.toNat = first.blockNum.toNat + j := by
  intro first second s p
  have hfirst : first.blockNum = 1 := by decide
  have hlt : first.blockNum.toNat + 1 < 2 ^ 32 := by rw [hfirst]; decide
  have haccepted := accepted_pair ⟨1⟩ hlt .zero
  have hc := haccepted ▸ run_start ⟨1⟩ [.update first, .update second]
  have hroot : Prover.anchorRoot s.store ⟨1⟩ second.blockNum =
      .ok (Merkle.root (ids [first, second])) :=
    hc.anchorRoot_eq (j := 1) (by decide)
  have hpair : p.block.path.fold first.id = Merkle.root (ids [first, second]) :=
    (Merkle.Path.fold_asRight ..).trans (Merkle.root_pair ..).symm
  have hle : first.blockNum ≤ second.blockNum := (plainHeader_follows hlt .zero).blockNum_le
  have hv : p.verify (Merkle.root (ids [first, second])) .standard =
      .ok ⟨⟨1⟩, .hash [1], first.blockNum, first.id⟩ :=
    CrossChainProof.verify_eq_ok.mpr
      ⟨⟨rfl, hle, ⟨by decide, by decide, rfl⟩, ⟨by decide, by decide, hpair⟩⟩, rfl⟩
  have hfree : CollisionFree Digest.tail (takenHashed [first, second] ++ p.hashed) := by
    have hnodup : ([first.encode, second.encode, Digest.joined first.id second.id].map
        fun s => (Digest.hash s).tail).Nodup := by
      decide +kernel
    have hp : p.hashed = first.encode :: first.encode :: [Digest.joined first.id second.id] :=
      congrArg (first.encode :: first.encode :: ·) (Merkle.Path.hashed_asRight ..)
    have hsub (a b c : List UInt8) : [a, b, c] ++ a :: a :: [c] ⊆ [a, b, c] := by simp
    rw [takenHashed_pair, hp]
    exact (Merkle.collisionFree_of_nodup hnodup).mono (hsub ..)
  have hfits : ∀ h ∈ [first, second], Fits h := fits_plainHeaders _ _ _ _
  have hp : Fits p :=
    ⟨⟨Merkle.Path.fits_of_length_le (by decide), fits_plainHeader ..⟩, fits_plainHeader ..,
      Merkle.Path.fits_of_length_le (by decide)⟩
  obtain ⟨j, hj, hblock, -, -, hnum, -⟩ := verify_sound ⟨1⟩ _ haccepted hfits (k := 1) (by decide)
    hroot hp hv hfree
  exact ⟨_, _, hroot, hv, hfree, j, hj, by rw [hblock]; exact List.getElem?_eq_getElem _, hnum⟩

end Session

end LightClient
