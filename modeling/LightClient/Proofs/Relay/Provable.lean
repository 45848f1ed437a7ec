import LightClient.Proofs.Block.Id
import LightClient.Proofs.Merkle.Paths
import LightClient.Proofs.Relay.Emission

/-!
What can be proved of a session. Main statement: just the blocks from the first to an anchor that
was taken are provable, and their proofs are accepted.
-/

namespace LightClient

open Merkle (Tree)

/-- A path that a verifier can accept is short enough to be written. -/
theorem Merkle.Path.fits_of_length_le {path : Merkle.Path} (h : path.length ≤ 32) : Fits path :=
  ⟨Nat.lt_of_le_of_lt h (by decide), fun _ _ => trivial⟩

namespace Session

theorem map_id_records (headers : List Header) : (records headers).map (·.id) = ids headers := by
  refine List.ext_getElem (by simp) fun i hi _ => ?_
  simp only [List.getElem_map, records, List.getElem_mapIdx, ids]

/-- The path of a receipt is accepted, and short enough to be written. -/
theorem receipt_leads {receipts : List Digest} {i : Nat} (hi : i < receipts.length)
    (hlen : receipts.length ≤ 2 ^ 32) :
    ∃ path, (Tree.ofLeaves receipts).proof i = .ok path ∧
      Leads Limits.standard.receiptPath receipts[i] path (Merkle.root receipts) ∧ Fits path := by
  obtain ⟨path, hpath, hplen, hfold⟩ := Tree.fold_proof hi
  have hshort : path.length ≤ 32 := by
    rw [hplen]
    exact Nat.clog_le_of_le_pow hlen
  exact ⟨path, hpath, ⟨hshort, Nat.le_trans hshort (by decide), hfold⟩,
    path.fits_of_length_le hshort⟩

namespace Consistent

variable {chain : AccountName} {headers : List Header} {s : Session MemoryStore}

/-- Every number from the first block to the head is that of a header. -/
theorem exists_blockNum_eq (hc : Consistent chain headers s) {span : Span}
    (hspan : s.tracker.span = some span) {num : UInt32} (hfirst : span.first ≤ num)
    (hhead : num ≤ span.head) :
    ∃ (i : Nat) (hi : i < headers.length), headers[i].blockNum = num ∧
      num.toNat - span.first.toNat = i := by
  have hspan' := hspan.symm.trans hc.span_eq
  have h0 : 0 < headers.length := by
    refine List.length_pos_iff.mpr ?_
    rintro rfl
    exact nomatch hspan'
  rw [spanOf_eq h0] at hspan'
  obtain rfl := Option.some.inj hspan'
  have hlast := hc.numbers (i := headers.length - 1) (by omega)
  simp only [UInt32.le_iff_toNat_le] at hfirst hhead
  have hi : num.toNat - headers[0].blockNum.toNat < headers.length := by omega
  refine ⟨_, hi, UInt32.toNat_inj.mp ?_, rfl⟩
  rw [hc.numbers hi]
  omega

theorem getBlock_eq (hc : Consistent chain headers s) {i : Nat} (hi : i < headers.length) :
    getBlock s.store chain headers[i].blockNum =
      .ok (some ⟨headers[i].blockNum, headers[i].id, Merkle.root (ids (headers.take (i + 1))),
        headers[i]⟩) :=
  congrArg Except.ok (hc.find?_blocksOf hi)

/-- The root recorded for a header is that over the ids up to its own. -/
theorem anchorRoot_eq (hc : Consistent chain headers s) {j : Nat} (hj : j < headers.length) :
    Prover.anchorRoot s.store chain headers[j].blockNum =
      .ok (Merkle.root (ids (headers.take (j + 1)))) := by
  rw [Prover.anchorRoot]
  rw [hc.getBlock_eq hj]
  rfl

/-- The number of an entry is that of the first plus its place. -/
theorem toNat_key (hc : Consistent chain headers s) {i : Nat} (hi : i < (entries headers).length)
    (h0 : 0 < headers.length) :
    (entries headers)[i].1.toNat = headers[0].blockNum.toNat + i := by
  have hi' : i < headers.length := by simpa [entries] using hi
  simp only [entries, records, List.getElem_map, List.getElem_mapIdx, hc.numbers hi']

/-- The ids stored from the first block to another are those of the headers up to it. -/
theorem blockIds_eq (hc : Consistent chain headers s) (h0 : 0 < headers.length) {j : Nat}
    (hj : j < headers.length) :
    blockIds s.store chain headers[0].blockNum headers[j].blockNum =
      .ok (ids (headers.take (j + 1))) := by
  have hnum := hc.numbers hj
  have hrange : (s.store.blocksOf chain).range headers[0].blockNum headers[j].blockNum =
      ((entries headers).take (j + 1)).map (·.2) := by
    refine Table.range_eq_map
      (hc.entries_eq.trans (List.take_append_drop (j + 1) (entries headers)).symm) ?_ ?_
    · intro e he
      obtain ⟨i, hi, rfl⟩ := List.getElem_of_mem he
      rw [List.length_take] at hi
      rw [List.getElem_take, UInt32.lt_iff_toNat_lt, UInt32.lt_iff_toNat_lt,
        hc.toNat_key (by omega) h0]
      omega
    · intro e he
      obtain ⟨i, hi, rfl⟩ := List.getElem_of_mem he
      rw [List.length_drop] at hi
      rw [List.getElem_drop, UInt32.lt_iff_toNat_lt, hc.toNat_key (by omega) h0]
      omega
  have hrecords : (entries headers).map (·.2) = records headers := by
    rw [entries, List.map_map]
    exact List.map_id' _
  change Except.ok (((s.store.blocksOf chain).range _ _).map (·.id)) = _
  rw [hrange, List.map_take, hrecords, List.map_take, map_id_records, ids, ids, List.map_take]

/-- The snapshot of a session that has taken headers. -/
theorem loadChain_eq (hc : Consistent chain headers s) {span : Span}
    (hspan : s.tracker.span = some span) :
    loadChain s.store chain =
      .ok (some (Tracker.snapshot chain s.tracker.accumulator span)) := by
  change Except.ok (s.store.chains.find? chain) = _
  rw [hc.snapshot_eq, hspan]
  rfl

/-- The proof of a header is cut from the tree over the ids up to the anchor, and leads to the root
recorded there. -/
theorem proveBlock_eq (hc : Consistent chain headers s) {i j : Nat} (hij : i ≤ j)
    (hi : i < headers.length) (hj : j < headers.length) :
    ∃ path, Prover.proveBlock s.store chain headers[i].blockNum headers[j].blockNum =
        .ok ⟨headers[i], path, headers[j].blockNum⟩ ∧
      path.length ≤ 32 ∧
      path.fold headers[i].id = Merkle.root (ids (headers.take (j + 1))) := by
  have h0 : 0 < headers.length := by omega
  have hnum' := hc.numbers hi
  have hnum := hc.numbers hj
  have hlast := hc.numbers (i := headers.length - 1) (by omega)
  have hids : (ids (headers.take (j + 1))).length = j + 1 := by
    rw [length_ids, List.length_take]
    omega
  have hi' : i < (ids (headers.take (j + 1))).length := by omega
  have hid : (ids (headers.take (j + 1)))[i] = headers[i].id := by
    simp only [ids, List.getElem_map, List.getElem_take]
  obtain ⟨path, hpath, -, hfold⟩ := Tree.fold_proof hi'
  rw [hid] at hfold
  have hspan := hc.span_eq
  rw [spanOf_eq h0] at hspan
  have hindex : headers[i].blockNum.toNat - headers[0].blockNum.toNat = i := by omega
  have hfound : Prover.Findings s.store chain headers[i].blockNum headers[j].blockNum
      (Tracker.snapshot chain s.tracker.accumulator
        ⟨headers[0].blockNum, headers[headers.length - 1].blockNum, _⟩)
      (ids (headers.take (j + 1))) path _ _ :=
    { snapshot_eq := hc.loadChain_eq hspan
      first_le := UInt32.le_iff_toNat_le.mpr (by simp only [Tracker.snapshot]; omega)
      num_le := UInt32.le_iff_toNat_le.mpr (by omega)
      anchor_le := UInt32.le_iff_toNat_le.mpr (by simp only [Tracker.snapshot]; omega)
      ids_eq := hc.blockIds_eq h0 hj
      length_ids := hids.trans (by simp only [Tracker.snapshot]; omega)
      path_eq := by simp only [Tracker.snapshot, hindex, hpath]
      record_eq := hc.getBlock_eq hi
      root_eq := hc.anchorRoot_eq hj }
  exact ⟨path, hfound.proveBlock_eq.trans (if_pos hfold), hfound.length_path_le, hfold⟩

/-- A block before the first, behind the anchor, or with an anchor behind the head is refused. -/
theorem proveBlock_outside (hc : Consistent chain headers s) {span : Span}
    (hspan : s.tracker.span = some span) {num anchor : UInt32}
    (hout : ¬ (span.first ≤ num ∧ num ≤ anchor ∧ anchor ≤ span.head)) :
    Prover.proveBlock s.store chain num anchor =
      .error (.outOfRange chain num span.first (min anchor span.head)) := by
  have hcond : num < span.first ∨ anchor < num ∨ span.head < anchor := by
    simp only [← UInt32.not_le]
    tauto
  rw [Prover.proveBlock]
  simp only [hc.loadChain_eq hspan, Tracker.snapshot, mapError_ok, bind, Except.bind,
    if_pos hcond]
  rfl

/-- Numbers in range are those of two headers in their order. -/
theorem exists_of_range (hc : Consistent chain headers s) {span : Span}
    (hspan : s.tracker.span = some span) {num anchor : UInt32} (hfirst : span.first ≤ num)
    (hnum : num ≤ anchor) (hhead : anchor ≤ span.head) :
    ∃ (i j : Nat) (_ : i ≤ j) (_ : j < headers.length),
      headers[i].blockNum = num ∧ headers[j].blockNum = anchor ∧
        num.toNat - span.first.toNat = i := by
  obtain ⟨i, hi, hi', hplace⟩ :=
    hc.exists_blockNum_eq hspan hfirst (UInt32.le_trans hnum hhead)
  obtain ⟨j, hj, hj', hplace'⟩ :=
    hc.exists_blockNum_eq hspan (UInt32.le_trans hfirst hnum) hhead
  rw [UInt32.le_iff_toNat_le] at hnum
  exact ⟨i, j, by omega, hj, hi', hj', hplace⟩

/-- What a proof that was given holds. -/
theorem proveBlock_cases (hc : Consistent chain headers s) {span : Span}
    (hspan : s.tracker.span = some span) {num anchor : UInt32} {proof : BlockProof}
    (h : Prover.proveBlock s.store chain num anchor = .ok proof) :
    (span.first ≤ num ∧ num ≤ anchor ∧ anchor ≤ span.head) ∧
      ∃ header root, headers[num.toNat - span.first.toNat]? = some header ∧
        header.blockNum = num ∧ proof.header = header ∧ proof.anchor = anchor ∧
        Prover.anchorRoot s.store chain anchor = .ok root ∧ proof.path.length ≤ 32 ∧
        proof.path.fold header.id = root := by
  have hrange : span.first ≤ num ∧ num ≤ anchor ∧ anchor ≤ span.head := by
    by_contra hout
    rw [hc.proveBlock_outside hspan hout] at h
    exact nomatch h
  obtain ⟨i, j, hij, hj, rfl, rfl, hi⟩ := hc.exists_of_range hspan hrange.1 hrange.2.1 hrange.2.2
  obtain ⟨path, hpath, hlen, hfold⟩ := hc.proveBlock_eq hij (by omega) hj
  obtain rfl := Except.ok.inj (hpath.symm.trans h)
  rw [hi]
  exact ⟨hrange, _, _, List.getElem?_eq_getElem (by omega), rfl, rfl, rfl, hc.anchorRoot_eq hj,
    hlen, hfold⟩

theorem exists_proveBlock_iff (hc : Consistent chain headers s) {span : Span}
    (hspan : s.tracker.span = some span) {num anchor : UInt32} :
    (∃ proof, Prover.proveBlock s.store chain num anchor = .ok proof) ↔
      span.first ≤ num ∧ num ≤ anchor ∧ anchor ≤ span.head := by
  refine ⟨fun ⟨proof, h⟩ => (hc.proveBlock_cases hspan h).1, fun hr => ?_⟩
  obtain ⟨i, j, hij, hj, rfl, rfl, -⟩ := hc.exists_of_range hspan hr.1 hr.2.1 hr.2.2
  obtain ⟨path, hpath, -⟩ := hc.proveBlock_eq hij (by omega) hj
  exact ⟨_, hpath⟩

/-- A proof that was given is accepted with the path of any receipt of its header, also after it was
written and read. -/
theorem verify_of_proveBlock (hc : Consistent chain headers s) {span : Span}
    (hspan : s.tracker.span = some span) (hfits : ∀ h ∈ headers, Fits h) {num anchor : UInt32}
    {proof : BlockProof} (h : Prover.proveBlock s.store chain num anchor = .ok proof) :
    ∃ h root, headers[num.toNat - span.first.toNat]? = some h ∧ h.blockNum = num ∧
      proof.header = h ∧ Prover.anchorRoot s.store chain anchor = .ok root ∧
      ∀ (receipts : List Digest) (i : Nat) (hi : i < receipts.length),
        receipts.length ≤ 2 ^ 32 → Merkle.root receipts = h.transactionRoot →
        ∃ path, (Tree.ofLeaves receipts).proof i = .ok path ∧
          let p : CrossChainProof := ⟨chain, ⟨receipts[i], path, h⟩, proof⟩
          p.verify root .standard = .ok ⟨chain, receipts[i], num, h.id⟩ ∧
            CrossChainProof.decode p.encode = .ok p := by
  obtain ⟨hr, header, root, hget, rfl, hheader, hanchor, hroot, hlen, hfold⟩ :=
    hc.proveBlock_cases hspan h
  have hf := hfits header (List.mem_of_getElem? hget)
  refine ⟨header, root, hget, rfl, hheader, hroot, fun receipts i hi hcount htop => ?_⟩
  obtain ⟨path, hpath, hleads, hpathFits⟩ := receipt_leads hi hcount
  obtain ⟨_, blockPath, _⟩ := proof
  subst hheader hanchor
  refine ⟨path, hpath, CrossChainProof.verify_eq_ok.mpr ⟨⟨rfl, hr.2.1, htop ▸ hleads, ?_⟩, rfl⟩,
    CrossChainProof.decode_encode ⟨⟨hpathFits, hf⟩, hf, blockPath.fits_of_length_le hlen⟩⟩
  exact ⟨Nat.le_trans hlen (by decide), Nat.le_trans hlen (by decide), hfold⟩

end Consistent

/-- **Just the blocks from the first to the anchor are provable, and their proofs are accepted.**
After any steps that took headers, a block is provable if it stands from the first block to the
anchor, and the anchor no later than the head; any other request is refused as out of range. The
proof carries the header that was taken under that number. With the path of any receipt in a tree
whose root the header names, it is accepted against the recorded root of the anchor, for exactly
that receipt and block, and it arrives as it was sent. -/
theorem run_proves_range (chain : AccountName) (steps : List Step) {span : Span}
    (hspan : ((start chain).run steps).tracker.span = some span)
    (hfits : ∀ h ∈ (start chain).accepted steps, Fits h) (num anchor : UInt32) :
    let store := ((start chain).run steps).store
    ((∃ proof, Prover.proveBlock store chain num anchor = .ok proof) ↔
      span.first ≤ num ∧ num ≤ anchor ∧ anchor ≤ span.head) ∧
    (¬ (span.first ≤ num ∧ num ≤ anchor ∧ anchor ≤ span.head) →
      Prover.proveBlock store chain num anchor =
        .error (.outOfRange chain num span.first (min anchor span.head))) ∧
    ∀ proof, Prover.proveBlock store chain num anchor = .ok proof →
      ∃ h root, ((start chain).accepted steps)[num.toNat - span.first.toNat]? = some h ∧
        h.blockNum = num ∧ proof.header = h ∧
        Prover.anchorRoot store chain anchor = .ok root ∧
        ∀ (receipts : List Digest) (i : Nat) (hi : i < receipts.length),
          receipts.length ≤ 2 ^ 32 → Merkle.root receipts = h.transactionRoot →
          ∃ path, (Tree.ofLeaves receipts).proof i = .ok path ∧
            let p : CrossChainProof := ⟨chain, ⟨receipts[i], path, h⟩, proof⟩
            p.verify root .standard = .ok ⟨chain, receipts[i], num, h.id⟩ ∧
              CrossChainProof.decode p.encode = .ok p := by
  intro store
  have hc := run_start chain steps
  exact ⟨hc.exists_proveBlock_iff hspan, hc.proveBlock_outside hspan,
    fun proof h => hc.verify_of_proveBlock hspan hfits h⟩

/-- After two blocks the first is provable at the second, with the second of its receipts. -/
theorem run_proves_first_of_two :
    let receipts : List Digest := [.hash [1], .hash [2], .hash [3]]
    let first := plainHeader .zero (Merkle.root receipts)
    let second := plainHeader first.id .zero
    let s := (start ⟨1⟩).run [.update first, .update second]
    ∃ proof root path, Prover.proveBlock s.store ⟨1⟩ first.blockNum second.blockNum = .ok proof ∧
      Prover.anchorRoot s.store ⟨1⟩ second.blockNum = .ok root ∧
      (Tree.ofLeaves receipts).proof 1 = .ok path ∧
      CrossChainProof.verify ⟨⟨1⟩, ⟨.hash [2], path, first⟩, proof⟩ root .standard =
        .ok ⟨⟨1⟩, .hash [2], first.blockNum, first.id⟩ := by
  intro receipts first second s
  have hfirst : first.blockNum = 1 := by decide
  have hfollows : second.Follows first := plainHeader_follows (by rw [hfirst]; decide) .zero
  have haccepted := accepted_pair ⟨1⟩ (h := first) (by rw [hfirst]; decide) .zero
  have hspan : s.tracker.span = some ⟨first.blockNum, second.blockNum, second.id⟩ := by
    rw [(run_start ⟨1⟩ _).span_eq]
    exact congrArg spanOf haccepted
  have hfits : ∀ h ∈ (start ⟨1⟩).accepted [.update first, .update second], Fits h := by
    rw [haccepted]
    exact fits_plainHeaders _ _ _ _
  obtain ⟨hiff, -, hproofs⟩ := run_proves_range ⟨1⟩ [.update first, .update second] hspan hfits
    first.blockNum second.blockNum
  obtain ⟨proof, hproof⟩ := hiff.mpr ⟨UInt32.le_refl _, hfollows.blockNum_le, UInt32.le_refl _⟩
  obtain ⟨h, root, hget, -, -, hroot, hreceipts⟩ := hproofs proof hproof
  obtain rfl : first = h := by
    rw [haccepted, Nat.sub_self] at hget
    exact Option.some.inj hget
  obtain ⟨path, hpath, hverify, -⟩ := hreceipts receipts 1 (by decide) (by decide) rfl
  exact ⟨proof, root, path, hproof, hroot, hpath, hverify⟩

end Session

end LightClient
