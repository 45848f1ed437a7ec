import LightClient.Proofs.Evidence.Verify
import LightClient.Proofs.Relay.Session
import LightClient.Relay.Prover

/-!
What a prover gives out, whatever the store holds. Main statement: a proof is given out just where
the id recorded for the block leads to the anchor's root, and it is accepted just where the id of
the recorded header leads there too. The two are not compared, so a block that is recorded under
another id than its header's can have a proof that is refused.
-/

namespace LightClient

/-- A path of no more than the longest length is checked by where it leads. -/
theorem Merkle.Path.check_of_length_le {path : Merkle.Path} (h : path.length ≤ maxLength)
    (leaf root : Digest) : check leaf path root =
      if path.fold leaf = root then .ok () else .error (.mismatch (path.fold leaf) root) := by
  rw [check, if_neg (Nat.not_lt.mpr h)]

namespace BlockProof

/-- The standard limit allows every path that a check of the path allows. -/
theorem verify_standard {p : BlockProof} (h : p.path.length ≤ Merkle.Path.maxLength)
    (root : Digest) : p.verify root .standard =
      if p.path.fold p.header.id = root then .ok p.header.id
      else .error (.merkle (.mismatch (p.path.fold p.header.id) root)) := by
  have hlimit : ¬ p.path.length > Limits.standard.blockPath.toNat := Nat.not_lt.mpr h
  rw [verify, verifyPath, if_neg hlimit, Merkle.Path.check_of_length_le h]
  split
  · next => rfl
  · next => rfl

end BlockProof

namespace Prover

variable {σ : Type} [ChainStore σ] {store : σ} {chain : AccountName} {num anchor : UInt32}

/-- What a prover has read from a store, and the path it has cut, when all that is left to do is to
check the path. -/
structure Findings (store : σ) (chain : AccountName) (num anchor : UInt32) (snapshot : Snapshot)
    (ids : List Digest) (path : Merkle.Path) (record : BlockRecord) (root : Digest) : Prop where
  snapshot_eq : loadChain store chain = .ok (some snapshot)
  first_le : snapshot.first ≤ num
  num_le : num ≤ anchor
  anchor_le : anchor ≤ snapshot.head
  ids_eq : blockIds store chain snapshot.first anchor = .ok ids
  length_ids : ids.length = anchor.toNat - snapshot.first.toNat + 1
  path_eq : (Merkle.Tree.ofLeaves ids).proof (num.toNat - snapshot.first.toNat) = .ok path
  record_eq : getBlock store chain num = .ok (some record)
  root_eq : anchorRoot store chain anchor = .ok root

namespace Findings

variable {snapshot : Snapshot} {ids : List Digest} {path : Merkle.Path} {record : BlockRecord}
  {root : Digest}

/-- The path has an entry for each layer over the stored ids but the last. -/
theorem length_path (h : Findings store chain num anchor snapshot ids path record root) :
    path.length = Nat.clog 2 ids.length := by
  have hnum := UInt32.le_iff_toNat_le.mp h.num_le
  have hpath := h.path_eq
  rw [Merkle.Tree.proof_of_lt (by rw [h.length_ids]; omega)] at hpath
  obtain rfl := Except.ok.inj hpath
  exact Merkle.length_siblings ..

theorem length_path_le (h : Findings store chain num anchor snapshot ids path record root) :
    path.length ≤ 32 := by
  have hanchor := anchor.toNat_lt
  rw [h.length_path]
  refine Nat.clog_le_of_le_pow ?_
  rw [h.length_ids]
  omega

/-- A prover checks the path against the id recorded for the block. -/
theorem proveBlock_eq (h : Findings store chain num anchor snapshot ids path record root) :
    proveBlock store chain num anchor =
      if path.fold record.id = root then .ok ⟨record.header, path, anchor⟩
      else .error (.merkle (.mismatch (path.fold record.id) root)) := by
  have hrange : ¬ (num < snapshot.first ∨ anchor < num ∨ snapshot.head < anchor) := by
    simp only [not_or, UInt32.not_lt]
    exact ⟨h.first_le, h.num_le, h.anchor_le⟩
  have hids : ¬ ids.length ≠ anchor.toNat - snapshot.first.toNat + 1 :=
    not_not_intro h.length_ids
  have hcheck := Merkle.Path.check_of_length_le
    (Nat.le_trans h.length_path_le (by decide)) record.id root
  rw [proveBlock]
  simp only [h.snapshot_eq, h.ids_eq, h.path_eq, h.record_eq, h.root_eq, mapError_ok, bind,
    Except.bind, if_neg hrange, if_neg hids]
  rw [hcheck]
  by_cases hfold : path.fold record.id = root
  · simp only [if_pos hfold]
    rfl
  · simp only [if_neg hfold]
    rfl

end Findings

/-- What a prover has found when it gives out a proof. -/
theorem exists_findings {proof : BlockProof} (h : proveBlock store chain num anchor = .ok proof) :
    ∃ snapshot ids record root,
      Findings store chain num anchor snapshot ids proof.path record root ∧
        proof.path.fold record.id = root ∧ proof = ⟨record.header, proof.path, anchor⟩ := by
  rw [proveBlock, bind_eq_ok] at h
  obtain ⟨found, hfound, h⟩ := h
  rw [mapError_eq_ok] at hfound
  cases found with
  | none => cases h
  | some snapshot =>
    simp only at h
    split at h
    · next => cases h
    · next hrange =>
      simp only [not_or, UInt32.not_lt] at hrange
      obtain ⟨ids, hids, h⟩ := bind_eq_ok.mp h
      rw [mapError_eq_ok] at hids
      split at h
      · next => cases h
      · next hlen =>
        obtain ⟨path, hpath, h⟩ := bind_eq_ok.mp h
        obtain ⟨found, hrecord, h⟩ := bind_eq_ok.mp h
        rw [mapError_eq_ok] at hpath hrecord
        cases found with
        | none => cases h
        | some record =>
          obtain ⟨root, hroot, h⟩ := bind_eq_ok.mp h
          obtain ⟨_, hcheck, h⟩ := bind_eq_ok.mp h
          rw [mapError_eq_ok, Merkle.Path.check_eq_ok] at hcheck
          obtain rfl := Except.ok.inj h
          exact ⟨snapshot, ids, record, root, ⟨hfound, hrange.1, hrange.2.1, hrange.2.2, hids,
            Decidable.not_not.mp hlen, hpath, hrecord, hroot⟩, hcheck.2, rfl⟩

/-- **A given-out proof is accepted just where the recorded header has the recorded id's root.**
Whatever a store holds, the proof that a prover gives out for a block has the header recorded for
it, and leads from the id recorded for it to the root of the anchor. It is accepted against that
root if the id of the header leads there as well, as it does if the block is recorded under the id
of its header, and refused as leading elsewhere if not. Where the recorded id does not lead to the
root, the prover says so and gives out nothing. -/
theorem given_out_accepted_iff :
    (∀ proof, proveBlock store chain num anchor = .ok proof →
      ∃ record root, getBlock store chain num = .ok (some record) ∧
        anchorRoot store chain anchor = .ok root ∧ proof.header = record.header ∧
        proof.anchor = anchor ∧ proof.path.verifies record.id root = true ∧
        (proof.verify root .standard =
          if proof.path.fold record.header.id = root then .ok record.header.id
          else .error (.merkle (.mismatch (proof.path.fold record.header.id) root))) ∧
        (record.header.id = record.id → proof.verify root .standard = .ok record.id)) ∧
    ∀ snapshot ids path record root,
      Findings store chain num anchor snapshot ids path record root → path.fold record.id ≠ root →
      proveBlock store chain num anchor =
        .error (.merkle (.mismatch (path.fold record.id) root)) := by
  constructor
  · intro proof h
    obtain ⟨snapshot, ids, record, root, hfound, hfold, hproof⟩ := exists_findings h
    have hlen : proof.path.length ≤ Merkle.Path.maxLength :=
      Nat.le_trans hfound.length_path_le (by decide)
    have hheader : proof.header = record.header := by rw [hproof]
    have hverify := proof.verify_standard hlen root
    rw [hheader] at hverify
    refine ⟨record, root, hfound.record_eq, hfound.root_eq, hheader, by rw [hproof],
      Merkle.Path.verifies_iff.mpr ⟨hlen, hfold⟩, hverify, fun hid => ?_⟩
    rw [hverify, hid, if_pos hfold]
  · intro snapshot ids path record root hfound hne
    rw [hfound.proveBlock_eq, if_neg hne]

/-- A store with one block, recorded under some id and with some root. -/
def oneBlock (id root : Digest) (header : Header) : MemoryStore :=
  MemoryStore.empty.record ⟨⟨1⟩, 1, 1, id, []⟩ ⟨1, id, root, header⟩

theorem findings_oneBlock (id root : Digest) (header : Header) :
    Findings (oneBlock id root header) ⟨1⟩ 1 1 ⟨⟨1⟩, 1, 1, id, []⟩ [id] ⟨[]⟩
      ⟨1, id, root, header⟩ root where
  snapshot_eq := rfl
  first_le := UInt32.le_refl _
  num_le := UInt32.le_refl _
  anchor_le := UInt32.le_refl _
  ids_eq := rfl
  length_ids := rfl
  path_eq := by
    rw [Merkle.Tree.proof_of_lt Nat.one_pos, Merkle.Tree.layersFrom]
    rfl
  record_eq := rfl
  root_eq := rfl

theorem proveBlock_oneBlock (id : Digest) (header : Header) :
    proveBlock (oneBlock id id header) ⟨1⟩ 1 1 = .ok ⟨header, ⟨[]⟩, 1⟩ :=
  (findings_oneBlock id id header).proveBlock_eq.trans (if_pos rfl)

/-- The proof of a block that is recorded under its own id, and what is accepted of it; with another
root there is none. -/
theorem given_out_accepted_own_id :
    let header := Session.plainHeader .zero .zero
    (∃ proof, proveBlock (oneBlock header.id header.id header) ⟨1⟩ 1 1 = .ok proof ∧
      proof.verify header.id .standard = .ok header.id) ∧
    proveBlock (oneBlock header.id .zero header) ⟨1⟩ 1 1 =
      .error (.merkle (.mismatch header.id .zero)) := by
  intro header
  have hne : header.id ≠ .zero := by decide +kernel
  have hproof := proveBlock_oneBlock header.id header
  obtain ⟨record, root, hrecord, hroot, -, -, -, -, hverify⟩ := given_out_accepted_iff.1 _ hproof
  cases hrecord
  cases hroot
  refine ⟨⟨_, hproof, hverify rfl⟩, ?_⟩
  exact given_out_accepted_iff.2 _ _ _ _ _ (findings_oneBlock header.id .zero header) hne

/-- A block that is recorded under the zero id has a proof, and the proof is refused. -/
theorem given_out_and_refused :
    ¬ ∀ (store : MemoryStore) (chain : AccountName) (num anchor : UInt32) (proof : BlockProof)
      (root : Digest), proveBlock store chain num anchor = .ok proof →
      anchorRoot store chain anchor = .ok root →
      ∃ id, proof.verify root .standard = .ok id := by
  intro hall
  obtain ⟨id, hid⟩ := hall _ _ _ _ _ _
    (proveBlock_oneBlock .zero (Session.plainHeader .zero .zero)) rfl
  rw [BlockProof.verify_standard (Nat.zero_le _)] at hid
  have hne : (Session.plainHeader .zero .zero).id ≠ .zero := by decide +kernel
  exact nomatch (if_neg hne).symm.trans hid

end Prover

end LightClient
