import LightClient.Proofs.Relay.Anchors
import LightClient.Proofs.Relay.Tampering

/-!
Sessions over a store of texts and rows. Main statement: as long as the headers that are taken can
be packed, they cannot be told from sessions over a store of values. What the other modules prove of
those is proved here of sessions over texts and rows.
-/

namespace LightClient.Session

open Merkle (Accumulator CollisionFree Tree)
open Merkle.Accumulator (decodeHashed)

/-- The tracker of a chain over a store of texts and rows that holds nothing. -/
def startTable (chain : AccountName) : Session TableStore :=
  ⟨.start chain, .empty⟩

/-! ## A session beside another -/

/-- A session over texts and rows beside one over values: both have one tracker, and what is kept as
texts and rows is what is kept as values. -/
structure Mirrored (t : Session TableStore) (s : Session MemoryStore) : Prop where
  tracker_eq : t.tracker = s.tracker
  mirrors : Mirrors t.store s.store

namespace Mirrored

variable {t : Session TableStore} {s : Session MemoryStore}

/-- A step has one answer, and if the header that it takes can be packed, the sessions stay alike. -/
theorem step (hm : Mirrored t s) (x : Step) :
    (t.step x).1 = (s.step x).1 ∧
      ((∀ h ∈ s.taken x, Fits h) → Mirrored (t.step x).2 (s.step x).2) := by
  obtain ⟨tracker, table⟩ := t
  obtain rfl : tracker = s.tracker := hm.tracker_eq
  have hmirrors : Mirrors table s.store := hm.mirrors
  cases x with
  | update h =>
    cases hn : s.tracker.next h with
    | error e =>
      simp only [Session.step, Tracker.update, hn]
      exact ⟨trivial, fun _ => hm⟩
    | ok next =>
      have htaken : s.taken (.update h) = [h] := by
        simp only [taken, Session.step, Tracker.update, hn, appendBlock]
        rfl
      rw [htaken]
      simp only [Session.step, Tracker.update, hn, appendBlock]
      exact ⟨trivial, fun hfits => ⟨rfl, hmirrors.record _ (hfits h List.mem_cons_self)⟩⟩
  | refused h reason =>
    cases hn : s.tracker.next h with
    | error e =>
      simp only [Session.step, Tracker.update, hn]
      exact ⟨trivial, fun _ => hm⟩
    | ok next =>
      simp only [Session.step, Tracker.update, hn, appendBlock]
      exact ⟨trivial, fun _ => hm⟩
  | restart =>
    simp only [Session.step, (hmirrors.readsAlike s.tracker.chain).restore_eq]
    cases Tracker.restore s.store s.tracker.chain with
    | error e => exact ⟨rfl, fun _ => hm⟩
    | ok tracker => exact ⟨rfl, fun _ => ⟨rfl, hmirrors⟩⟩

theorem taken_eq (hm : Mirrored t s) (x : Step) : t.taken x = s.taken x := by
  rw [taken, taken, (hm.step x).1]

theorem fits_accepted_iff (hm : Mirrored t s) (steps : List Step) :
    (∀ h ∈ t.accepted steps, Fits h) ↔ ∀ h ∈ s.accepted steps, Fits h := by
  induction steps generalizing s t with
  | nil => exact Iff.rfl
  | cons x steps ih =>
    rw [accepted, accepted, hm.taken_eq, List.forall_mem_append, List.forall_mem_append]
    exact and_congr_right fun hfits => ih ((hm.step x).2 hfits)

/-- A run has the same answers, takes the same headers and keeps the sessions alike. -/
theorem run (hm : Mirrored t s) {steps : List Step} (hfits : ∀ h ∈ s.accepted steps, Fits h) :
    t.answers steps = s.answers steps ∧ t.accepted steps = s.accepted steps ∧
      Mirrored (t.run steps) (s.run steps) := by
  induction steps generalizing s t with
  | nil => exact ⟨rfl, rfl, hm⟩
  | cons x steps ih =>
    rw [accepted, List.forall_mem_append] at hfits
    obtain ⟨hanswer, hnext⟩ := hm.step x
    obtain ⟨hanswers, haccepted, hrun⟩ := ih (hnext hfits.1) hfits.2
    exact ⟨by rw [answers, answers, hanswer, hanswers],
      by rw [accepted, accepted, hm.taken_eq, haccepted], hrun⟩

end Mirrored

variable (chain : AccountName) (steps : List Step)

/-- **A session over texts and rows cannot be told from one over values.** From empty stores on, as
long as the headers that are taken can be packed, both answer every step alike, take the same headers
and have the same tracker, and one store holds as texts and rows what the other holds as values. -/
theorem table_run_mirrored (hfits : ∀ h ∈ (startTable chain).accepted steps, Fits h) :
    (startTable chain).answers steps = (start chain).answers steps ∧
      (startTable chain).accepted steps = (start chain).accepted steps ∧
      Mirrored ((startTable chain).run steps) ((start chain).run steps) := by
  have hm : Mirrored (startTable chain) (start chain) := ⟨rfl, .empty⟩
  exact hm.run ((hm.fits_accepted_iff steps).mp hfits)

/-- Two headers, one over the other, are taken over texts and rows too. -/
example :
    let first := plainHeader .zero .zero
    let second := plainHeader first.id .zero
    (startTable ⟨1⟩).accepted [.update first, .update second] = [first, second] := by
  decide +kernel

/-- A run over texts and rows stands beside a consistent session over values. -/
theorem exists_mirrored (hfits : ∀ h ∈ (startTable chain).accepted steps, Fits h) :
    ∃ s, Mirrored ((startTable chain).run steps) s ∧
      Consistent chain ((startTable chain).accepted steps) s := by
  obtain ⟨-, haccepted, hm⟩ := table_run_mirrored chain steps hfits
  exact ⟨_, hm, haccepted ▸ run_start chain steps⟩

/-! ## What carries over -/

/-- **Tracker and store stay consistent over texts and rows.** What the store holds is the texts and
rows of a consistent session with the same tracker; it restores the tracker as it is, so that a
restart is not seen later on; and a step that fails changes nothing. -/
theorem table_keeps_consistent (hfits : ∀ h ∈ (startTable chain).accepted steps, Fits h) :
    let t := (startTable chain).run steps
    (∃ values, Mirrors t.store values ∧
      Consistent chain ((startTable chain).accepted steps) ⟨t.tracker, values⟩) ∧
    Tracker.restore t.store chain = .ok t.tracker ∧
    (∀ later, (startTable chain).answers (steps ++ .restart :: later) =
        (startTable chain).answers steps ++ .ok t.tracker.root :: t.answers later ∧
      (startTable chain).run (steps ++ .restart :: later) =
        (startTable chain).run (steps ++ later)) ∧
    ∀ x e, (t.step x).1 = .error e → (t.step x).2 = t := by
  intro t
  obtain ⟨s, hm, hc⟩ := exists_mirrored chain steps hfits
  have hrestore : Tracker.restore t.store chain = .ok t.tracker := by
    rw [(hm.mirrors.readsAlike chain).restore_eq, hm.tracker_eq]
    exact hc.restore
  have hchain : t.tracker.chain = chain := by
    rw [hm.tracker_eq, hc.chain_eq]
  refine ⟨⟨s.store, hm.mirrors, ?_⟩, hrestore, ?_, fun x e => step_error⟩
  · rw [hm.tracker_eq]
    exact hc
  · apply restart_unseen
    apply step_restart_of_restore
    rwa [hchain]

variable {chain steps}

/-- **An accepted proof is about a header that was taken**, also where the root was recorded in a
row. -/
theorem table_proof_sound {headers : List Header}
    (hheaders : (startTable chain).accepted steps = headers) (hfits : ∀ h ∈ headers, Fits h)
    {k : Nat} (hk : k < headers.length) {root : Digest}
    (hroot : Prover.anchorRoot ((startTable chain).run steps).store chain headers[k].blockNum =
      .ok root)
    {p : CrossChainProof} (hp : Fits p) {limits : Limits} {v : Verified}
    (hv : p.verify root limits = .ok v)
    (hfree : CollisionFree Digest.tail (takenHashed (headers.take (k + 1)) ++ p.hashed)) :
    ∃ j h, j ≤ k ∧ headers[j]? = some h ∧ p.block.header = h ∧ p.transaction.header = h ∧
      v.blockId = h.id ∧ v.blockNum = h.blockNum ∧ v.chain = p.chain ∧
      v.receipt = p.transaction.receipt ∧
      p.transaction.path.fold v.receipt = h.transactionRoot := by
  subst hheaders
  obtain ⟨s, hm, hc⟩ := exists_mirrored chain steps hfits
  rw [(hm.mirrors.readsAlike chain).anchorRoot_eq, hc.anchorRoot_eq hk] at hroot
  obtain rfl := Except.ok.inj hroot
  obtain ⟨j, hj, hblock, htransaction⟩ := hc.exists_header_of_verify hfits hk hp hv hfree
  obtain ⟨haccepted, rfl⟩ := CrossChainProof.verify_eq_ok.mp hv
  refine ⟨j, _, hj, List.getElem?_eq_getElem (by omega), hblock, htransaction.trans hblock,
    congrArg Header.id hblock, congrArg Header.blockNum hblock, rfl, rfl, ?_⟩
  have hreceipt := haccepted.receipt.fold_eq
  rwa [htransaction, hblock] at hreceipt

/-- **Just the blocks from the first to the anchor are provable, and their proofs are accepted**,
also where ids and headers are read from rows. -/
theorem table_proves_range {span : Span}
    (hspan : ((startTable chain).run steps).tracker.span = some span)
    (hfits : ∀ h ∈ (startTable chain).accepted steps, Fits h) (num anchor : UInt32) :
    let store := ((startTable chain).run steps).store
    ((∃ proof, Prover.proveBlock store chain num anchor = .ok proof) ↔
      span.first ≤ num ∧ num ≤ anchor ∧ anchor ≤ span.head) ∧
    (¬ (span.first ≤ num ∧ num ≤ anchor ∧ anchor ≤ span.head) →
      Prover.proveBlock store chain num anchor =
        .error (.outOfRange chain num span.first (min anchor span.head))) ∧
    ∀ proof, Prover.proveBlock store chain num anchor = .ok proof →
      ∃ h root, ((startTable chain).accepted steps)[num.toNat - span.first.toNat]? = some h ∧
        h.blockNum = num ∧ proof.header = h ∧
        Prover.anchorRoot store chain anchor = .ok root ∧
        ∀ (receipts : List Digest) (i : Nat) (hi : i < receipts.length),
          receipts.length ≤ 2 ^ 32 → Merkle.root receipts = h.transactionRoot →
          ∃ path, (Tree.ofLeaves receipts).proof i = .ok path ∧
            let p : CrossChainProof := ⟨chain, ⟨receipts[i], path, h⟩, proof⟩
            p.verify root .standard = .ok ⟨chain, receipts[i], num, h.id⟩ ∧
              CrossChainProof.decode p.encode = .ok p := by
  intro store
  obtain ⟨s, hm, hc⟩ := exists_mirrored chain steps hfits
  have halike := hm.mirrors.readsAlike chain
  rw [hm.tracker_eq] at hspan
  rw [halike.proveBlock_eq, halike.anchorRoot_eq]
  exact ⟨hc.exists_proveBlock_iff hspan, hc.proveBlock_outside hspan,
    fun proof h => hc.verify_of_proveBlock hspan hfits h⟩

/-- **Anchors are separated**, also where their roots are recorded in rows. -/
theorem table_separates_anchors (hfits : ∀ h ∈ (startTable chain).accepted steps, Fits h)
    (hfree : CollisionFree Digest.tail (takenHashed ((startTable chain).accepted steps))) :
    let t := (startTable chain).run steps
    (∀ anchor anchor' r r', Prover.anchorRoot t.store chain anchor = .ok r →
      Prover.anchorRoot t.store chain anchor' = .ok r' → anchor ≠ anchor' → r ≠ r') ∧
    ∀ span, t.tracker.span = some span → ∀ num anchor, span.first ≤ num → num ≤ anchor →
      anchor ≤ span.head → ∃ proof r, Prover.proveBlock t.store chain num anchor = .ok proof ∧
        Prover.anchorRoot t.store chain anchor = .ok r ∧
        ∀ anchor' r', Prover.anchorRoot t.store chain anchor' = .ok r' → anchor' ≠ anchor →
          proof.verify r' .standard = .error (.merkle (.mismatch r r')) := by
  intro t
  obtain ⟨s, hm, hc⟩ := exists_mirrored chain steps hfits
  have halike := hm.mirrors.readsAlike chain
  simp only [halike.proveBlock_eq, halike.anchorRoot_eq, hm.tracker_eq, t]
  exact ⟨fun anchor anchor' r r' => hc.anchorRoot_ne hfits hfree,
    fun span hspan num anchor => hc.exists_proveBlock_refused hfits hfree hspan⟩

/-- **A tampered frontier cannot change the future**, also where it stands in a text: a restart
fails, or gives a tracker that answers and records the same from then on, as long as the headers that
are taken can be packed. -/
theorem table_tampered (hfits : ∀ h ∈ (startTable chain).accepted steps, Fits h)
    (htaken : (startTable chain).accepted steps ≠ []) :
    let t := (startTable chain).run steps
    ∃ snapshot, loadChain t.store chain = .ok (some snapshot) ∧
      Tracker.restore t.store chain = .ok t.tracker ∧
      ∀ bytes, CollisionFree Digest.asLeft
          (decodeHashed snapshot.frontier ++ decodeHashed bytes) →
        let store := t.store.putChain { snapshot with frontier := bytes }
        (∃ e, Tracker.restore store chain = .error e) ∨
        ∃ tracker, Tracker.restore store chain = .ok tracker ∧
          tracker.accumulator.leafCount = t.tracker.accumulator.leafCount ∧
          tracker.root = t.tracker.root ∧ tracker.span = t.tracker.span ∧
          ∀ later, (∀ h ∈ t.accepted later, Fits h) →
            (Session.mk tracker store).answers later = t.answers later ∧
            (Session.mk tracker store).accepted later = t.accepted later ∧
            ((Session.mk tracker store).run later).store.rowsOf chain =
              (t.run later).store.rowsOf chain := by
  intro t
  obtain ⟨s, hm, hc⟩ := exists_mirrored chain steps hfits
  have halike := hm.mirrors.readsAlike chain
  obtain ⟨snapshot, hload⟩ := hc.exists_snapshot htaken
  refine ⟨snapshot, halike.loadChain_eq.trans hload, ?_, fun bytes hfree => ?_⟩
  · rw [halike.restore_eq, hm.tracker_eq]
    exact hc.restore
  intro store
  have hput := hm.mirrors.putChain { snapshot with frontier := bytes }
  rw [(hput.readsAlike chain).restore_eq]
  cases hr : Tracker.restore (s.store.putChain { snapshot with frontier := bytes }) chain with
  | error e => exact .inl ⟨e, rfl⟩
  | ok tracker =>
    have hshadows := hc.shadows_of_restore hload hfree hr
    rw [hm.tracker_eq]
    refine .inr ⟨tracker, rfl, hshadows.alike.leafCount_eq.symm, hshadows.alike.root_eq.symm,
      hshadows.span_eq, fun later hlater => ?_⟩
    -- The session goes on beside one over values, and so does the one that was tampered with.
    have hfits' := (hm.fits_accepted_iff later).mp hlater
    obtain ⟨hanswers, haccepted, hshadow⟩ := hshadows.run hc later
    obtain ⟨hanswers', haccepted', hrun'⟩ := hm.run hfits'
    have hm' : Mirrored ⟨tracker, store⟩ ⟨tracker, s.store.putChain _⟩ := ⟨rfl, hput⟩
    obtain ⟨hanswers'', haccepted'', hrun''⟩ := hm'.run (haccepted ▸ hfits')
    refine ⟨?_, ?_, ?_⟩
    · rw [hanswers', hanswers'', hanswers]
    · rw [haccepted', haccepted'', haccepted]
    · rw [hrun'.mirrors.rowsOf_eq, hrun''.mirrors.rowsOf_eq, hshadow.blocksOf_eq]

end LightClient.Session
