import LightClient.Proofs.Merkle.Alike
import LightClient.Proofs.Relay.Session

/-!
Stores whose snapshot was tampered with. Main statement: whatever bytes are put in the place of the
frontier, a restart fails, or it gives a tracker that answers and records the same from then on, as
far as nothing collides that the checks of the two frontiers hash.
-/

namespace LightClient.Session

open Merkle (Accumulator CollisionFree)
open Merkle.Accumulator (decodeHashed)

/-- A snapshot and the record of its head restore a tracker with any frontier that is alike. -/
theorem restore_alike {store store' : MemoryStore} {chain : AccountName} {snapshot : Snapshot}
    {tracker : Tracker} {acc : Accumulator} (hr : Tracker.restore store chain = .ok tracker)
    (hs : store.chains.find? chain = some snapshot)
    (hs' : store'.chains.find? chain = some { snapshot with frontier := acc.encode })
    (hblocks : store'.blocksOf chain = store.blocksOf chain)
    (halike : tracker.accumulator.Alike acc) (hv : acc.validate = .ok ()) :
    Tracker.restore store' chain = .ok ⟨chain, acc, tracker.span⟩ := by
  obtain ⟨-, head, hfind, hfrom⟩ := (Tracker.restore_eq_ok hs).mp hr
  refine (Tracker.restore_eq_ok hs').mpr ⟨rfl, head, hblocks ▸ hfind, ?_⟩
  exact
    { decode_eq := Accumulator.decode_encode hv
      countFits := halike.leafCount_eq ▸ hfrom.countFits
      root_eq := hfrom.root_eq.trans halike.root_eq
      id_eq := hfrom.id_eq
      span_eq := hfrom.span_eq }

/-- A session of a chain that differs from another in its frontier only: the accumulators are alike,
the records are the same, and what is stored restores the tracker. -/
structure Shadows (chain : AccountName) (t s : Session MemoryStore) : Prop where
  chain_eq : t.tracker.chain = s.tracker.chain
  span_eq : t.tracker.span = s.tracker.span
  alike : s.tracker.accumulator.Alike t.tracker.accumulator
  blocksOf_eq : t.store.blocksOf chain = s.store.blocksOf chain
  restore_eq : Tracker.restore t.store chain = .ok t.tracker

variable {chain : AccountName} {headers : List Header} {s t : Session MemoryStore}

namespace Shadows

theorem accepts_eq (hs : Shadows chain t s) (h : Header) :
    t.tracker.accepts h = s.tracker.accepts h := by
  rw [Tracker.accepts, Tracker.accepts, hs.chain_eq, hs.span_eq]

theorem extendSpan_eq (hs : Shadows chain t s) (h : Header) :
    t.tracker.extendSpan h = s.tracker.extendSpan h := by
  rw [Tracker.extendSpan, Tracker.extendSpan, hs.span_eq]

/-- A header is refused by both for one reason, or can be taken by both. -/
theorem next_cases (hs : Shadows chain t s) (hc : Consistent chain headers s) (h : Header) :
    (∃ e, s.tracker.next h = .error e ∧ t.tracker.next h = .error e) ∨
    ∃ acc acc', s.tracker.next h = .ok (acc, s.tracker.extendSpan h) ∧
      t.tracker.next h = .ok (acc', s.tracker.extendSpan h) ∧ acc.Alike acc' ∧
      acc'.validate = .ok () := by
  have hp := hc.append_accumulator h
  obtain ⟨acc', hp', halike⟩ := hs.alike.append hp
  rw [Tracker.next, Tracker.next, hs.accepts_eq, hs.extendSpan_eq, hp, hp']
  cases s.tracker.accepts h with
  | error e => exact .inl ⟨e, rfl, rfl⟩
  | ok => exact .inr ⟨_, acc', rfl, rfl, halike, Merkle.Accumulator.validate_append hp'⟩

/-- The sessions stay alike when both have taken a header. -/
theorem take {acc acc' : Accumulator} {span : Span} {h : Header} (hs : Shadows chain t s)
    (hc : Consistent chain headers ⟨⟨s.tracker.chain, acc, some span⟩,
      s.store.record (Tracker.snapshot s.tracker.chain acc span)
        ⟨span.head, span.headId, acc.root, h⟩⟩)
    (halike : acc.Alike acc') (hv : acc'.validate = .ok ()) :
    Shadows chain
      ⟨⟨t.tracker.chain, acc', some span⟩,
        t.store.record (Tracker.snapshot t.tracker.chain acc' span)
          ⟨span.head, span.headId, acc'.root, h⟩⟩
      ⟨⟨s.tracker.chain, acc, some span⟩,
        s.store.record (Tracker.snapshot s.tracker.chain acc span)
          ⟨span.head, span.headId, acc.root, h⟩⟩ := by
  obtain rfl : s.tracker.chain = chain := hc.chain_eq
  obtain ⟨⟨chain, _, _⟩, store⟩ := t
  obtain rfl : chain = s.tracker.chain := hs.chain_eq
  have hblocks : (store.record (Tracker.snapshot s.tracker.chain acc' span)
        ⟨span.head, span.headId, acc'.root, h⟩).blocksOf s.tracker.chain =
      (s.store.record (Tracker.snapshot s.tracker.chain acc span)
        ⟨span.head, span.headId, acc.root, h⟩).blocksOf s.tracker.chain := by
    rw [MemoryStore.blocksOf_record (Tracker.chain_snapshot ..),
      MemoryStore.blocksOf_record (Tracker.chain_snapshot ..), hs.blocksOf_eq, halike.root_eq]
  exact ⟨rfl, rfl, halike, hblocks, restore_alike hc.restore (Table.find?_insert ..)
    (Table.find?_insert ..) hblocks halike hv⟩

/-- A step has one answer, and the sessions stay alike. -/
theorem step (hs : Shadows chain t s) (hc : Consistent chain headers s) (x : Step) :
    (t.step x).1 = (s.step x).1 ∧ Shadows chain (t.step x).2 (s.step x).2 := by
  cases x with
  | update h =>
    have hnext := hc.step (.update h)
    rcases hs.next_cases hc h with ⟨e, he, he'⟩ | ⟨acc, acc', hn, hn', halike, hv⟩
    · simp only [Session.step, Tracker.update, he, he']
      exact ⟨trivial, hs⟩
    · simp only [Session.step, Tracker.update, hn, hn', appendBlock] at hnext ⊢
      exact ⟨congrArg _ halike.root_eq.symm, hs.take hnext halike hv⟩
  | refused h reason =>
    rcases hs.next_cases hc h with ⟨e, he, he'⟩ | ⟨acc, acc', hn, hn', -, -⟩
    · simp only [Session.step, Tracker.update, he, he']
      exact ⟨trivial, hs⟩
    · simp only [Session.step, Tracker.update, hn, hn', appendBlock]
      exact ⟨trivial, hs⟩
  | restart =>
    simp only [Session.step, hs.chain_eq, hc.chain_eq, hc.restore, hs.restore_eq]
    exact ⟨congrArg _ hs.alike.root_eq.symm, hs⟩

/-- A run has the same answers, takes the same headers and keeps the sessions alike. -/
theorem run (hs : Shadows chain t s) (hc : Consistent chain headers s) (steps : List Step) :
    t.answers steps = s.answers steps ∧ t.accepted steps = s.accepted steps ∧
      Shadows chain (t.run steps) (s.run steps) := by
  induction steps generalizing headers s t with
  | nil => exact ⟨rfl, rfl, hs⟩
  | cons x steps ih =>
    obtain ⟨hanswer, hnext⟩ := hs.step hc x
    obtain ⟨hanswers, haccepted, hrun⟩ := ih hnext (hc.step x)
    have htaken : t.taken x = s.taken x := by rw [taken, taken, hanswer]
    exact ⟨by rw [answers, answers, hanswer, hanswers],
      by rw [accepted, accepted, htaken, haccepted], hrun⟩

end Shadows

/-- Only one number of leaves fits a first and a last block. -/
theorem leafCount_eq_of_countFits {first head : UInt32} {leaves leaves' : UInt64}
    (h : Tracker.countFits first head leaves = true)
    (h' : Tracker.countFits first head leaves' = true) : leaves = leaves' := by
  simp only [Tracker.countFits, Bool.and_eq_true, decide_eq_true_eq] at h h'
  exact UInt64.toNat_inj.mp (h.2.trans h'.2.symm)

/-- A tracker that is restored with other bytes in the place of the frontier is alike. -/
theorem Consistent.shadows_of_restore {snapshot : Snapshot} {bytes : List UInt8}
    {tracker : Tracker} (hc : Consistent chain headers s)
    (hs : loadChain s.store chain = .ok (some snapshot))
    (hfree : CollisionFree Digest.asLeft (decodeHashed snapshot.frontier ++ decodeHashed bytes))
    (hr : Tracker.restore (s.store.putChain { snapshot with frontier := bytes }) chain =
      .ok tracker) :
    Shadows chain ⟨tracker, s.store.putChain { snapshot with frontier := bytes }⟩ s := by
  have hfind : s.store.chains.find? chain = some snapshot := Except.ok.inj hs
  obtain ⟨span, -, rfl⟩ := Option.map_eq_some_iff.mp (hc.snapshot_eq.symm.trans hfind)
  -- Both are restored from one snapshot, but for the frontier, and from one head record.
  obtain ⟨-, head, hhead, hfrom⟩ := (Tracker.restore_eq_ok hfind).mp hc.restore
  obtain ⟨hchain, head', hhead', hfrom'⟩ :=
    (Tracker.restore_eq_ok (Table.find?_insert ..)).mp hr
  obtain rfl : head = head' := Option.some.inj (hhead.symm.trans hhead')
  have halike : s.tracker.accumulator.Alike tracker.accumulator :=
    Merkle.Accumulator.alike_of_decode hfrom.decode_eq hfrom'.decode_eq
      (leafCount_eq_of_countFits hfrom.countFits hfrom'.countFits)
      (hfrom.root_eq.symm.trans hfrom'.root_eq) hfree
  exact ⟨hchain.trans hc.chain_eq.symm, hfrom'.span_eq.trans hfrom.span_eq.symm, halike, rfl, hr⟩

/-- A session that has taken headers has stored a snapshot. -/
theorem Consistent.exists_snapshot (hc : Consistent chain headers s) (h0 : headers ≠ []) :
    ∃ snapshot, loadChain s.store chain = .ok (some snapshot) := by
  have hsnapshot := hc.snapshot_eq
  rw [hc.span_eq, spanOf_eq (List.length_pos_iff.mpr h0)] at hsnapshot
  exact ⟨_, congrArg Except.ok hsnapshot⟩

/-- **A tampered frontier cannot change the future.** After any steps that took a header, let any
bytes be put in the place of the stored frontier. Then a restart fails, or it gives a tracker with
the same number of leaves, root, and first and last block; and from then on both answer every step
alike, take the same headers and record the same blocks with the same roots. -/
theorem tampered_frontier (chain : AccountName) (steps : List Step)
    (htaken : (start chain).accepted steps ≠ []) :
    let s := (start chain).run steps
    ∃ snapshot, loadChain s.store chain = .ok (some snapshot) ∧
      Tracker.restore s.store chain = .ok s.tracker ∧
      ∀ bytes, CollisionFree Digest.asLeft
          (decodeHashed snapshot.frontier ++ decodeHashed bytes) →
        let store := s.store.putChain { snapshot with frontier := bytes }
        (∃ e, Tracker.restore store chain = .error e) ∨
        ∃ tracker, Tracker.restore store chain = .ok tracker ∧
          tracker.accumulator.leafCount = s.tracker.accumulator.leafCount ∧
          tracker.root = s.tracker.root ∧ tracker.span = s.tracker.span ∧
          ∀ later, (Session.mk tracker store).answers later = s.answers later ∧
            (Session.mk tracker store).accepted later = s.accepted later ∧
            ((Session.mk tracker store).run later).store.blocksOf chain =
              (s.run later).store.blocksOf chain := by
  intro s
  have hc := run_start chain steps
  obtain ⟨snapshot, hload⟩ := hc.exists_snapshot htaken
  refine ⟨snapshot, hload, hc.restore, fun bytes hfree => ?_⟩
  intro store
  cases hr : Tracker.restore store chain with
  | error e => exact .inl ⟨e, rfl⟩
  | ok tracker =>
    have hshadows := hc.shadows_of_restore hload hfree hr
    refine .inr ⟨tracker, rfl, hshadows.alike.leafCount_eq.symm, hshadows.alike.root_eq.symm,
      hshadows.span_eq, fun later => ?_⟩
    obtain ⟨hanswers, haccepted, hrun⟩ := hshadows.run hc later
    exact ⟨hanswers, haccepted, hrun.blocksOf_eq⟩

/-- Bytes of another accumulator that is alike and passes the check do restore a tracker. -/
theorem Consistent.restore_putChain {snapshot : Snapshot} {acc : Accumulator}
    (hc : Consistent chain headers s) (hs : loadChain s.store chain = .ok (some snapshot))
    (halike : s.tracker.accumulator.Alike acc) (hv : acc.validate = .ok ()) :
    snapshot.frontier = s.tracker.accumulator.encode ∧
      Tracker.restore (s.store.putChain { snapshot with frontier := acc.encode }) chain =
        .ok ⟨chain, acc, s.tracker.span⟩ := by
  have hfind : s.store.chains.find? chain = some snapshot := Except.ok.inj hs
  obtain ⟨span, -, rfl⟩ := Option.map_eq_some_iff.mp (hc.snapshot_eq.symm.trans hfind)
  exact ⟨rfl, restore_alike hc.restore hfind (Table.find?_insert ..) rfl halike hv⟩

/-- After three blocks the side of the last one is marked in the stored frontier. -/
theorem tampered_frontier_three :
    let first := plainHeader .zero .zero
    let second := plainHeader first.id .zero
    let third := plainHeader second.id .zero
    let s := (start ⟨1⟩).run [.update first, .update second, .update third]
    (start ⟨1⟩).accepted [.update first, .update second, .update third] ≠ [] ∧
    ∃ snapshot bytes tracker, loadChain s.store ⟨1⟩ = .ok (some snapshot) ∧
      CollisionFree Digest.asLeft (decodeHashed snapshot.frontier ++ decodeHashed bytes) ∧
      Tracker.restore (s.store.putChain { snapshot with frontier := bytes }) ⟨1⟩ = .ok tracker ∧
      tracker.accumulator ≠ s.tracker.accumulator ∧ tracker.root = s.tracker.root ∧
      ∀ later, (Session.mk tracker
        (s.store.putChain { snapshot with frontier := bytes })).answers later =
          s.answers later := by
  intro first second third s
  have hfirst : first.blockNum = 1 := by decide
  have hsecond : second.Follows first := plainHeader_follows (by rw [hfirst]; decide) .zero
  have hthird : third.Follows second :=
    plainHeader_follows (by rw [hsecond.1, hfirst]; decide) .zero
  have hfollows : ([] ++ [first, second, third]).IsChain fun last (h : Header) =>
      h.Follows last := by
    simp [hsecond, hthird]
  have haccepted : (start ⟨1⟩).accepted [.update first, .update second, .update third] =
      [first, second, third] :=
    (consistent_start ⟨1⟩).accepted_updates hfollows
  have htaken : (start ⟨1⟩).accepted [.update first, .update second, .update third] ≠ [] := by
    rw [haccepted]
    exact List.cons_ne_nil _ _
  refine ⟨htaken, ?_⟩
  have hleft : third.id.isLeft = true := by decide +kernel
  have hnodup : ([Digest.joined third.id third.id,
      Digest.joined (first.id.pair second.id) (third.id.pair third.id)].map
        fun s => (Digest.hash s).asLeft).Nodup := by
    decide +kernel
  have hc : Consistent ⟨1⟩ [first, second, third] s := haccepted ▸ run_start ⟨1⟩ _
  obtain ⟨snapshot, hload, -, htamper⟩ := tampered_frontier ⟨1⟩ _ htaken
  have hacc : s.tracker.accumulator =
      ⟨[third.id, first.id.pair second.id] ++
        [(first.id.pair second.id).pair (third.id.pair third.id)], 3⟩ :=
    hc.accumulator_holding.trans (Accumulator.holding_three ..)
  have hvalid : s.tracker.accumulator.validate = .ok () := by
    rw [hc.accumulator_holding]
    exact Accumulator.validate_holding hc.length_ids_le
  have hside : [third.id, first.id.pair second.id].map Digest.asLeft =
      [third.id.asRight, first.id.pair second.id].map Digest.asLeft := by
    simp
  obtain ⟨halike, hmarked⟩ := Accumulator.alike_of_below (hacc ▸ hvalid) hside
  rw [← hacc] at halike
  obtain ⟨hfrontier, hrestored⟩ := hc.restore_putChain hload halike hmarked
  have hfree : CollisionFree Digest.asLeft
      (decodeHashed snapshot.frontier ++ decodeHashed (Accumulator.encode
        ⟨[third.id.asRight, first.id.pair second.id] ++
          [(first.id.pair second.id).pair (third.id.pair third.id)], 3⟩)) := by
    rw [hfrontier, Accumulator.decodeHashed_eq (Accumulator.decode_encode hvalid),
      Accumulator.decodeHashed_eq (Accumulator.decode_encode hmarked), hacc]
    exact Accumulator.collisionFree_three hnodup
  refine ⟨snapshot, _, _, hload, hfree, hrestored, ?_, ?_⟩
  · rw [hacc]
    intro heq
    have hhead : third.id.asRight = third.id := (List.cons.inj (Accumulator.mk.inj heq).1).1
    rw [← hhead, Digest.isLeft_asRight] at hleft
    cases hleft
  · rcases htamper _ hfree with ⟨e, he⟩ | ⟨tracker, hr, -, hroot, -, hlater⟩
    · cases he.symm.trans hrestored
    · obtain rfl := Except.ok.inj (hrestored.symm.trans hr)
      exact ⟨hroot, fun later => (hlater later).1⟩

end LightClient.Session
