import LightClient.Proofs.Relay.Restored
import LightClient.Proofs.Relay.Session

/-!
Which headers a tracker takes. Main statement: after any updates and restarts the header that names
the last id as its parent is taken, and no other, up to the greatest block number.
-/

namespace LightClient

open ShelvedStore DurableStore

/-- What updates and restarts lead to, from a store in which the chain was never tracked: the
headers that were taken, the tracker, and the store. Blocks of other chains may be recorded in
between. -/
inductive Tracked {σ : Type} [ChainStore σ] (chain : AccountName) :
    List Header → Tracker → σ → Prop
  | start {store : σ} (hs : loadChain store chain = .ok none) :
    Tracked chain [] (.start chain) store
  | taken {headers t h root} {store : σ} (ht : Tracked chain headers t store)
    (hu : (t.update store h).result = .ok root) :
    Tracked chain (headers ++ [h]) (t.update store h).tracker (t.update store h).store
  | refused {headers t h e} {store : σ} (ht : Tracked chain headers t store)
    (hu : (t.update store h).result = .error e) :
    Tracked chain headers (t.update store h).tracker (t.update store h).store
  | restart {headers t t'} {store : σ} (ht : Tracked chain headers t store)
    (hr : Tracker.restore store chain = .ok t') : Tracked chain headers t' store
  | other {headers t snapshot block} {store : σ} (ht : Tracked chain headers t store)
    (hne : chain ≠ snapshot.chain) : Tracked chain headers t (appendBlock store snapshot block).2

/-! ## The next header -/

namespace Tracker

variable {t : Tracker} {span : Span} {h : Header}

/-- The number after another, where numbers do not start again. -/
theorem toNat_succ_eq_iff {n m : UInt32} :
    n.toNat + 1 = m.toNat ↔ m = n + 1 ∧ n.toNat ≠ 2 ^ 32 - 1 := by
  have hn := n.toNat_lt
  have hm := m.toNat_lt
  rw [← UInt32.toNat_inj, UInt32.toNat_add, UInt32.toNat_one]
  omega

theorem accepts_eq_outOfOrder (hspan : t.span = some span)
    (hnum : h.blockNum ≠ span.head + 1 ∨ span.head.toNat = 2 ^ 32 - 1) :
    t.accepts h = .error (.outOfOrder t.chain (span.head + 1) h.blockNum) := by
  rw [accepts, hspan]
  refine if_pos fun heq => ?_
  obtain ⟨hnext, hlast⟩ := toNat_succ_eq_iff.mp heq
  exact hnum.elim (· hnext) hlast

theorem accepts_eq_previousMismatch (hspan : t.span = some span)
    (hnum : h.blockNum = span.head + 1) (hlast : span.head.toNat ≠ 2 ^ 32 - 1)
    (hprevious : h.previous ≠ span.headId) :
    t.accepts h = .error (.previousMismatch t.chain h.blockNum span.headId h.previous) := by
  have hnext := toNat_succ_eq_iff.mpr ⟨hnum, hlast⟩
  rw [accepts, hspan]
  simp only [hnext, ne_eq, not_true_eq_false, if_false, if_pos hprevious]

/-- A header over the head has the next number, where the head's number can be read off its id. -/
theorem accepts_iff_previous (hspan : t.span = some span)
    (hnumber : span.headId.number = span.head) :
    t.accepts h = .ok () ↔ h.previous = span.headId ∧ span.head.toNat < 2 ^ 32 - 1 := by
  have hlt := span.head.toNat_lt
  have hall : (∀ span' ∈ some span, h.blockNum.toNat = span'.head.toNat + 1 ∧
      h.previous = span'.headId) ↔
      span.head.toNat + 1 = h.blockNum.toNat ∧ h.previous = span.headId := by
    simp only [Option.mem_some_iff, forall_eq', eq_comm]
  rw [accepts_eq_ok, hspan, hall, toNat_succ_eq_iff]
  constructor
  · rintro ⟨⟨-, hlast⟩, hprevious⟩
    exact ⟨hprevious, by omega⟩
  · rintro ⟨hprevious, hlast⟩
    refine ⟨⟨?_, by omega⟩, hprevious⟩
    rw [Header.blockNum, hprevious, hnumber]

end Tracker

namespace Tracked

variable {σ : Type} [ChainStore σ] {chain : AccountName} {headers : List Header} {t : Tracker}
  {store : σ} {h : Header}

/-- **The invariant of tracking**: the tracker stands at the last of the headers that were taken,
each of these follows the one before, and the snapshot that is stored is that of the tracker. -/
structure Standing (chain : AccountName) (headers : List Header) (t : Tracker) (store : σ) :
    Prop where
  chain_eq : t.chain = chain
  counted : t.Counted
  span_eq : t.span = Session.spanOf headers
  follows : headers.IsChain fun last h => h.Follows last
  loadChain_eq : loadChain store chain =
    .ok (t.span.map (Tracker.snapshot chain t.accumulator))

namespace Standing

/-- The number of the head can be read off its id. -/
theorem number_headId (hs : Standing chain headers t store) {span : Span}
    (hspan : t.span = some span) : span.headId.number = span.head := by
  have hpos : 0 < headers.length := by
    refine List.length_pos_iff.mpr fun hnil => ?_
    rw [hs.span_eq, hnil] at hspan
    exact nomatch hspan
  rw [hs.span_eq, Session.spanOf_eq hpos] at hspan
  obtain rfl := Option.some.inj hspan
  exact Header.number_id _

/-- A restart changes nothing. -/
theorem eq_of_restore (hs : Standing chain headers t store) {t' : Tracker}
    (hr : Tracker.restore store chain = .ok t') : t' = t := by
  have hload := hs.loadChain_eq
  cases hspan : t.span with
  | none =>
    rw [hspan] at hload
    obtain rfl := Except.ok.inj ((Tracker.restore_of_none hload).symm.trans hr)
    have hacc := hs.counted.accumulator_eq hspan
    obtain ⟨_, _, _⟩ := t
    obtain rfl := hs.chain_eq
    simp only at hspan hacc
    rw [hspan, hacc]
    rfl
  | some span =>
    rw [hspan] at hload
    obtain ⟨hchain, head, -, hfrom⟩ := (Tracker.restore_of_some hload).mp hr
    have hdecode := Merkle.Accumulator.decode_encode hs.counted.validate_eq
    have hacc := Except.ok.inj (hfrom.decode_eq.symm.trans hdecode)
    have hsome := hfrom.span_eq.trans hspan.symm
    obtain ⟨_, _, _⟩ := t
    obtain ⟨_, _, _⟩ := t'
    exact Tracker.mk.injEq .. ▸ ⟨hchain.trans hs.chain_eq.symm, hacc, hsome⟩

end Standing

variable [ShelvedStore σ]

/-- Taking a header keeps the invariant. -/
theorem Standing.take [DurableStore σ] (hs : Standing chain headers t store) {root : Digest}
    (hu : (t.update store h).result = .ok root) :
    Standing chain (headers ++ [h]) (t.update store h).tracker (t.update store h).store := by
  obtain ⟨acc, ha, hp, heq⟩ := hs.counted.update_ok_cases hu
  obtain rfl := hs.chain_eq
  rw [heq]
  constructor
  case chain_eq => rfl
  case counted => exact hs.counted.take ha hp
  case span_eq => exact (Session.spanOf_concat hs.span_eq h).symm
  case follows =>
    exact Header.follows_concat hs.follows ((Session.accepts_iff_of_span hs.span_eq).mp ha)
  case loadChain_eq => exact loadChain_recorded ..

/-- Whatever happens keeps the invariant. -/
theorem standing [DurableStore σ] (ht : Tracked chain headers t store) :
    Standing chain headers t store := by
  induction ht with
  | start hs => exact ⟨rfl, Tracker.counted_start chain, rfl, .nil, hs⟩
  | taken _ hu ih => exact ih.take hu
  | @refused headers t h e store _ hu ih =>
    rcases ih.counted.update_cases store h with ⟨e, -, heq⟩ | ⟨acc, -, -, heq⟩
    · rwa [heq]
    · rw [heq] at hu
      exact nomatch hu
  | restart _ hr ih => exact ih.eq_of_restore hr ▸ ih
  | @other headers t snapshot block store _ hne ih =>
    have hload : loadChain (appendBlock store snapshot block).2 chain = loadChain store chain :=
      loadChain_congr (shelf_appendBlock_ne store block hne)
    exact { ih with loadChain_eq := hload.trans ih.loadChain_eq }

/-- **Just the next block is taken.** After any updates and restarts, a tracker without a block
takes any header. Behind a head it takes the headers that name the head's id as their parent, as
long as there is a next number, since the number of the head can be read off that id. Any other
header is out of order, or has the right number and another parent. The header that is taken becomes
the head, so that each that was taken has the number after that of the one before; and the
accumulator never refuses an id. -/
theorem update_takes_next [DurableStore σ] (ht : Tracked chain headers t store) (h : Header) :
    let outcome := t.update store h
    (t.span = none → ∃ root, outcome.result = .ok root) ∧
    (∀ span, t.span = some span →
      span.headId.number = span.head ∧
      ((∃ root, outcome.result = .ok root) ↔
        h.previous = span.headId ∧ span.head.toNat < 2 ^ 32 - 1) ∧
      (h.blockNum ≠ span.head + 1 ∨ span.head.toNat = 2 ^ 32 - 1 →
        outcome.result = .error (.outOfOrder chain (span.head + 1) h.blockNum)) ∧
      (h.blockNum = span.head + 1 → span.head.toNat ≠ 2 ^ 32 - 1 → h.previous ≠ span.headId →
        outcome.result =
          .error (.previousMismatch chain h.blockNum span.headId h.previous))) ∧
    (∀ root, outcome.result = .ok root →
      outcome.tracker.span.map (fun span => (span.head, span.headId)) =
        some (h.blockNum, h.id)) ∧
    (∀ i (hi : i + 1 < headers.length),
      headers[i + 1].blockNum.toNat = headers[i].blockNum.toNat + 1) ∧
    ∀ e, outcome.result ≠ .error (.merkle e) := by
  intro outcome
  have hs := ht.standing
  have hc := hs.counted
  obtain rfl := hs.chain_eq
  refine ⟨fun hnone => ?_, fun span hspan => ⟨hs.number_headId hspan, ?_, fun hnum => ?_,
    fun hnum hlast hprevious => ?_⟩, fun root hu => ?_, fun i hi => ?_, fun e he => ?_⟩
  · rw [hc.update_ok_iff, Tracker.accepts_eq_ok, hnone]
    exact fun _ hmem => nomatch hmem
  · rw [hc.update_ok_iff, Tracker.accepts_iff_previous hspan (hs.number_headId hspan)]
  · exact (hc.update_error_iff store).mpr (Tracker.accepts_eq_outOfOrder hspan hnum)
  · exact (hc.update_error_iff store).mpr
      (Tracker.accepts_eq_previousMismatch hspan hnum hlast hprevious)
  · obtain ⟨acc, -, -, heq⟩ := hc.update_ok_cases hu
    rw [show outcome = _ from heq]
    rfl
  · exact (List.isChain_iff_getElem.mp hs.follows i hi).1
  · have ha := (hc.update_error_iff store).mp he
    rw [Tracker.accepts] at ha
    split at ha
    · cases ha
    · split at ha
      · cases ha
      · split at ha <;> cases ha

/-- Over a block of the greatest number there is no next one, not even after a restart. -/
theorem update_takes_next_at_greatest :
    let last := Session.plainHeader (.withNumber 0xfffffffe .zero) .zero
    let beyond := Session.plainHeader last.id .zero
    let outcome := (Tracker.start ⟨1⟩).update TableStore.empty last
    (∃ root, outcome.result = .ok root) ∧
    ∃ t span, Tracker.restore outcome.store ⟨1⟩ = .ok t ∧ Tracked ⟨1⟩ [last] t outcome.store ∧
      t.span = some span ∧ span.head = 0xffffffff ∧ beyond.previous = span.headId ∧
      (t.update outcome.store beyond).result = .error (.outOfOrder ⟨1⟩ 0 0) := by
  intro last beyond outcome
  have hlast : last.blockNum = 0xffffffff := by
    change Digest.number (.withNumber 0xfffffffe .zero) + 1 = _
    rw [Digest.number_withNumber]
    rfl
  have hover : beyond.blockNum = 0 := by
    change last.id.number + 1 = _
    rw [Header.number_id, hlast]
    rfl
  have hempty : loadChain TableStore.empty ⟨1⟩ = .ok none := rfl
  obtain ⟨htakes, -, hhead, -⟩ := (Tracked.start hempty).update_takes_next last
  obtain ⟨root, hu⟩ := htakes rfl
  have hr := Tracker.restore_update (Tracker.restore_of_none hempty)
    (Session.fits_plainHeader _ _) hu
  have ht : Tracked ⟨1⟩ [last] outcome.tracker outcome.store :=
    .restart (.taken (.start hempty) hu) hr
  obtain ⟨span, hspan, heq⟩ := Option.map_eq_some_iff.mp (hhead root hu)
  obtain ⟨hnum, hid⟩ := Prod.mk.inj heq
  have hgreatest : span.head = 0xffffffff := hnum.trans hlast
  obtain ⟨-, -, hout, -⟩ := (ht.update_takes_next beyond).2.1 span hspan
  have hresult := hout (.inr (by rw [hgreatest]; rfl))
  rw [hgreatest, hover] at hresult
  exact ⟨⟨root, hu⟩, _, span, hr, ht, hspan, hgreatest, hid.symm, hresult⟩

end Tracked

end LightClient
