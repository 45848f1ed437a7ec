import LightClient.Proofs.Except
import LightClient.Proofs.Relay.Table
import LightClient.Relay.FaultyStore
import LightClient.Relay.MemoryStore
import LightClient.Relay.Tracker
import Mathlib.Data.List.Chain

/-!
One update of a tracker: which headers it takes, and that it leaves tracker and store as they are
where the store refuses the block. What a restart gives back.
-/

namespace LightClient

open Merkle (Accumulator)

/-- The header continues the chain whose last header is the other. -/
def Header.Follows (h last : Header) : Prop :=
  h.blockNum.toNat = last.blockNum.toNat + 1 ∧ h.previous = last.id

theorem Header.Follows.blockNum_le {h last : Header} (hf : h.Follows last) :
    last.blockNum ≤ h.blockNum := by
  rw [UInt32.le_iff_toNat_le, hf.1]
  exact Nat.le_succ _

/-- A header that follows the last one is put behind it. -/
theorem Header.follows_concat {headers : List Header} {h : Header}
    (hf : headers.IsChain fun last h => h.Follows last)
    (hnext : ∀ last ∈ headers.getLast?, h.Follows last) :
    (headers ++ [h]).IsChain fun last h => h.Follows last := by
  refine hf.append (List.isChain_singleton h) fun last hlast y hy => ?_
  obtain rfl := Option.some.inj hy
  exact hnext last hlast

namespace Tracker

variable {t : Tracker} {h : Header}

@[simp] theorem chain_snapshot (chain : AccountName) (accumulator : Accumulator) (span : Span) :
    (snapshot chain accumulator span).chain = chain := rfl

/-- A header is accepted first of all, or if it continues the chain at its head. -/
theorem accepts_eq_ok : t.accepts h = .ok () ↔
    ∀ span ∈ t.span, h.blockNum.toNat = span.head.toNat + 1 ∧ h.previous = span.headId := by
  rw [accepts]
  split
  · next hspan => simp [hspan]
  · next span hspan =>
    rw [hspan]
    split
    · next hnum => simp [Ne.symm hnum]
    · next hnum =>
      split
      · next hprevious => simp [hprevious]
      · next hprevious => simp [(Decidable.not_not.mp hnum).symm, Decidable.not_not.mp hprevious]

theorem next_cases {accumulator : Accumulator} {span : Span}
    (hn : t.next h = .ok (accumulator, span)) :
    t.accepts h = .ok () ∧ t.accumulator.append h.id = .ok accumulator ∧
      span = t.extendSpan h := by
  rw [next] at hn
  cases ha : t.accepts h with
  | error e => rw [ha] at hn; exact nomatch hn
  | ok =>
    cases hp : t.accumulator.append h.id with
    | error e => rw [ha, hp] at hn; exact nomatch hn
    | ok accumulator' =>
      rw [ha, hp] at hn
      obtain ⟨rfl, rfl⟩ := Prod.mk.inj (Except.ok.inj hn)
      exact ⟨rfl, rfl, rfl⟩

/-- An update whose block the store refuses leaves everything as it is. -/
theorem update_refused {σ : Type} [ChainStore σ] (t : Tracker) (store : σ) (reason : String)
    (h : Header) :
    ∃ e refusal, t.update (FaultyStore.mk store (some reason)) h =
      ⟨.error e, t, ⟨store, refusal⟩⟩ := by
  rw [update]
  cases t.next h with
  | error e => exact ⟨e, some reason, rfl⟩
  | ok next => exact ⟨.store (.refused reason), none, rfl⟩

/-- The tracker stands where the snapshot says, and both agree with the record of the head block. -/
structure RestoredFrom (snapshot : Snapshot) (head : BlockRecord) (t : Tracker) : Prop where
  decode_eq : Accumulator.decode snapshot.frontier = .ok t.accumulator
  countFits : countFits snapshot.first snapshot.head t.accumulator.leafCount = true
  root_eq : head.root = t.accumulator.root
  id_eq : head.id = snapshot.headId
  span_eq : t.span = some ⟨snapshot.first, snapshot.head, snapshot.headId⟩

section Restore

variable {σ : Type} [ChainStore σ] {store : σ} {chain : AccountName} {snapshot : Snapshot}

/-- A chain that was never tracked starts anew. -/
theorem restore_of_none (hs : loadChain store chain = .ok none) :
    restore store chain = .ok (.start chain) := by
  rw [restore, hs]
  rfl

/-- A chain that was tracked before is restored from its snapshot and the record of its head. -/
theorem restore_of_some (hs : loadChain store chain = .ok (some snapshot)) :
    restore store chain = .ok t ↔ t.chain = chain ∧ ∃ head,
      getBlock store chain snapshot.head = .ok (some head) ∧ RestoredFrom snapshot head t := by
  obtain ⟨chain', accumulator, span⟩ := t
  rw [restore, hs]
  simp only [mapError_ok, bind, Except.bind]
  constructor
  · intro h
    split at h
    · cases h
    next acc hd =>
    split at h
    · cases h
    next hcount =>
    split at h
    · cases h
    next found hf =>
    split at h
    · cases h
    next head =>
    split at h
    · cases h
    next hhead =>
    obtain ⟨rfl, rfl, rfl⟩ := Tracker.mk.inj (Except.ok.inj h)
    rw [not_or, Decidable.not_not, Decidable.not_not] at hhead
    exact ⟨rfl, head, mapError_eq_ok.mp hf, mapError_eq_ok.mp hd, by simpa using hcount, hhead.1,
      hhead.2, rfl⟩
  · rintro ⟨rfl, head, hf, hd, hcount, hroot, hid, rfl⟩
    simp only at hd hcount hroot
    simp [hd, hcount, hf, hroot, hid, pure, Except.pure]

/-- A tracker is restored only if the snapshot can be read. -/
theorem loadChain_of_restore (h : restore store chain = .ok t) :
    ∃ found, loadChain store chain = .ok found := by
  cases hs : loadChain store chain with
  | error e =>
    rw [restore, hs] at h
    exact nomatch h
  | ok found => exact ⟨found, rfl⟩

/-- A tracker that is restored tracks the chain that was asked for. -/
theorem chain_restore (h : restore store chain = .ok t) : t.chain = chain := by
  obtain ⟨found, hs⟩ := loadChain_of_restore h
  cases found with
  | none => exact congrArg Tracker.chain (Except.ok.inj ((restore_of_none hs).symm.trans h)).symm
  | some snapshot => exact ((restore_of_some hs).mp h).1

end Restore

/-- In a store of values the snapshot and the record are what is found. -/
theorem restore_eq_ok {store : MemoryStore} {chain : AccountName} {snapshot : Snapshot}
    (hs : store.chains.find? chain = some snapshot) :
    restore store chain = .ok t ↔ t.chain = chain ∧ ∃ head,
      (store.blocksOf chain).find? snapshot.head = some head ∧ RestoredFrom snapshot head t := by
  have hload : loadChain store chain = .ok (some snapshot) := congrArg Except.ok hs
  simp only [restore_of_some hload, getBlock, Except.ok.injEq]

end Tracker

theorem MemoryStore.blocksOf_record {chain : AccountName} {snapshot : Snapshot}
    (h : snapshot.chain = chain) (store : MemoryStore) (block : BlockRecord) :
    (store.record snapshot block).blocksOf chain =
      (store.blocksOf chain).insert block.blockNum block := by
  subst h
  rw [blocksOf, record, Table.find?_insert]
  rfl

theorem MemoryStore.blocksOf_record_ne {chain : AccountName} {snapshot : Snapshot}
    (h : chain ≠ snapshot.chain) (store : MemoryStore) (block : BlockRecord) :
    (store.record snapshot block).blocksOf chain = store.blocksOf chain := by
  rw [blocksOf, record, Table.find?_insert_ne _ h]
  rfl

end LightClient
