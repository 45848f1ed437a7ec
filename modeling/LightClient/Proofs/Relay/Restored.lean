import LightClient.Proofs.Merkle.Obtainable
import LightClient.Proofs.Relay.Trackers

/-!
Trackers and what is stored of them. Main statement: in a store that keeps what it records, an
update that takes a header leaves the very tracker that a restart would give.
-/

namespace LightClient

open Merkle (Accumulator)

/-! ## Stores that keep what they record -/

/-- A store that gives back the last snapshot and the last record as they were recorded. -/
class DurableStore (σ : Type) [ChainStore σ] : Prop where
  loadChain_recorded (s : σ) (snapshot : Snapshot) (block : BlockRecord) :
    loadChain (appendBlock s snapshot block).2 snapshot.chain = .ok (some snapshot)
  getBlock_recorded (s : σ) (snapshot : Snapshot) (block : BlockRecord) :
    Fits block.header →
      getBlock (appendBlock s snapshot block).2 snapshot.chain block.blockNum = .ok (some block)

open DurableStore ShelvedStore

instance : DurableStore MemoryStore where
  loadChain_recorded _ _ _ := congrArg Except.ok (Table.find?_insert ..)
  getBlock_recorded s snapshot block _ := by
    change Except.ok (((s.record snapshot block).blocksOf _).find? _) = _
    rw [MemoryStore.blocksOf_record rfl, Table.find?_insert]

instance : DurableStore TableStore where
  loadChain_recorded s snapshot block := by
    have htext : (s.record snapshot block).getText (TableStore.chainKey snapshot.chain) =
        some (toJson snapshot).compact := TableStore.getText_record s block
    simp only [loadChain, appendBlock, htext, TableStore.readSnapshot_compact]
    rfl
  getBlock_recorded s snapshot block hfits := by
    have hrow : ((s.record snapshot block).rowsOf snapshot.chain).find? block.blockNum =
        some (.ofRecord block) := by
      rw [TableStore.rowsOf_record, Table.find?_insert]
    simp only [getBlock, appendBlock, hrow, Row.toRecord_ofRecord hfits]
    rfl

/-! ## Trackers with a leaf for each block -/

namespace Tracker

/-- What a restart checks of the accumulator: it passes its own check and has a leaf for each
block. -/
structure Counted (t : Tracker) : Prop where
  validate_eq : t.accumulator.validate = .ok ()
  accumulator_eq : t.span = none → t.accumulator = .empty
  countFits : ∀ span ∈ t.span, countFits span.first span.head t.accumulator.leafCount = true

theorem counted_start (chain : AccountName) : (start chain).Counted where
  validate_eq := Accumulator.Obtainable.empty.validate
  accumulator_eq _ := rfl
  countFits _ h := nomatch h

variable {t : Tracker} {h : Header} {acc : Accumulator}

theorem RestoredFrom.counted {snapshot : Snapshot} {head : BlockRecord}
    (hr : RestoredFrom snapshot head t) : t.Counted where
  validate_eq := (Accumulator.decode_eq_ok.mp hr.decode_eq).2
  accumulator_eq hnone := nomatch hr.span_eq.symm.trans hnone
  countFits span hspan := by
    obtain rfl := Option.some.inj (hr.span_eq.symm.trans hspan)
    exact hr.countFits

theorem counted_restore {σ : Type} [ChainStore σ] {store : σ} {chain : AccountName}
    (hr : restore store chain = .ok t) : t.Counted := by
  obtain ⟨found, hs⟩ := loadChain_of_restore hr
  cases found with
  | none =>
    obtain rfl := Except.ok.inj ((restore_of_none hs).symm.trans hr)
    exact counted_start chain
  | some snapshot =>
    obtain ⟨-, head, -, hfrom⟩ := (restore_of_some hs).mp hr
    exact hfrom.counted

namespace Counted

/-- There are no more leaves than block numbers. -/
theorem leafCount_le (hc : t.Counted) : t.accumulator.leafCount.toNat ≤ 2 ^ 32 := by
  cases hspan : t.span with
  | none =>
    rw [hc.accumulator_eq hspan]
    exact Nat.zero_le _
  | some span =>
    have hfits := hc.countFits span hspan
    simp only [Tracker.countFits, Bool.and_eq_true, decide_eq_true_eq] at hfits
    have hlt := span.head.toNat_lt
    omega

/-- The accumulator always has room for another block. -/
theorem exists_append (hc : t.Counted) (d : Digest) :
    ∃ acc, t.accumulator.append d = .ok acc := by
  have hle := hc.leafCount_le
  obtain ⟨root, acc, hp⟩ := Accumulator.exists_push hc.validate_eq (by omega) d
  exact ⟨acc, Accumulator.append_eq_ok.mpr ⟨root, hp⟩⟩

/-- Taking the next header keeps a leaf for each block. -/
theorem take (hc : t.Counted) (ha : t.accepts h = .ok ())
    (hp : t.accumulator.append h.id = .ok acc) :
    Counted ⟨t.chain, acc, some (t.extendSpan h)⟩ where
  validate_eq := Accumulator.validate_append hp
  accumulator_eq hnone := nomatch hnone
  countFits span hspan := by
    obtain rfl := Option.some.inj hspan
    obtain ⟨root, hpush⟩ := Accumulator.append_eq_ok.mp hp
    have hcount := (Accumulator.leafCount_root_push hpush).1
    cases hold : t.span with
    | none =>
      rw [hc.accumulator_eq hold] at hcount
      rw [extendSpan, hold, Tracker.countFits, hcount]
      simp [Accumulator.empty]
    | some old =>
      have hnum := (accepts_eq_ok.mp ha old hold).1
      have hfits := hc.countFits old hold
      simp only [Tracker.countFits, Bool.and_eq_true, decide_eq_true_eq,
        UInt32.le_iff_toNat_le] at hfits
      rw [extendSpan, hold, Tracker.countFits, hcount]
      simp only [Option.map_some, Option.getD_some, Bool.and_eq_true, decide_eq_true_eq,
        UInt32.le_iff_toNat_le]
      omega

variable {σ : Type} [ChainStore σ] [ShelvedStore σ]

/-- An update fails for the reason that the header is not the next one, or takes it. -/
theorem update_cases (hc : t.Counted) (store : σ) (h : Header) :
    (∃ e, t.accepts h = .error e ∧ t.update store h = ⟨.error e, t, store⟩) ∨
    ∃ acc, t.accepts h = .ok () ∧ t.accumulator.append h.id = .ok acc ∧
      t.update store h = ⟨.ok acc.root, ⟨t.chain, acc, some (t.extendSpan h)⟩,
        (appendBlock store (snapshot t.chain acc (t.extendSpan h))
          ⟨h.blockNum, h.id, acc.root, h⟩).2⟩ := by
  obtain ⟨acc, hp⟩ := hc.exists_append h.id
  rw [update_of_shelved, next]
  cases ha : t.accepts h with
  | error e => exact .inl ⟨e, rfl, rfl⟩
  | ok =>
    rw [hp]
    exact .inr ⟨acc, rfl, rfl, rfl⟩

/-- Only the order of headers decides what an update takes. -/
theorem update_ok_iff (hc : t.Counted) (store : σ) :
    (∃ root, (t.update store h).result = .ok root) ↔ t.accepts h = .ok () := by
  rcases hc.update_cases store h with ⟨e, ha, hu⟩ | ⟨acc, ha, -, hu⟩
  · rw [hu, ha]
    exact ⟨fun ⟨_, h⟩ => (nomatch h), fun h => (nomatch h)⟩
  · rw [hu]
    exact ⟨fun _ => ha, fun _ => ⟨_, rfl⟩⟩

theorem update_error_iff (hc : t.Counted) (store : σ) {e : RelayError} :
    (t.update store h).result = .error e ↔ t.accepts h = .error e := by
  rcases hc.update_cases store h with ⟨e', ha, hu⟩ | ⟨acc, ha, -, hu⟩
  · rw [hu, ha, Except.error.injEq, Except.error.injEq]
  · rw [hu, ha]
    exact ⟨fun h => (nomatch h), fun h => (nomatch h)⟩

/-- An update that succeeds takes the header. -/
theorem update_ok_cases (hc : t.Counted) {store : σ} {root : Digest}
    (hu : (t.update store h).result = .ok root) :
    ∃ acc, t.accepts h = .ok () ∧ t.accumulator.append h.id = .ok acc ∧
      t.update store h = ⟨.ok acc.root, ⟨t.chain, acc, some (t.extendSpan h)⟩,
        (appendBlock store (snapshot t.chain acc (t.extendSpan h))
          ⟨h.blockNum, h.id, acc.root, h⟩).2⟩ := by
  rcases hc.update_cases store h with ⟨e, -, he⟩ | htaken
  · rw [he] at hu
    exact nomatch hu
  · exact htaken

end Counted

variable {σ : Type} [ChainStore σ] [ShelvedStore σ] [DurableStore σ]

/-- The tracker that an update leaves is the one that a restart would give. -/
theorem restore_update {store : σ} {chain : AccountName} {root : Digest}
    (hr : restore store chain = .ok t) (hfits : Fits h)
    (hu : (t.update store h).result = .ok root) :
    restore (t.update store h).store chain = .ok (t.update store h).tracker := by
  have hc := counted_restore hr
  obtain rfl := chain_restore hr
  obtain ⟨acc, ha, hp, heq⟩ := hc.update_ok_cases hu
  have htake := hc.take ha hp
  have hload := loadChain_recorded store (snapshot t.chain acc (t.extendSpan h))
    ⟨h.blockNum, h.id, acc.root, h⟩
  have hblock := getBlock_recorded store (snapshot t.chain acc (t.extendSpan h))
    ⟨h.blockNum, h.id, acc.root, h⟩ hfits
  rw [heq]
  refine (restore_of_some hload).mpr ⟨rfl, _, hblock, ?_⟩
  exact
    { decode_eq := Accumulator.decode_encode htake.validate_eq
      countFits := htake.countFits _ rfl
      root_eq := rfl
      id_eq := rfl
      span_eq := rfl }

end Tracker

end LightClient
