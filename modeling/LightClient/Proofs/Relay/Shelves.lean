import LightClient.Proofs.Block.NameTexts
import LightClient.Proofs.Relay.Mirror
import Mathlib.Data.Set.List

/-!
Stores that keep every chain on a shelf of its own: what is read about a chain depends on its shelf
only, and recording a block of one chain leaves the shelves of all others. No block is refused, so an
update either records the header with the new snapshot, or leaves tracker and store as they are.
-/

namespace LightClient

/-- A store that never refuses a block and has a shelf for every chain. -/
class ShelvedStore (σ : Type) [ChainStore σ] where
  Shelf : Type
  shelf : σ → AccountName → Shelf
  /-- The store was filled by its own calls. -/
  Valid : σ → Prop
  loadChain_congr {s s' : σ} {chain : AccountName} :
    shelf s chain = shelf s' chain → loadChain s chain = loadChain s' chain
  getBlock_congr {s s' : σ} {chain : AccountName} (num : UInt32) :
    shelf s chain = shelf s' chain → getBlock s chain num = getBlock s' chain num
  blockIds_congr {s s' : σ} {chain : AccountName} (low high : UInt32) :
    shelf s chain = shelf s' chain → blockIds s chain low high = blockIds s' chain low high
  appendBlock_fst (s : σ) (snapshot : Snapshot) (block : BlockRecord) :
    (appendBlock s snapshot block).1 = .ok ()
  shelf_appendBlock {s s' : σ} (snapshot : Snapshot) (block : BlockRecord) :
    shelf s snapshot.chain = shelf s' snapshot.chain →
      shelf (appendBlock s snapshot block).2 snapshot.chain =
        shelf (appendBlock s' snapshot block).2 snapshot.chain
  shelf_appendBlock_ne {chain : AccountName} {snapshot : Snapshot} (s : σ) (block : BlockRecord) :
    chain ≠ snapshot.chain → shelf (appendBlock s snapshot block).2 chain = shelf s chain
  loadChain_appendBlock (s : σ) (snapshot : Snapshot) (block : BlockRecord) :
    loadChain (appendBlock s snapshot block).2 snapshot.chain ≠ .ok none
  valid_appendBlock {s : σ} (snapshot : Snapshot) (block : BlockRecord) :
    Valid s → Valid (appendBlock s snapshot block).2
  listChains_eq {s : σ} : Valid s → ∃ names, listChains s = .ok names ∧
    names.Pairwise (fun a b => a.text < b.text) ∧
    ∀ chain, chain ∈ names ↔ loadChain s chain ≠ .ok none

open ShelvedStore

/-! ## The two stores -/

instance : ShelvedStore MemoryStore where
  Shelf := Option Snapshot × Table UInt32 BlockRecord
  shelf s chain := (s.chains.find? chain, s.blocksOf chain)
  Valid s := s.chains.keys.Pairwise (· < ·)
  loadChain_congr h := congrArg Except.ok (Prod.mk.inj h).1
  getBlock_congr num h := congrArg (fun blocks => Except.ok (blocks.find? num)) (Prod.mk.inj h).2
  blockIds_congr low high h :=
    congrArg (fun blocks => Except.ok ((blocks.range low high).map (·.id))) (Prod.mk.inj h).2
  appendBlock_fst _ _ _ := rfl
  shelf_appendBlock {s s'} snapshot block h := by
    obtain ⟨-, hblocks⟩ := Prod.mk.inj h
    change ((s.record snapshot block).chains.find? _, (s.record snapshot block).blocksOf _) =
      ((s'.record snapshot block).chains.find? _, (s'.record snapshot block).blocksOf _)
    rw [MemoryStore.blocksOf_record rfl, MemoryStore.blocksOf_record rfl, hblocks,
      MemoryStore.record, MemoryStore.record, Table.find?_insert, Table.find?_insert]
  shelf_appendBlock_ne {chain snapshot} s block h := by
    change ((s.record snapshot block).chains.find? _, (s.record snapshot block).blocksOf _) = _
    rw [MemoryStore.blocksOf_record_ne h, MemoryStore.record, Table.find?_insert_ne _ h]
  loadChain_appendBlock s snapshot block h := by
    have hnone : (s.chains.insert snapshot.chain snapshot).find? snapshot.chain = none :=
      Except.ok.inj h
    rw [Table.find?_insert] at hnone
    exact nomatch hnone
  valid_appendBlock _ _ h := Table.pairwise_keys_insert h _ _
  listChains_eq {s} h := by
    refine ⟨AccountName.byText s.chains.keys, rfl, AccountName.pairwise_byText h.nodup,
      fun chain => ?_⟩
    rw [(AccountName.byText_perm _).mem_iff, Table.mem_keys_iff, ← Option.ne_none_iff_exists']
    exact not_congr ⟨congrArg Except.ok, Except.ok.inj⟩

theorem TableStore.loadChain_ne_none {s : TableStore} {chain : AccountName} :
    loadChain s chain ≠ .ok none ↔ ∃ text, s.getText (chainKey chain) = some text := by
  simp only [loadChain]
  cases s.getText (chainKey chain) with
  | none => simp
  | some text =>
    have hsome : some <$> readSnapshot text ≠ .ok none := by
      intro h
      cases hread : readSnapshot text with
      | error e => rw [hread] at h; cases h
      | ok snapshot => rw [hread] at h; cases h
    exact iff_of_true hsome ⟨text, rfl⟩

/-- A store whose texts are all snapshots lists the chains that have one, in order. -/
theorem TableStore.exists_listChains {s : TableStore} (horder : s.texts.keys.Pairwise (· < ·))
    (hall : ∀ key ∈ s.texts.keys, ∃ chain, chainKey chain = key) :
    ∃ names, listChains s = .ok names ∧ names.Pairwise (fun a b => a.text < b.text) ∧
      ∀ chain, chain ∈ names ↔ loadChain s chain ≠ .ok none := by
  have hrange : s.texts.keys ∈ Set.range (List.map chainKey) :=
    (Set.range_list_map chainKey).superset hall
  obtain ⟨names, hnames⟩ := hrange
  have hlt : names.Pairwise fun a b => a.text < b.text := by
    rw [← hnames, List.pairwise_map] at horder
    exact horder.imp chainKey_lt_iff.mp
  refine ⟨names, listChains_of_keys hnames.symm, hlt, fun chain => ?_⟩
  have hmem : chain ∈ names ↔ chainKey chain ∈ s.texts.keys := by
    rw [← hnames, List.mem_map]
    exact ⟨fun h => ⟨chain, h, rfl⟩, fun ⟨_, h, heq⟩ => chainKey_inj.mp heq ▸ h⟩
  rw [hmem, Table.mem_keys_iff, loadChain_ne_none]
  rfl

instance : ShelvedStore TableStore where
  Shelf := Option String × Table UInt32 Row
  shelf s chain := (s.getText (TableStore.chainKey chain), s.rowsOf chain)
  Valid s := s.texts.keys.Pairwise (· < ·) ∧
    ∀ key ∈ s.texts.keys, ∃ chain, TableStore.chainKey chain = key
  loadChain_congr h := by
    simp only [loadChain, (Prod.mk.inj h).1]
  getBlock_congr num h := by
    simp only [getBlock, (Prod.mk.inj h).2]
  blockIds_congr low high h := by
    simp only [blockIds, (Prod.mk.inj h).2]
  appendBlock_fst _ _ _ := rfl
  shelf_appendBlock {s s'} snapshot block h := by
    obtain ⟨-, hrows⟩ := Prod.mk.inj h
    change ((s.record snapshot block).getText _, (s.record snapshot block).rowsOf _) =
      ((s'.record snapshot block).getText _, (s'.record snapshot block).rowsOf _)
    rw [TableStore.getText_record, TableStore.getText_record, TableStore.rowsOf_record,
      TableStore.rowsOf_record, hrows]
  shelf_appendBlock_ne {chain snapshot} s block h := by
    change ((s.record snapshot block).getText _, (s.record snapshot block).rowsOf _) = _
    rw [TableStore.getText_record_ne s block h, TableStore.rowsOf_record_ne s block h]
  loadChain_appendBlock s snapshot block :=
    TableStore.loadChain_ne_none.mpr ⟨_, TableStore.getText_record s block⟩
  valid_appendBlock {s} snapshot block h := by
    refine ⟨Table.pairwise_keys_insert h.1 _ _, fun key hkey => ?_⟩
    rcases Table.mem_keys_insert.mp hkey with rfl | hkey
    · exact ⟨snapshot.chain, rfl⟩
    · exact h.2 key hkey
  listChains_eq h := TableStore.exists_listChains h.1 h.2

/-- The chains that a store has are listed in the order of their numbers. -/
theorem listChains_ascending {σ : Type} [ChainStore σ] [ShelvedStore σ] {s : σ} (h : Valid s) :
    ∃ names, listChains s = .ok names ∧ names.Pairwise (fun a b => a.value < b.value) ∧
      ∀ chain, chain ∈ names ↔ loadChain s chain ≠ .ok none := by
  obtain ⟨names, hlist, horder, hmem⟩ := listChains_eq h
  exact ⟨names, hlist, horder.imp AccountName.text_lt_iff.mp, hmem⟩

theorem readsAlike_of_shelf {σ : Type} [ChainStore σ] [ShelvedStore σ] {s s' : σ}
    {chain : AccountName} (h : shelf s chain = shelf s' chain) : ReadsAlike chain s s' :=
  ⟨loadChain_congr h, fun num => getBlock_congr num h,
    fun low high => blockIds_congr low high h⟩

/-! ## Updates -/

namespace Tracker

variable {σ : Type} [ChainStore σ] [ShelvedStore σ] (t : Tracker) (store : σ) (h : Header)

/-- An update fails and changes nothing, or records the header under the tracker's own chain. -/
theorem update_of_shelved : t.update store h =
    match t.next h with
    | .error e => ⟨.error e, t, store⟩
    | .ok (accumulator, span) =>
      ⟨.ok accumulator.root, ⟨t.chain, accumulator, some span⟩,
        (appendBlock store (snapshot t.chain accumulator span)
          ⟨span.head, span.headId, accumulator.root, h⟩).2⟩ := by
  rw [update]
  cases t.next h with
  | error e => rfl
  | ok next =>
    obtain ⟨accumulator, span⟩ := next
    have hfst := appendBlock_fst store (snapshot t.chain accumulator span)
      ⟨span.head, span.headId, accumulator.root, h⟩
    cases happend : appendBlock store (snapshot t.chain accumulator span)
        ⟨span.head, span.headId, accumulator.root, h⟩ with
    | mk result store' =>
      rw [happend] at hfst
      obtain rfl : result = .ok () := hfst
      simp only [happend]

/-- An update leaves everything as it is, or appends the id of the header to the accumulator and
records the header with the new snapshot. -/
theorem update_cases :
    (∃ e, t.update store h = ⟨.error e, t, store⟩) ∨
    ∃ accumulator, t.accepts h = .ok () ∧ t.accumulator.append h.id = .ok accumulator ∧
      t.update store h =
        ⟨.ok accumulator.root, ⟨t.chain, accumulator, some (t.extendSpan h)⟩,
          (appendBlock store (snapshot t.chain accumulator (t.extendSpan h))
            ⟨h.blockNum, h.id, accumulator.root, h⟩).2⟩ := by
  rw [update_of_shelved]
  cases hn : t.next h with
  | error e => exact .inl ⟨e, rfl⟩
  | ok next =>
    obtain ⟨accumulator, span⟩ := next
    obtain ⟨ha, hp, rfl⟩ := next_cases hn
    exact .inr ⟨accumulator, ha, hp, rfl⟩

end Tracker

end LightClient
