import LightClient.Proofs.Relay.Tracker
import LightClient.Proofs.Relay.TableStore
import LightClient.Relay.Prover

/-!
A store of texts and rows beside a store of values. Main statement: from empty stores on, both give
the same answers, whatever is asked of them, and no answer is an error.
-/

namespace LightClient

/-! ## Orders of keys -/

instance : IsTrans AccountName (· < ·) where
  trans _ _ _ h h' := UInt64.lt_trans h h'

instance : Std.Trichotomous (α := AccountName) (· < ·) where
  trichotomous chain chain' h h' := by
    have hvalue : chain.value = chain'.value :=
      UInt64.le_antisymm (UInt64.not_lt.mp h') (UInt64.not_lt.mp h)
    cases chain
    cases chain'
    exact congrArg AccountName.mk hvalue

instance : Std.Irrefl (α := AccountName) (· < ·) where
  irrefl chain := UInt64.lt_irrefl chain.value

/-- The chains in the order of their texts. -/
def AccountName.byText (chains : List AccountName) : List AccountName :=
  chains.mergeSort fun a b => a.text ≤ b.text

theorem AccountName.byText_perm (chains : List AccountName) : (byText chains).Perm chains :=
  List.mergeSort_perm ..

theorem AccountName.pairwise_byText {chains : List AccountName} (h : chains.Nodup) :
    (byText chains).Pairwise fun a b => a.text < b.text := by
  have htrans : ∀ a b c : AccountName, decide (a.text ≤ b.text) = true →
      decide (b.text ≤ c.text) = true → decide (a.text ≤ c.text) = true := by
    intro a b c hab hbc
    simp only [decide_eq_true_eq] at hab hbc ⊢
    exact String.le_trans hab hbc
  have htotal : ∀ a b : AccountName,
      (decide (a.text ≤ b.text) || decide (b.text ≤ a.text)) = true := by
    intro a b
    simpa only [Bool.or_eq_true, decide_eq_true_eq] using String.le_total a.text b.text
  have hle := List.pairwise_mergeSort htrans htotal chains
  have hnodup : (byText chains).Nodup := (byText_perm chains).nodup_iff.mpr h
  refine (hle.and hnodup).imp fun {a b} ⟨hab, hne⟩ => ?_
  exact Std.lt_of_le_of_ne (of_decide_eq_true hab) fun heq => hne (text_inj.mp heq)

/-! ## Stores that read alike -/

/-- What is read of a chain is the same in both stores. -/
structure ReadsAlike {σ τ : Type} [ChainStore σ] [ChainStore τ] (chain : AccountName) (s : σ)
    (s' : τ) : Prop where
  loadChain_eq : loadChain s chain = loadChain s' chain
  getBlock_eq (num : UInt32) : getBlock s chain num = getBlock s' chain num
  blockIds_eq (low high : UInt32) : blockIds s chain low high = blockIds s' chain low high

namespace ReadsAlike

variable {σ τ : Type} [ChainStore σ] [ChainStore τ] {chain : AccountName} {s : σ} {s' : τ}

theorem restore_eq (h : ReadsAlike chain s s') :
    Tracker.restore s chain = Tracker.restore s' chain := by
  rw [Tracker.restore, Tracker.restore, h.loadChain_eq]
  simp only [h.getBlock_eq]

theorem anchorRoot_eq (h : ReadsAlike chain s s') (anchor : UInt32) :
    Prover.anchorRoot s chain anchor = Prover.anchorRoot s' chain anchor := by
  rw [Prover.anchorRoot, Prover.anchorRoot, h.getBlock_eq]

theorem proveBlock_eq (h : ReadsAlike chain s s') (num anchor : UInt32) :
    Prover.proveBlock s chain num anchor = Prover.proveBlock s' chain num anchor := by
  rw [Prover.proveBlock, Prover.proveBlock, h.loadChain_eq]
  simp only [h.blockIds_eq, h.getBlock_eq, h.anchorRoot_eq]

end ReadsAlike

/-! ## The relation between the stores -/

/-- One store holds as texts and rows what the other holds as values. -/
structure Mirrors (t : TableStore) (m : MemoryStore) : Prop where
  getText_eq (chain : AccountName) : t.getText (TableStore.chainKey chain) =
    (m.chains.find? chain).map fun s => (toJson s).compact
  mem_keys_iff (key : String) :
    key ∈ t.texts.keys ↔ ∃ chain ∈ m.chains.keys, TableStore.chainKey chain = key
  keys_texts : t.texts.keys.Pairwise (· < ·)
  keys_chains : m.chains.keys.Pairwise (· < ·)
  rowsOf_eq (chain : AccountName) :
    t.rowsOf chain = (m.blocksOf chain).mapValues Row.ofRecord
  /-- A block stands under its own number, and its header can be packed. -/
  numbered (chain : AccountName) : ∀ e ∈ (m.blocksOf chain).entries,
    e.2.blockNum = e.1 ∧ Fits e.2.header

namespace Mirrors

variable {t : TableStore} {m : MemoryStore}

theorem empty : Mirrors .empty .empty where
  getText_eq _ := rfl
  mem_keys_iff _ := ⟨fun h => absurd h List.not_mem_nil, fun ⟨_, h, _⟩ => absurd h List.not_mem_nil⟩
  keys_texts := .nil
  keys_chains := .nil
  rowsOf_eq _ := rfl
  numbered _ _ h := absurd h List.not_mem_nil

/-! ## Reading -/

theorem loadChain_eq (h : Mirrors t m) (chain : AccountName) :
    loadChain t chain = loadChain m chain := by
  simp only [loadChain, h.getText_eq]
  cases m.chains.find? chain with
  | none => rfl
  | some s =>
    simp only [Option.map_some, TableStore.readSnapshot_compact]
    rfl

theorem getBlock_eq (h : Mirrors t m) (chain : AccountName) (num : UInt32) :
    getBlock t chain num = getBlock m chain num := by
  simp only [getBlock, h.rowsOf_eq, Table.find?_mapValues]
  cases hfind : (m.blocksOf chain).find? num with
  | none => rfl
  | some block =>
    obtain ⟨hnum, hfits⟩ := h.numbered chain (num, block) (Table.mem_of_findIn hfind)
    obtain rfl : block.blockNum = num := hnum
    simp only [Option.map_some, Row.toRecord_ofRecord hfits]
    rfl

theorem blockIds_eq (h : Mirrors t m) (chain : AccountName) (low high : UInt32) :
    blockIds t chain low high = blockIds m chain low high := by
  simp only [blockIds, h.rowsOf_eq, Table.range_mapValues, List.mapM_map]
  exact mapM_eq_ok fun block _ => Row.toId_ofRecord block

theorem readsAlike (h : Mirrors t m) (chain : AccountName) : ReadsAlike chain t m :=
  ⟨h.loadChain_eq chain, h.getBlock_eq chain, h.blockIds_eq chain⟩

/-- The keys of the snapshots stand in the order of the chains' texts. -/
theorem keys_eq (h : Mirrors t m) :
    t.texts.keys = (AccountName.byText m.chains.keys).map TableStore.chainKey := by
  let sorted := AccountName.byText m.chains.keys
  have hlt : (sorted.map TableStore.chainKey).Pairwise (· < ·) :=
    List.pairwise_map.mpr <| (AccountName.pairwise_byText h.keys_chains.nodup).imp
      TableStore.chainKey_lt_iff.mpr
  have hmem : ∀ key, key ∈ t.texts.keys ↔ key ∈ sorted.map TableStore.chainKey := by
    intro key
    rw [h.mem_keys_iff, List.mem_map]
    exact exists_congr fun chain => and_congr_left fun _ =>
      (AccountName.byText_perm m.chains.keys).mem_iff.symm
  have hperm : t.texts.keys.Perm (sorted.map TableStore.chainKey) :=
    (List.perm_ext_iff_of_nodup h.keys_texts.nodup hlt.nodup).mpr hmem
  exact hperm.eq_of_pairwise (fun _ _ _ _ hab hba => absurd hba (String.lt_asymm hab))
    h.keys_texts hlt

theorem listChains_eq (h : Mirrors t m) : listChains t = listChains m :=
  TableStore.listChains_of_keys h.keys_eq

/-! ## Writing -/

theorem putChain (h : Mirrors t m) (snapshot : Snapshot) :
    Mirrors (t.putChain snapshot) (m.putChain snapshot) where
  getText_eq chain := by
    change _ = ((m.chains.insert _ _).find? chain).map _
    by_cases hchain : chain = snapshot.chain
    · rw [hchain, TableStore.getText_putChain, Table.find?_insert]
      rfl
    · rw [TableStore.getText_putChain_ne t hchain, Table.find?_insert_ne _ hchain]
      exact h.getText_eq chain
  mem_keys_iff key := by
    change key ∈ (t.texts.insert _ _).keys ↔ ∃ chain ∈ (m.chains.insert _ _).keys, _
    simp only [Table.mem_keys_insert, h.mem_keys_iff, or_and_right, exists_or, exists_eq_left]
    exact or_congr_left eq_comm
  keys_texts := Table.pairwise_keys_insert h.keys_texts _ _
  keys_chains := Table.pairwise_keys_insert h.keys_chains _ _
  rowsOf_eq := h.rowsOf_eq
  numbered := h.numbered

/-- Recording a block puts its row in place and then its snapshot. -/
theorem record (h : Mirrors t m) (snapshot : Snapshot) {block : BlockRecord}
    (hfits : Fits block.header) : Mirrors (t.record snapshot block) (m.record snapshot block) where
  __ := h.putChain snapshot
  rowsOf_eq chain := by
    by_cases hchain : chain = snapshot.chain
    · rw [MemoryStore.blocksOf_record hchain.symm, Table.mapValues_insert, ← h.rowsOf_eq, hchain,
        TableStore.rowsOf_record]
    · rw [MemoryStore.blocksOf_record_ne hchain, ← h.rowsOf_eq,
        TableStore.rowsOf_record_ne t block hchain]
  numbered chain e he := by
    by_cases hchain : chain = snapshot.chain
    · rw [MemoryStore.blocksOf_record hchain.symm] at he
      rcases Table.mem_insertIn he with rfl | he
      · exact ⟨rfl, hfits⟩
      · exact h.numbered chain e he
    · rw [MemoryStore.blocksOf_record_ne hchain] at he
      exact h.numbered chain e he

end Mirrors

/-! ## Calls -/

/-- What can be asked of a store. -/
inductive StoreCall where
  | loadChain (chain : AccountName)
  | appendBlock (snapshot : Snapshot) (block : BlockRecord)
  | getBlock (chain : AccountName) (num : UInt32)
  | blockIds (chain : AccountName) (low high : UInt32)
  | listChains

/-- What a store replies where nothing fails. -/
inductive StoreReply where
  | snapshot (found : Option Snapshot)
  | recorded
  | block (found : Option BlockRecord)
  | ids (ids : List Digest)
  | chains (chains : List AccountName)
  deriving DecidableEq

namespace StoreCall

/-- What a store answers, and the store after it. -/
def answer {σ : Type} [ChainStore σ] (store : σ) :
    StoreCall → Except StoreError StoreReply × σ
  | .loadChain chain => (.snapshot <$> LightClient.loadChain store chain, store)
  | .appendBlock snapshot block =>
    let (result, store) := LightClient.appendBlock store snapshot block
    ((fun _ => .recorded) <$> result, store)
  | .getBlock chain num => (.block <$> LightClient.getBlock store chain num, store)
  | .blockIds chain low high => (.ids <$> LightClient.blockIds store chain low high, store)
  | .listChains => (.chains <$> LightClient.listChains store, store)

/-- The answers to calls that are made one after the other. -/
def answers {σ : Type} [ChainStore σ] (store : σ) :
    List StoreCall → List (Except StoreError StoreReply)
  | [] => []
  | call :: calls => (call.answer store).1 :: answers (call.answer store).2 calls

/-- A block that is recorded has a header that can be packed. -/
def Packable : StoreCall → Prop
  | .appendBlock _ block => Fits block.header
  | _ => True

end StoreCall

/-- One call gets the same reply from both stores and keeps them alike. -/
theorem Mirrors.answer {t : TableStore} {m : MemoryStore} (h : Mirrors t m) {call : StoreCall}
    (hcall : call.Packable) : ∃ reply, (call.answer t).1 = .ok reply ∧
      (call.answer m).1 = .ok reply ∧ Mirrors (call.answer t).2 (call.answer m).2 := by
  cases call with
  | loadChain chain =>
    exact ⟨_, congrArg (StoreReply.snapshot <$> ·) (h.loadChain_eq chain), rfl, h⟩
  | appendBlock snapshot block => exact ⟨.recorded, rfl, rfl, h.record snapshot hcall⟩
  | getBlock chain num =>
    exact ⟨_, congrArg (StoreReply.block <$> ·) (h.getBlock_eq chain num), rfl, h⟩
  | blockIds chain low high =>
    exact ⟨_, congrArg (StoreReply.ids <$> ·) (h.blockIds_eq chain low high), rfl, h⟩
  | listChains => exact ⟨_, congrArg (StoreReply.chains <$> ·) h.listChains_eq, rfl, h⟩

/-- Stores that are alike answer all calls alike. -/
theorem Mirrors.answers {t : TableStore} {m : MemoryStore} (h : Mirrors t m)
    {calls : List StoreCall} (hcalls : ∀ call ∈ calls, call.Packable) :
    ∃ replies : List StoreReply, StoreCall.answers t calls = replies.map .ok ∧
      StoreCall.answers m calls = replies.map .ok := by
  induction calls generalizing t m with
  | nil => exact ⟨[], rfl, rfl⟩
  | cons call calls ih =>
    rw [List.forall_mem_cons] at hcalls
    obtain ⟨reply, ht, hm, hnext⟩ := h.answer hcalls.1
    obtain ⟨replies, hts, hms⟩ := ih hnext hcalls.2
    refine ⟨reply :: replies, ?_, ?_⟩
    · rw [StoreCall.answers, ht, hts, List.map_cons]
    · rw [StoreCall.answers, hm, hms, List.map_cons]

/-- **A store of texts and rows cannot be told from a store of values.** Whatever is asked of two
stores that hold nothing yet, they give the same replies in the same order, and never an error. -/
theorem StoreCall.answers_agree {calls : List StoreCall}
    (hcalls : ∀ call ∈ calls, call.Packable) :
    ∃ replies : List StoreReply, answers TableStore.empty calls = replies.map .ok ∧
      answers MemoryStore.empty calls = replies.map .ok :=
  Mirrors.empty.answers hcalls

/-- Two chains in turn, the one with the greater text first, and a block that is recorded twice. The
chains are listed in the order of their texts. -/
theorem StoreCall.answers_agree_two_chains :
    let header : Header := ⟨⟨0⟩, ⟨0⟩, 0, .zero, .zero, .zero, 0, none, []⟩
    let one : Digest := ⟨List.replicate 32 1, rfl⟩
    let snapshot (chain : UInt64) (head : UInt32) : Snapshot := ⟨⟨chain⟩, 2, head, .zero, [255]⟩
    let calls : List StoreCall := [
      .appendBlock (snapshot 32 3) ⟨3, .zero, one, header⟩,
      .appendBlock (snapshot 16 2) ⟨2, .zero, one, header⟩,
      .appendBlock (snapshot 16 2) ⟨2, one, one, header⟩,
      .appendBlock (snapshot 16 1) ⟨1, .zero, one, header⟩,
      .loadChain ⟨16⟩, .getBlock ⟨32⟩ 2, .blockIds ⟨16⟩ 0 9, .blockIds ⟨16⟩ 9 0, .listChains]
    (∀ call ∈ calls, call.Packable) ∧ answers TableStore.empty calls = [
      .ok .recorded, .ok .recorded, .ok .recorded, .ok .recorded,
      .ok (.snapshot (some (snapshot 16 1))), .ok (.block none), .ok (.ids [.zero, one]),
      .ok (.ids []), .ok (.chains [⟨16⟩, ⟨32⟩])] := by
  intro header one snapshot calls
  have hfits : Fits header := ⟨fun _ h => (nomatch h), by decide, fun _ h => (nomatch h)⟩
  have hcalls : ∀ call ∈ calls, call.Packable := by
    simp only [calls, List.forall_mem_cons]
    exact ⟨hfits, hfits, hfits, hfits, trivial, trivial, trivial, trivial, trivial,
      fun _ h => absurd h List.not_mem_nil⟩
  -- Sorting does not evaluate, so the chains are compared by the order of their texts.
  have hsorted : AccountName.byText [⟨16⟩, ⟨32⟩] = [⟨16⟩, ⟨32⟩] :=
    List.mergeSort_of_pairwise (by decide +kernel)
  have hvalues : answers MemoryStore.empty calls = [
      .ok .recorded, .ok .recorded, .ok .recorded, .ok .recorded,
      .ok (.snapshot (some (snapshot 16 1))), .ok (.block none), .ok (.ids [.zero, one]),
      .ok (.ids []), .ok (.chains (AccountName.byText [⟨16⟩, ⟨32⟩]))] := rfl
  obtain ⟨replies, ht, hm⟩ := answers_agree hcalls
  rw [hsorted] at hvalues
  exact ⟨hcalls, ht.trans (hm.symm.trans hvalues)⟩

end LightClient
