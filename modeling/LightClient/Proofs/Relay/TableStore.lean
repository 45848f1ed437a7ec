import LightClient.Proofs.Json.Forms
import LightClient.Proofs.Packed.RoundTrip
import LightClient.Proofs.Relay.Table
import LightClient.Relay.TableStore

/-!
What a table store keeps is read back: the snapshot from its text, the block from its row, the chain
from its key.
-/

namespace LightClient

/-! ## Snapshots -/

theorem TableStore.readSnapshot_compact (s : Snapshot) :
    readSnapshot (toJson s).compact = .ok s := by
  rw [readSnapshot, LawfulJson.decodeText_compact, mapError_ok]

/-! ## Blocks -/

namespace Row

theorem digest_toHex (d : Digest) : digest d.toHex = .ok d := by
  rw [digest, Digest.ofHex_toHex, mapError_ok]

theorem toId_ofRecord (r : BlockRecord) : (ofRecord r).toId = .ok r.id := by
  rw [toId, ofRecord]
  simp only [Cell.asText, bind, Except.bind, digest_toHex]

theorem toRecord_ofRecord {r : BlockRecord} (h : Fits r.header) :
    (ofRecord r).toRecord r.blockNum = .ok r := by
  have hheader : Header.decode r.header.encode = .ok r.header := (reads_pack r.header h).whole _
  rw [toRecord, ofRecord]
  simp only [Cell.asText, Cell.asBytes, bind, Except.bind, digest_toHex, hheader, mapError_ok]
  rfl

end Row

/-! ## Keys -/

namespace TableStore

theorem toList_chainKey (chain : AccountName) :
    (chainKey chain).toList = keyStart ++ chain.text.toList :=
  String.toList_ofList

theorem chainKey_lt_iff {chain chain' : AccountName} :
    chainKey chain < chainKey chain' ↔ chain.text < chain'.text := by
  rw [String.lt_iff, String.lt_iff, toList_chainKey, toList_chainKey]
  simp only [keyStart, List.cons_append, List.nil_append, List.cons_lt_cons_iff, Char.lt_irrefl,
    false_or, true_and]

theorem chainKey_inj {chain chain' : AccountName} :
    chainKey chain = chainKey chain' ↔ chain = chain' := by
  rw [← String.toList_inj, toList_chainKey, toList_chainKey, List.append_cancel_left_eq,
    String.toList_inj, AccountName.text_inj]

theorem isChainKey_chainKey (chain : AccountName) : isChainKey (chainKey chain) = true := by
  rw [isChainKey, toList_chainKey, List.take_left]
  rfl

theorem dropStarts_of_slash_not_mem {cs : List Char} (h : '/' ∉ cs) (limit : Nat) :
    dropStarts limit cs = cs := by
  cases limit with
  | zero => rfl
  | succ limit =>
    have hne : cs.take keyStart.length ≠ keyStart := by
      intro heq
      have hmem : '/' ∈ keyStart := by decide
      rw [← heq] at hmem
      exact h (List.mem_of_mem_take hmem)
    rw [dropStarts, if_neg hne]

theorem chainOfKey_chainKey (chain : AccountName) : chainOfKey (chainKey chain) = .ok chain := by
  have hlength : (keyStart ++ chain.text.toList).length = 5 + chain.text.toList.length + 1 := by
    rw [List.length_append, keyStart]
    simp only [List.length_cons, List.length_nil]
    omega
  have hdrop : dropStarts (keyStart ++ chain.text.toList).length (keyStart ++ chain.text.toList) =
      chain.text.toList := by
    rw [hlength, dropStarts, if_pos List.take_left, List.drop_left,
      dropStarts_of_slash_not_mem chain.slash_not_mem_text]
  rw [chainOfKey, toList_chainKey]
  simp only [hdrop, String.ofList_toList, AccountName.ofText_text, mapError_ok]

/-- A store whose texts are all snapshots lists the chains of their keys. -/
theorem listChains_of_keys {t : TableStore} {names : List AccountName}
    (h : t.texts.keys = names.map chainKey) : listChains t = .ok names := by
  have hall : (names.map chainKey).filter isChainKey = names.map chainKey := by
    refine List.filter_eq_self.mpr fun key hkey => ?_
    obtain ⟨chain, -, rfl⟩ := List.mem_map.mp hkey
    exact isChainKey_chainKey chain
  have hread : names.mapM (chainOfKey ∘ chainKey) = .ok (names.map id) :=
    mapM_eq_ok fun chain _ => by
      rw [Function.comp_apply, chainOfKey_chainKey]
      rfl
  change (t.texts.keys.filter isChainKey).mapM chainOfKey = .ok names
  rw [h, hall, List.mapM_map, hread, List.map_id]

/-! ## Recording -/

section Record

variable {chain : AccountName} {snapshot : Snapshot} (t : TableStore)

theorem getText_putChain : (t.putChain snapshot).getText (chainKey snapshot.chain) =
    some (toJson snapshot).compact :=
  Table.find?_insert t.texts _ _

theorem getText_putChain_ne (h : chain ≠ snapshot.chain) :
    (t.putChain snapshot).getText (chainKey chain) = t.getText (chainKey chain) :=
  Table.find?_insert_ne t.texts (fun heq => h (chainKey_inj.mp heq)) _

variable (block : BlockRecord)

theorem getText_record : (t.record snapshot block).getText (chainKey snapshot.chain) =
    some (toJson snapshot).compact :=
  getText_putChain _

theorem getText_record_ne (h : chain ≠ snapshot.chain) :
    (t.record snapshot block).getText (chainKey chain) = t.getText (chainKey chain) :=
  getText_putChain_ne _ h

theorem rowsOf_record : (t.record snapshot block).rowsOf snapshot.chain =
    (t.rowsOf snapshot.chain).insert block.blockNum (.ofRecord block) := by
  change ((t.blocks.insert _ _).find? _).getD _ = _
  rw [Table.find?_insert]
  rfl

theorem rowsOf_record_ne (h : chain ≠ snapshot.chain) :
    (t.record snapshot block).rowsOf chain = t.rowsOf chain := by
  change ((t.blocks.insert _ _).find? _).getD _ = _
  rw [Table.find?_insert_ne _ fun heq => h (AccountName.text_inj.mp heq)]
  rfl

end Record

end TableStore

end LightClient
