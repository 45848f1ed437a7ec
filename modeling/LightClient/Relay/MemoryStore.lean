import LightClient.Relay.Store
import LightClient.Relay.Table

/-!
A store that keeps values as they are. Nothing can fail in it.
-/

namespace LightClient

instance : LT AccountName := ⟨fun a b => a.value < b.value⟩

instance : DecidableLT AccountName := fun a b => inferInstanceAs (Decidable (a.value < b.value))

/-- Snapshots by chain, and blocks by chain and number. -/
structure MemoryStore where
  chains : Table AccountName Snapshot
  blocks : Table AccountName (Table UInt32 BlockRecord)
  deriving DecidableEq

namespace MemoryStore

def empty : MemoryStore :=
  ⟨.empty, .empty⟩

instance : Inhabited MemoryStore := ⟨empty⟩

def blocksOf (s : MemoryStore) (chain : AccountName) : Table UInt32 BlockRecord :=
  (s.blocks.find? chain).getD .empty

/-- Overwrites a snapshot and leaves the blocks alone. -/
def putChain (s : MemoryStore) (snapshot : Snapshot) : MemoryStore :=
  { s with chains := s.chains.insert snapshot.chain snapshot }

def record (s : MemoryStore) (snapshot : Snapshot) (block : BlockRecord) : MemoryStore :=
  { chains := s.chains.insert snapshot.chain snapshot
    blocks := s.blocks.insert snapshot.chain
      ((s.blocksOf snapshot.chain).insert block.blockNum block) }

instance : ChainStore MemoryStore where
  loadChain s chain := .ok (s.chains.find? chain)
  appendBlock s snapshot block := (.ok (), s.record snapshot block)
  getBlock s chain num := .ok ((s.blocksOf chain).find? num)
  blockIds s chain low high := .ok (((s.blocksOf chain).range low high).map (·.id))
  listChains s := .ok (s.chains.keys.mergeSort fun a b => a.text ≤ b.text)

end MemoryStore

end LightClient
