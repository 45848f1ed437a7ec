import LightClient.Relay.Store

/-!
A store that refuses blocks on demand, as one does on a full disk.
-/

namespace LightClient

/-- A store, and the reason why it will refuse the next block, if it will. -/
structure FaultyStore (σ : Type) where
  store : σ
  nextRefusal : Option String

namespace FaultyStore

instance {σ : Type} [ChainStore σ] : ChainStore (FaultyStore σ) where
  loadChain s chain := loadChain s.store chain
  appendBlock s snapshot block :=
    match s.nextRefusal with
    | some reason => (.error (.refused reason), { s with nextRefusal := none })
    | none =>
      let (result, store) := appendBlock s.store snapshot block
      (result, { s with store })
  getBlock s chain num := getBlock s.store chain num
  blockIds s chain low high := blockIds s.store chain low high
  listChains s := listChains s.store

end FaultyStore

end LightClient
