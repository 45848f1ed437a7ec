import LightClient.Relay.MemoryStore
import LightClient.Relay.Tracker

/-!
Trackers of many chains over one store. A tracker is restored when its chain is first used, and
kept from then on.
-/

namespace LightClient

structure Trackers where
  live : Table AccountName Tracker
  deriving DecidableEq

namespace Trackers

def empty : Trackers :=
  ⟨.empty⟩

instance : Inhabited Trackers := ⟨empty⟩

def tracker {σ : Type} [ChainStore σ] (ts : Trackers) (store : σ) (chain : AccountName) :
    Except RelayError (Tracker × Trackers) :=
  match ts.live.find? chain with
  | some t => .ok (t, ts)
  | none => do
    let t ← Tracker.restore store chain
    return (t, ⟨ts.live.insert chain t⟩)

/-- Takes the next header of a chain and gives the new root. -/
def update {σ : Type} [ChainStore σ] (ts : Trackers) (store : σ) (chain : AccountName)
    (h : Header) : Except RelayError Digest × Trackers × σ :=
  match ts.tracker store chain with
  | .error e => (.error e, ts, store)
  | .ok (t, ts) =>
    let outcome := t.update store h
    (outcome.result, ⟨ts.live.insert chain outcome.tracker⟩, outcome.store)

end Trackers

end LightClient
