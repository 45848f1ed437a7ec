import LightClient.Merkle.Accumulator
import LightClient.Relay.Error

/-!
Trackers: the accumulator over the block ids of one chain. Headers are taken strictly in order,
and the new state is stored before it is the tracker's own.
-/

namespace LightClient

/-- The blocks that a tracker has taken. -/
structure Span where
  first : UInt32
  head : UInt32
  headId : Digest
  deriving DecidableEq

structure Tracker where
  chain : AccountName
  accumulator : Merkle.Accumulator
  /-- None before the first block. -/
  span : Option Span
  deriving DecidableEq

namespace Tracker

/-- The tracker of a chain before its first block. -/
def start (chain : AccountName) : Tracker :=
  ⟨chain, .empty, none⟩

/-- The root over all block ids; before the first block it is the zero digest. -/
def root (t : Tracker) : Digest :=
  t.accumulator.root

def head? (t : Tracker) : Option UInt32 :=
  t.span.map (·.head)

/-- Whether the blocks from first to head are as many as the leaves. -/
def countFits (first head : UInt32) (leaves : UInt64) : Bool :=
  first ≤ head && leaves.toNat = head.toNat - first.toNat + 1

/-- The tracker of a chain as it is stored. The stored parts are checked against each other. -/
def restore {σ : Type} [ChainStore σ] (store : σ) (chain : AccountName) :
    Except RelayError Tracker := do
  match ← (loadChain store chain).mapError RelayError.store with
  | none => return .start chain
  | some snapshot =>
    let accumulator ← (Merkle.Accumulator.decode snapshot.frontier).mapError .merkle
    if !countFits snapshot.first snapshot.head accumulator.leafCount then
      throw (.corrupt chain (.leafCount snapshot.first snapshot.head accumulator.leafCount))
    match ← (getBlock store chain snapshot.head).mapError RelayError.store with
    | none => throw (.unknownBlock chain snapshot.head)
    | some record =>
      if record.root ≠ accumulator.root ∨ record.id ≠ snapshot.headId then
        throw (.corrupt chain (.headBlock snapshot.head))
      return ⟨chain, accumulator, some ⟨snapshot.first, snapshot.head, snapshot.headId⟩⟩

/-- Checks that a header is the next one. The first header of all always is. -/
def accepts (t : Tracker) (h : Header) : Except RelayError Unit :=
  match t.span with
  | none => .ok ()
  | some span =>
    if span.head.toNat + 1 ≠ h.blockNum.toNat then
      .error (.outOfOrder t.chain (span.head + 1) h.blockNum)
    else if h.previous ≠ span.headId then
      .error (.previousMismatch t.chain h.blockNum span.headId h.previous)
    else .ok ()

/-- The blocks taken once this header is taken too. -/
def extendSpan (t : Tracker) (h : Header) : Span :=
  ⟨(t.span.map (·.first)).getD h.blockNum, h.blockNum, h.id⟩

/-- The accumulator and the blocks taken once this header is taken too. -/
def next (t : Tracker) (h : Header) : Except RelayError (Merkle.Accumulator × Span) := do
  t.accepts h
  let accumulator ← (t.accumulator.append h.id).mapError .merkle
  return (accumulator, t.extendSpan h)

/-- The snapshot of a chain in this state. -/
def snapshot (chain : AccountName) (accumulator : Merkle.Accumulator) (span : Span) : Snapshot :=
  ⟨chain, span.first, span.head, span.headId, accumulator.encode⟩

/-- What an update gives: its result, and the tracker and the store after it. -/
structure Outcome (σ : Type) where
  result : Except RelayError Digest
  tracker : Tracker
  store : σ

/-- Takes the next header and gives the new root. -/
def update {σ : Type} [ChainStore σ] (t : Tracker) (store : σ) (h : Header) : Outcome σ :=
  match t.next h with
  | .error e => ⟨.error e, t, store⟩
  | .ok (accumulator, span) =>
    let record : BlockRecord := ⟨span.head, span.headId, accumulator.root, h⟩
    match appendBlock store (snapshot t.chain accumulator span) record with
    | (.error e, store) => ⟨.error (.store e), t, store⟩
    | (.ok _, store) => ⟨.ok accumulator.root, ⟨t.chain, accumulator, some span⟩, store⟩

end Tracker

end LightClient
