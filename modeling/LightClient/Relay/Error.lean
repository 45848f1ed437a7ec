import LightClient.Merkle.Error
import LightClient.Relay.Store

/-!
Why tracking a chain, or proving a block of it, fails.
-/

namespace LightClient

/-- How the stored parts of a chain disagree. -/
inductive ChainCorruption where
  | leafCount (first head : UInt32) (leaves : UInt64)
  | headBlock (head : UInt32)
  | missingIds (expected found : Nat)
  deriving DecidableEq

def ChainCorruption.text : ChainCorruption → String
  | .leafCount first head leaves =>
    s!"blocks {first}..={head} do not match {leaves} accumulated leaves"
  | .headBlock head => s!"stored head block {head} disagrees with the accumulator"
  | .missingIds expected found => s!"expected {expected} stored block ids, found {found}"

inductive RelayError where
  | store (e : StoreError)
  | merkle (e : Merkle.Error)
  | corrupt (chain : AccountName) (what : ChainCorruption)
  | unknownChain (chain : AccountName)
  | unknownBlock (chain : AccountName) (blockNum : UInt32)
  | outOfOrder (chain : AccountName) (expected got : UInt32)
  | previousMismatch (chain : AccountName) (blockNum : UInt32) (headId previous : Digest)
  | outOfRange (chain : AccountName) (blockNum first anchor : UInt32)
  deriving DecidableEq

def RelayError.message : RelayError → String
  | .store e => e.message
  | .merkle e => e.message
  | .corrupt chain what => s!"structural corruption: chain {chain}: " ++ what.text
  | .unknownChain chain => s!"chain {chain} is not tracked"
  | .unknownBlock chain blockNum => s!"block {blockNum} of chain {chain} is not stored"
  | .outOfOrder chain expected got => s!"chain {chain}: expected block {expected}, got {got}"
  | .previousMismatch chain blockNum headId previous =>
    s!"chain {chain}: block {blockNum} does not extend head {headId}, previous is {previous}"
  | .outOfRange chain blockNum first anchor =>
    s!"chain {chain}: block {blockNum} is outside the provable range {first}..={anchor}"

end LightClient
