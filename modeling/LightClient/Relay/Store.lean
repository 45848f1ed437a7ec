import LightClient.Relay.Record

/-!
Stores of tracked chains, and what can go wrong in one.
-/

namespace LightClient

inductive StoreError where
  /-- A column holds bytes where a text belongs. -/
  | columnType
  | snapshot (e : Json.Error)
  | digest (e : Digest.ParseError)
  | header (e : DecodeError)
  | chainName (e : AccountName.ParseError)
  /-- The block was not recorded, for this reason. -/
  | refused (reason : String)
  deriving DecidableEq

/-- A decode error with its parts, as messages of a store show it. -/
def DecodeError.parts : DecodeError → String
  | .unexpectedEnd field => "UnexpectedEnd \x7b field: " ++ Quoted.text field ++ " \x7d"
  | .invalidVaruint field => "InvalidVarint \x7b field: " ++ Quoted.text field ++ " \x7d"
  | .invalidLength field length remaining =>
    "InvalidLength \x7b field: " ++ Quoted.text field ++
      s!", len: {length}, remaining: {remaining}" ++ " \x7d"
  | .invalidValue field value =>
    "InvalidValue \x7b field: " ++ Quoted.text field ++ s!", value: {value}" ++ " \x7d"
  | .trailingBytes record remaining =>
    "TrailingBytes \x7b record: " ++ Quoted.text record ++ s!", remaining: {remaining}" ++ " \x7d"

/-- The cause of a failure with its parts. -/
def StoreError.cause : StoreError → String
  | .columnType => "a column holds bytes where a text belongs"
  | .snapshot .malformed => "the snapshot is no JSON of its type"
  | .snapshot (.refused reason) => Quoted.text reason
  | .digest e => "MalformedInput(" ++ Quoted.text e.reason ++ ")"
  | .header e => "Decode(" ++ e.parts ++ ")"
  | .chainName e =>
    "InvalidName \x7b name: " ++ Quoted.text e.text ++ ", reason: " ++
      Quoted.text e.fault.reason ++ " \x7d"
  | .refused reason => Quoted.text reason

def StoreError.message : StoreError → String
  | .columnType => "SQLite error: " ++ StoreError.cause .columnType
  | e => "Custom error: " ++ e.cause

/-- A store of tracked chains. Reading does not change it. -/
class ChainStore (σ : Type) where
  /-- Where a chain stands; none if it was never tracked. -/
  loadChain : σ → AccountName → Except StoreError (Option Snapshot)
  /-- Records a block together with the snapshot that includes it, or neither. -/
  appendBlock : σ → Snapshot → BlockRecord → Except StoreError Unit × σ
  getBlock : σ → AccountName → UInt32 → Except StoreError (Option BlockRecord)
  /-- The ids of the blocks from one number to another, both included, in their order. -/
  blockIds : σ → AccountName → UInt32 → UInt32 → Except StoreError (List Digest)
  /-- The chains that have a snapshot, in the order of their texts. -/
  listChains : σ → Except StoreError (List AccountName)

export ChainStore (loadChain appendBlock getBlock blockIds listChains)

end LightClient
