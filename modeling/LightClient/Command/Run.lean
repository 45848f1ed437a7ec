import LightClient.Command.Arguments
import LightClient.Evidence.Verify
import LightClient.Relay.Prover
import LightClient.Relay.TableStore
import LightClient.Relay.Tracker

/-!
Running a command on a database: what it prints, and the database after it.
-/

namespace LightClient.Command

inductive Error where
  | noFile
  | json (e : Json.Error)
  | relay (e : RelayError)
  | verify (e : VerifyError)
  | nothingTracked (chain : AccountName)
  deriving DecidableEq

def Error.message : Error → String
  | .noFile => "No such file or directory (os error 2)"
  | .json .malformed => "the file is no JSON of its type"
  | .json (.refused reason) => reason
  | .relay e => e.message
  | .verify e => e.message
  | .nothingTracked chain => s!"No headers ingested for chain {chain}"

def Error.exitCode : UInt32 := 1

inductive Output where
  | printed (text : String)
  | saved (path text : String)
  deriving DecidableEq

structure Summary where
  chain : AccountName
  head : UInt32
  headId : Digest
  root : Digest
  ingested : Nat
  deriving DecidableEq

/-- The summary in JSON, its members in ascending order of their names. -/
def Summary.json (s : Summary) : Json :=
  .object [
    ("chain", toJson s.chain),
    ("head_block_num", toJson s.head),
    ("head_id", toJson s.headId),
    ("ingested", .integer s.ingested),
    ("root", toJson s.root)]

/-- Takes headers one by one and counts them, up to the first that is refused. Those at or below
the head are skipped. -/
def ingest {σ : Type} [ChainStore σ] (t : Tracker) (store : σ) (count : Nat) :
    List Header → Except RelayError (Tracker × Nat) × σ
  | [] => (.ok (t, count), store)
  | h :: rest =>
    if t.head?.any (h.blockNum ≤ ·) then ingest t store count rest
    else
      let outcome := t.update store h
      match outcome.result with
      | .ok _ => ingest outcome.tracker outcome.store (count + 1) rest
      | .error e => (.error e, outcome.store)

/-- Tracks headers from where the stored chain stands. -/
def trackHeaders {σ : Type} [ChainStore σ] (store : σ) (chain : AccountName)
    (headers : List Header) : Except Error Summary × σ :=
  match Tracker.restore store chain with
  | .error e => (.error (.relay e), store)
  | .ok t =>
    match ingest t store 0 headers with
    | (.error e, store) => (.error (.relay e), store)
    | (.ok (t, count), store) =>
      match t.span with
      | none => (.error (.nothingTracked chain), store)
      | some span => (.ok ⟨chain, span.head, span.headId, t.root, count⟩, store)

def printed (j : Json) : Output :=
  .printed (j.pretty ++ "\n")

def readFile {α : Type} [JsonForm α] (file : Option String) : Except Error α :=
  match file with
  | none => .error .noFile
  | some text => (Json.decodeText text).mapError .json

def load {σ : Type} [ChainStore σ] (store : σ) (chain : AccountName) : Except Error Snapshot := do
  match ← (loadChain store chain).mapError fun e => Error.relay (.store e) with
  | some snapshot => return snapshot
  | none => throw (.relay (.unknownChain chain))

/-- The root after a block, or after the last one. -/
def showRoot {σ : Type} [ChainStore σ] (store : σ) (chain : AccountName)
    (blockNum : Option UInt32) : Except Error Output := do
  let snapshot ← load store chain
  let blockNum := blockNum.getD snapshot.head
  let root ← (Prover.anchorRoot store chain blockNum).mapError .relay
  return printed (.object [
    ("block_num", toJson blockNum),
    ("chain", toJson chain),
    ("first_block_num", toJson snapshot.first),
    ("root", toJson root)])

/-- The proof of a block against an anchor block, or against the last one. -/
def showProof {σ : Type} [ChainStore σ] (store : σ) (chain : AccountName) (blockNum : UInt32)
    (anchor : Option UInt32) (path : Option String) : Except Error Output := do
  let anchor ← match anchor with
    | some anchor => pure anchor
    | none => (·.head) <$> load store chain
  let proof ← (Prover.proveBlock store chain blockNum anchor).mapError .relay
  match path with
  | some path => return .saved path (toJson proof).pretty
  | none => return printed (toJson proof)

/-- What a verified proof establishes; without a root, the one stored for the proof's anchor block
is trusted. -/
def showVerified {σ : Type} [ChainStore σ] (store : σ) (file : Option String)
    (root : Option Digest) : Except Error Output := do
  let proof : CrossChainProof ← readFile file
  let root ← match root with
    | some root => pure root
    | none => (Prover.anchorRoot store proof.chain proof.block.anchor).mapError .relay
  let verified ← (proof.verify root .standard).mapError .verify
  return printed (toJson verified)

/-- Runs a command. `files` gives the text of a file, if it exists. -/
def run (files : String → Option String) (command : Command) (store : TableStore) :
    Except Error Output × TableStore :=
  match command with
  | .track chain headers =>
    match readFile (files headers) with
    | .error e => (.error e, store)
    | .ok headers =>
      let (result, store) := trackHeaders store chain headers
      (result.map fun summary => printed summary.json, store)
  | .root chain blockNum => (showRoot store chain blockNum, store)
  | .proveBlock chain blockNum anchor path => (showProof store chain blockNum anchor path, store)
  | .verify proof trusted => (showVerified store (files proof) trusted, store)

end LightClient.Command
