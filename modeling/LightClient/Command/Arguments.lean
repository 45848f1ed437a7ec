import LightClient.Digest
import LightClient.Block.AccountName
import LightClient.Text.Basic

/-!
The commands, and reading them from the words of a command line.
-/

namespace LightClient

inductive Command where
  | track (chain : AccountName) (headers : String)
  /-- Show the root after a block, or after the last one. -/
  | root (chain : AccountName) (blockNum : Option UInt32)
  /-- Prove a block against an anchor block, or against the last one; the proof goes to a file or
  to the output. -/
  | proveBlock (chain : AccountName) (blockNum : UInt32) (anchor : Option UInt32)
      (proof : Option String)
  /-- Verify the proof in a file against a root, or against the one that is stored. -/
  | verify (proof : String) (root : Option Digest)
  deriving DecidableEq

/-- A command and the place of the database, if one is named. -/
structure Invocation where
  database : Option String
  command : Command
  deriving DecidableEq

inductive UsageError where
  | noCommand
  | unknownCommand (word : String)
  | unexpected (word : String)
  | noValue (flag : String)
  | repeated (flag : String)
  | missing (flag : String)
  | badValue (flag value reason : String)
  deriving DecidableEq

def UsageError.message : UsageError → String
  | .noCommand => "a command is required: track, root, prove-block or verify"
  | .unknownCommand word => "unknown command " ++ Quoted.text word
  | .unexpected word => "unexpected argument " ++ Quoted.text word
  | .noValue flag => s!"a value is required for --{flag}"
  | .repeated flag => s!"--{flag} cannot be used more than once"
  | .missing flag => s!"--{flag} is required"
  | .badValue flag value reason =>
    "invalid value " ++ Quoted.text value ++ s!" for --{flag}: {reason}"

namespace UsageError

def exitCode : UInt32 := 2

end UsageError

abbrev Flags := List (String × String)

namespace Flags

/-- The name of a flag, and its value if it is in the same word. -/
def split? (word : String) : Option (String × Option String) :=
  match word.toList with
  | '-' :: '-' :: cs =>
    let name := cs.takeWhile (· ≠ '=')
    match cs.drop name.length with
    | [] => some (String.ofList name, none)
    | _ :: value => some (String.ofList name, some (String.ofList value))
  | _ => none

/-- Adds a flag that is known and was not given before. -/
def add (known : List String) (name value : String) (before : Flags) : Except UsageError Flags :=
  if !known.contains name then .error (.unexpected s!"--{name}")
  else if before.any (·.1 = name) then .error (.repeated name)
  else .ok ((name, value) :: before)

/-- Reads flags up to the first word that is none; `given` are those before. A value is in the same
word, behind an equals sign, or it is the next word. -/
def scan (known : List String) (given : Flags) :
    List String → Except UsageError (Flags × List String)
  | [] => .ok (given, [])
  | word :: rest =>
    match split? word, rest with
    | none, _ => .ok (given, word :: rest)
    | some (name, some value), rest => do
      let given ← add known name value given
      scan known given rest
    | some (name, none), value :: rest =>
      if value.startsWith "-" then .error (.noValue name)
      else do
        let given ← add known name value given
        scan known given rest
    | some (name, none), [] =>
      if known.contains name then .error (.noValue name) else .error (.unexpected s!"--{name}")

def value? {α : Type} (flags : Flags) (name : String) (parse : String → Except String α) :
    Except UsageError (Option α) :=
  match flags.lookup name with
  | none => .ok none
  | some text =>
    match parse text with
    | .ok a => .ok (some a)
    | .error reason => .error (.badValue name text reason)

def value {α : Type} (flags : Flags) (name : String) (parse : String → Except String α) :
    Except UsageError α := do
  match ← flags.value? name parse with
  | some a => return a
  | none => throw (.missing name)

/-- The path of a file, which must not be empty. -/
def path (text : String) : Except String String :=
  if text.isEmpty then .error "a path is required" else .ok text

def chain (text : String) : Except String AccountName :=
  (AccountName.ofText text).mapError (·.message)

/-- A block number. It may have a sign, also a minus sign if it is zero. -/
def blockNum (text : String) : Except String UInt32 :=
  match decimal? text with
  | some (.ofNat n) => if n < UInt32.size then .ok (UInt32.ofNat n) else .error "number too large"
  | some (.negSucc _) => .error "number below zero"
  | none => .error "not a number"

def digest (text : String) : Except String Digest :=
  (Digest.ofHex text).mapError (·.message)

end Flags

namespace Command

def flagsOf (name : String) : Except UsageError (List String) :=
  if name = "track" then .ok ["chain", "headers-path"]
  else if name = "root" then .ok ["chain", "block-num"]
  else if name = "prove-block" then .ok ["chain", "block-num", "anchor-block-num", "proof-path"]
  else if name = "verify" then .ok ["proof-path", "anchor-root"]
  else .error (.unknownCommand name)

def ofFlags (name : String) (flags : Flags) : Except UsageError Command := do
  if name = "track" then
    let chain ← flags.value "chain" Flags.chain
    let headers ← flags.value "headers-path" Flags.path
    return .track chain headers
  else if name = "root" then
    let chain ← flags.value "chain" Flags.chain
    let blockNum ← flags.value? "block-num" Flags.blockNum
    return .root chain blockNum
  else if name = "prove-block" then
    let chain ← flags.value "chain" Flags.chain
    let blockNum ← flags.value "block-num" Flags.blockNum
    let anchor ← flags.value? "anchor-block-num" Flags.blockNum
    let proof ← flags.value? "proof-path" Flags.path
    return .proveBlock chain blockNum anchor proof
  else if name = "verify" then
    let proof ← flags.value "proof-path" Flags.path
    let root ← flags.value? "anchor-root" Flags.digest
    return .verify proof root
  else throw (.unknownCommand name)

end Command

namespace Invocation

def defaultDatabase : String := "./.relay_data/relay.db"

/-- Reads a command line: flags for all commands, a command, and its own flags. -/
def ofWords (words : List String) : Except UsageError Invocation := do
  let (shared, rest) ← Flags.scan ["db-path", "log-level"] [] words
  match rest with
  | [] => throw .noCommand
  | name :: rest =>
    let known ← Command.flagsOf name
    let (flags, rest) ← Flags.scan known [] rest
    match rest with
    | word :: _ => throw (.unexpected word)
    | [] =>
      let database ← shared.value? "db-path" Flags.path
      let command ← Command.ofFlags name flags
      return ⟨database, command⟩

end Invocation

end LightClient
