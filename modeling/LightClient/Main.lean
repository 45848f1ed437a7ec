import LightClient.Command.Run
import LightClient.Relay.Image

/-!
The command line. The database is one file; its place is named by a flag, else by an environment
variable, else it is the usual one.
-/

open LightClient

def readText? (path : String) : IO (Option String) := do
  try
    let text ← IO.FS.readFile path
    return some text
  catch _ => return none

/-- The path without its last part; none if it has just one. -/
def parentOf (path : String) : Option String :=
  match (path.toList.reverse.dropWhile (· ≠ '/')).drop 1 with
  | [] => none
  | rest => some (String.ofList rest.reverse)

def openDatabase (path : String) : IO TableStore := do
  match ← readText? path with
  | none => return .empty
  | some text =>
    match TableStore.ofImage text with
    | .ok store => return store
    | .error _ => throw (IO.userError s!"{path} holds no database")

def closeDatabase (path : String) (store : TableStore) : IO Unit := do
  match parentOf path with
  | some parent => IO.FS.createDirAll parent
  | none => pure ()
  IO.FS.writeFile path store.image

def inputOf : Command → Option String
  | .track _ headers => some headers
  | .verify proof _ => some proof
  | _ => none

/-- Runs a command on the database at this path. -/
def runCommand (path : String) (command : Command) : IO UInt32 := do
  let store ← openDatabase path
  let text ← match inputOf command with
    | some file => readText? file
    | none => pure none
  let (result, after) := Command.run (fun _ => text) command store
  if after ≠ store then closeDatabase path after
  match result with
  | .ok (.printed text) =>
    IO.print text
    return 0
  | .ok (.saved file text) =>
    IO.FS.writeFile file text
    return 0
  | .error e =>
    IO.eprintln e.message
    return Command.Error.exitCode

def main (words : List String) : IO UInt32 := do
  match Invocation.ofWords words with
  | .error e =>
    IO.eprintln e.message
    return UsageError.exitCode
  | .ok invocation =>
    let named ← IO.getEnv "IBC_RELAY_DB"
    let path := invocation.database.getD (named.getD Invocation.defaultDatabase)
    runCommand path invocation.command
