import SessionBroker.Shell.Program

/-!
# The command line

The program as it is run: it takes its arguments, environment and files from the system, and reads
lines while the shell waits for them.
-/

open SessionBroker

namespace SessionBroker.Shell

/-- The environment names that the settings look at. -/
def readNames : List String :=
  ["RUNSPACE_COORDINATOR_LOG_LEVEL", "RUST_LOG", "RUNSPACE_COORDINATOR_MIN_ENGINE_VERSION"]

/-- The environment, as far as it matters. -/
def environment : IO Settings.Environment := do
  let found ← readNames.mapM fun name => do
    let value ← IO.getEnv name
    return value.map fun v => (name, Text.Utf8.encode v)
  return found.filterMap id

def fileAt (path : String) : IO (Except Settings.FileFault Text.Bytes) := do
  try
    let bytes ← IO.FS.readBinFile path
    return .ok bytes.toList
  catch _ => return .error .notFound

def put (t : Transcript) : IO Unit := do
  IO.print t.output
  IO.eprint t.errors
  (← IO.getStdout).flush

/-- Reads lines until the shell has ended. -/
partial def attend (c : BrokerConfig) : IO UInt32 := do
  let t := transcript c
  put t
  match t.code with
  | some code => return code.toUInt32
  | none =>
    let line ← (← IO.getStdin).getLine
    if line.isEmpty then attend (feed none c) else attend (feed (linesOf line).head? c)

end SessionBroker.Shell

def main (args : List String) : IO UInt32 := do
  let args := args.map Text.Utf8.encode
  let env ← Shell.environment
  let file ← match CommandLine.parse args with
    | .ok ⟨some path, _, _, _, _, _⟩ => Shell.fileAt path
    | _ => pure (.error .notFound)
  match Shell.begin args env fun _ => file with
  | .error t =>
    Shell.put t
    return (t.code.getD 0).toUInt32
  | .ok settings =>
    match Shell.start settings [] false with
    | .error f =>
      Shell.put (Shell.Transcript.empty.fail f.message)
      return 1
    | .ok c => Shell.attend c
