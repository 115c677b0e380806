import SessionBroker.CommandLine.Arguments
import SessionBroker.Broker.World

/-!
# Settings

Settings come from a file, from the environment and from the command line; each value is taken from
the last of these that gives it. The file is a JSON document with a section for each concern, and
every section and value may be left out.
-/

namespace SessionBroker

open Text

/-- The settings of the program. -/
structure Settings where
  /-- The text of the oldest version that is accepted; not necessarily a version. -/
  minimumVersion : String
  probes : Bool
  restartsLoop : Bool
  capacity : Nat
  level : String
  deriving DecidableEq, Repr

namespace Settings

/-- The settings that hold if nothing else is said. -/
def standard : Settings := ⟨"5.1", true, true, 256, "info"⟩

/-- The bound of a capacity. -/
def capacityBound : Nat := UInt64.size

/-! ## The file -/

def executionFields : Json.Scan.Fields Settings where
  names := ["minimum_engine_version", "probe_after_execution"]
  required := false
  read := fun name s input =>
    if name = "minimum_engine_version" then
      (Json.Scan.text input).map fun (v, r) => ({ s with minimumVersion := v }, r)
    else (Json.Scan.truth input).map fun (v, r) => ({ s with probes := v }, r)

def debuggerFields : Json.Scan.Fields Settings where
  names := ["restart_read_loop_after_resume"]
  required := false
  read := fun _ s input =>
    (Json.Scan.truth input).map fun (v, r) => ({ s with restartsLoop := v }, r)

def eventsFields : Json.Scan.Fields Settings where
  names := ["capacity"]
  required := false
  read := fun _ s input =>
    (Json.Scan.natural capacityBound input).map fun (v, r) => ({ s with capacity := v }, r)

def loggingFields : Json.Scan.Fields Settings where
  names := ["level"]
  required := false
  read := fun _ s input => (Json.Scan.text input).map fun (v, r) => ({ s with level := v }, r)

def fields : Json.Scan.Fields Settings where
  names := ["execution", "debugger", "events", "logging"]
  required := false
  read := fun name s input =>
    if name = "execution" then Json.Scan.record executionFields s input
    else if name = "debugger" then Json.Scan.record debuggerFields s input
    else if name = "events" then Json.Scan.record eventsFields s input
    else Json.Scan.record loggingFields s input

def ofText (s : String) : Except Json.Fault Settings :=
  Json.Scan.whole (Json.Scan.record fields standard) s.toList

def toJson (s : Settings) : Json.Value :=
  .object [("debugger", .object [("restart_read_loop_after_resume", .bool s.restartsLoop)]),
    ("events", .object [("capacity", .ofNat s.capacity)]),
    ("execution", .object [("minimum_engine_version", .string s.minimumVersion),
      ("probe_after_execution", .bool s.probes)]),
    ("logging", .object [("level", .string s.level)])]

/-! ## The environment and the command line -/

/-- Variables by name, with values that need not be UTF-8. -/
abbrev Environment := List (String × Bytes)

/-- The text of a variable; nothing if it is not set or not UTF-8. -/
def Environment.text? (env : Environment) (name : String) : Option String :=
  (env.find? (·.1 = name)).bind fun p => Utf8.strict? p.2

/-- Takes the level and the oldest version from the environment. An empty version counts as none. -/
def withEnvironment (s : Settings) (env : Environment) : Settings :=
  let level := (env.text? "RUNSPACE_COORDINATOR_LOG_LEVEL").or (env.text? "RUST_LOG")
  let version := (env.text? "RUNSPACE_COORDINATOR_MIN_ENGINE_VERSION").filter (!·.isEmpty)
  { s with level := level.getD s.level, minimumVersion := version.getD s.minimumVersion }

/-- Takes from the command line what it gives. -/
def withArguments (s : Settings) (a : CommandLine.Arguments) : Settings :=
  { s with
    level := a.logLevel.getD s.level
    minimumVersion := a.minimumVersion.getD s.minimumVersion
    probes := s.probes && !a.noProbe }

/-! ## Loading -/

/-- Why a file cannot be read. -/
inductive FileFault where
  | notFound
  | isDirectory
  deriving DecidableEq, Repr

abbrev Files := String → Except FileFault Bytes

inductive LoadFault where
  | unreadable (fault : FileFault)
  /-- The file is not UTF-8. -/
  | notText
  | document (fault : Json.Fault)
  deriving DecidableEq, Repr

/-- What is said of settings that cannot be loaded. -/
def LoadFault.message : LoadFault → String
  | .unreadable .notFound => "failed to read config file: No such file or directory (os error 2)"
  | .unreadable .isDirectory => "failed to read config file: Is a directory (os error 21)"
  | .notText => "failed to read config file: stream did not contain valid UTF-8"
  | .document .malformed => "failed to parse config file: malformed document"
  | .document .truncated => "failed to parse config file: the document ends early"
  | .document .mistyped => "failed to parse config file: a value does not fit"

/-- Reads the file that the command line names. -/
def ofFile (files : Files) (path : String) : Except LoadFault Settings :=
  match files path with
  | .error f => .error (.unreadable f)
  | .ok bytes =>
    match Utf8.strict? bytes with
    | none => .error .notText
    | some s => (ofText s).mapError .document

/-- Loads the settings: the command line counts before the environment, that before the file, and
the file before the standard settings. -/
def load (a : CommandLine.Arguments) (env : Environment) (files : Files) :
    Except LoadFault Settings := do
  let s ← match a.config with
    | some path => ofFile files path
    | none => .ok standard
  return (s.withEnvironment env).withArguments a

/-- What is said of settings whose oldest version is none. -/
def badVersionText (s : Settings) : String := s!"invalid engine version: {s.minimumVersion}"

/-- The part of the settings that a broker needs; nothing if the oldest version is none. -/
def broker? (s : Settings) : Option BrokerSettings :=
  (Version.parse? s.minimumVersion).map fun v => ⟨v, s.probes, s.restartsLoop, s.capacity⟩

end Settings

end SessionBroker
