import SessionBroker.Engine.Version
import SessionBroker.Session.Id
import SessionBroker.Session.Identity
import SessionBroker.Text.Inspect

/-!
# Sessions

A session is a conversation with an interpreter: the engine that answers, who it said it was when
the session began, and how the session came about.
-/

namespace SessionBroker

abbrev EngineName := String

/-- Where a session runs, seen from the host. -/
inductive Location where
  | near
  | remote
  deriving DecidableEq, Repr

/-- How a session came to be current. -/
inductive Origin where
  /-- The host created it or pushed it itself. -/
  | host
  /-- A command entered another process on the same machine. -/
  | enteredProcess
  /-- The debugger stopped inside another session. -/
  | debugged
  deriving DecidableEq, Repr

def Location.name : Location → String
  | .near => "Local"
  | .remote => "Remote"

def Origin.name : Origin → String
  | .host => "Original"
  | .enteredProcess => "EnteredProcess"
  | .debugged => "DebuggedSession"

/-- One session. -/
structure Session where
  id : SessionId
  location : Location
  origin : Origin
  version : Version
  /-- How a remote session was reached. -/
  connection : Option String
  /-- Who answered when the session became current. -/
  identity : Identity
  engine : EngineName
  /-- Whether the engine is closed when the session ends. -/
  ownsEngine : Bool
  deriving DecidableEq, Repr

namespace Session

/-- A session of the host with an engine of its own process. -/
def ofHost (id : SessionId) (engine : EngineName) (version : Version) (identity : Identity)
    (ownsEngine : Bool) : Session :=
  ⟨id, .near, .host, version, none, identity, engine, ownsEngine⟩

/-- A session of the host with a remote engine, which it owns. -/
def ofRemote (id : SessionId) (engine : EngineName) (version : Version) (identity : Identity)
    (connection : String) : Session :=
  ⟨id, .remote, .host, version, some connection, identity, engine, true⟩

/-- Whether the broker's hooks belong on the session's engine: in every session of the host, and
in an entered process as long as it is local. -/
def ownsHooks (s : Session) : Bool :=
  match s.location, s.origin with
  | .near, .host => true
  | .near, .enteredProcess => true
  | .remote, .host => true
  | _, _ => false

def isOutOfProcess (s : Session) : Bool := s.location = .remote || s.origin ≠ .host

/-- The part of a session that notices carry. -/
def summary (s : Session) : Json.Value :=
  .object [("connectionString", (s.connection.map .string).getD .null),
    ("context", .string s.origin.name), ("details", s.identity.toJson), ("id", .string s.id.text),
    ("location", .string s.location.name), ("version", .string s.version.text)]

def truthText (b : Bool) : String := if b then "true" else "false"

def inspect (s : Session) : String :=
  let connection := match s.connection with
    | none => "None"
    | some c => "Some(" ++ Text.Inspect.string c ++ ")"
  "SessionInfo \x7b id: SessionId(" ++ toString s.id.val ++ "), location: " ++ s.location.name
    ++ ", context: " ++ s.origin.name ++ ", version: EngineVersion \x7b major: "
    ++ toString s.version.major ++ ", minor: " ++ toString s.version.minor
    ++ " \x7d, connection_string: " ++ connection ++ ", details: SessionDetails \x7b process_id: "
    ++ toString s.identity.process ++ ", instance_id: "
    ++ Text.Inspect.string s.identity.instanceName ++ ", machine_name: "
    ++ Text.Inspect.string s.identity.machine ++ " \x7d, owns_runspace: "
    ++ truthText s.ownsEngine ++ ", .. \x7d"

end Session

end SessionBroker
