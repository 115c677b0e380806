import SessionBroker.CommandLine.Help
import SessionBroker.CommandLine.Settings
import SessionBroker.Scenario.Flows

/-!
# The program

An interactive shell over one scripted engine: it reads its settings, starts a broker and runs the
lines of its input.
-/

namespace SessionBroker.Shell

def engineName : EngineName := "shell"

/-- The stop that a command of the shell's engine makes. -/
def breakEvent : StopEvent := ⟨some "interactive", some 1, []⟩

/-- The engine that answers in the shell. -/
def demoEngine : Engine :=
  .new ⟨7, 4⟩ ⟨1, "loopback-0", "localhost"⟩
    [("Get-Date", .output [.string "Monday, January 1, 2024 12:00:00 PM"]),
      ("Start-Sleep", .block), ("throw", .throw "ScriptHalted"),
      ("Wait-Debugger", .break breakEvent)]

/-- A host that shows a prompt and has these lines to read. -/
def host (lines : List String) (ended : Bool) : Host :=
  { Host.new with prompt := some prompt, lines := lines, ended := ended }

/-- The world of the shell before anything happens. -/
def world (settings : BrokerSettings) (lines : List String) (ended : Bool) : World :=
  .new settings [(engineName, ⟨demoEngine, false, none, none⟩)] engineName (host lines ended)

/-- What a program wrote and how it ended; no code as long as it runs. -/
structure Transcript where
  code : Option Nat
  output : String
  errors : String
  deriving DecidableEq, Repr

namespace Transcript

def empty : Transcript := ⟨none, "", ""⟩

def add (t : Transcript) : HostCall → Transcript
  | .write .normal text newline =>
    { t with output := t.output ++ text ++ if newline then "\n" else "" }
  | .write .error text newline =>
    { t with errors := t.errors ++ text ++ if newline then "\n" else "" }
  | _ => t

def fail (t : Transcript) (message : String) : Transcript :=
  { t with code := some 1, errors := t.errors ++ "error: " ++ message ++ "\n" }

end Transcript

/-- What a client's request came to, if it has ended. -/
def reportOf? (c : BrokerConfig) (name : String) : Option Report :=
  (c.shared.reports.find? (·.1 = name)).map (·.2)

/-- The names under which the shell's requests report. -/
def setUpName : String := "set up"
def attachName : String := "attach"
def loopName : String := "shell"

/-- Starts a broker on the shell's engine and the loop that reads lines. -/
def start (settings : BrokerSettings) (lines : List String) (ended : Bool) :
    Except Failure BrokerConfig :=
  let c := Scenario.launch (.serveClient setUpName (.setUp engineName true))
    (Scenario.still (world settings lines ended))
  match reportOf? c setUpName with
  | some (.lease (.error f)) => .error f
  | _ =>
    let c := Scenario.launch (.serveClient attachName (.attach true)) c
    .ok (Scenario.launch (.serveClient loopName .shell) c)

/-- What the shell wrote since the last time, and how it ended. -/
def transcript (c : BrokerConfig) : Transcript :=
  let t := c.shared.host.calls.reverse.foldl Transcript.add .empty
  match reportOf? c loopName with
  | some (.lease (.ok _)) => { t with code := some 0 }
  | some (.lease (.error f)) => t.fail f.message
  | _ => t

/-- Gives the shell its next line, or tells it that there is none. -/
def feed (line : Option String) (c : BrokerConfig) : BrokerConfig :=
  Scenario.settle (Scenario.touch (fun w =>
    let h := match line with
      | some l => { w.host with lines := w.host.lines ++ [l] }
      | none => { w.host with ended := true }
    { w with host := { h with calls := [] } }) c)

/-- What the program does before it reads a line: it ends at once, or goes on with settings. -/
def begin (args : List Text.Bytes) (env : Settings.Environment) (files : Settings.Files) :
    Except Transcript BrokerSettings :=
  match CommandLine.parse args with
  | .error f => .error ⟨some 2, "", "error: " ++ f.message ++ "\n" ++ CommandLine.hintText⟩
  | .ok a =>
    if a.help then .error ⟨some 0, CommandLine.helpText, ""⟩
    else if a.version then .error ⟨some 0, CommandLine.versionText, ""⟩
    else match Settings.load a env files with
    | .error f => .error (Transcript.empty.fail f.message)
    | .ok s =>
      match s.broker? with
      | none => .error (Transcript.empty.fail s.badVersionText)
      | some b => .ok b

/-- The lines of an input: a line feed ends each, with or without a carriage return before it. -/
def linesOf (input : String) : List String :=
  let cut (s : List Char) : List Char := if s.getLast? = some '\r' then s.dropLast else s
  let parts := input.toList.foldr (fun c acc => match acc with
    | [] => [[c]]
    | p :: rest => if c = '\n' then [] :: p :: rest else (c :: p) :: rest) [[]]
  match parts.reverse with
  | [] :: rest => rest.reverse.map fun p => String.ofList (cut p)
  | _ => parts.map fun p => String.ofList (cut p)

/-- Runs the program on a whole input. -/
def run (args : List Text.Bytes) (env : Settings.Environment) (files : Settings.Files)
    (input : String) : Transcript :=
  match begin args env files with
  | .error t => t
  | .ok settings =>
    match start settings (linesOf input) true with
    | .error f => Transcript.empty.fail f.message
    | .ok c => transcript c

end SessionBroker.Shell
