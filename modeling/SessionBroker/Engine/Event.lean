import SessionBroker.Json.Value

/-!
# What engines report and are told

Debugger stops and how they are resumed, breakpoint changes, and whether an engine can be used.
-/

namespace SessionBroker

structure StopEvent where
  script : Option String
  line : Option Nat
  breakpoints : List Nat
  deriving DecidableEq, Repr

/-- How a stopped engine goes on. -/
inductive ResumeAction where
  | continue
  | stepInto
  | stepOver
  | stepOut
  | stop
  deriving DecidableEq, Repr

/-- Whether an engine can run commands. -/
inductive Availability where
  | available
  | busy
  | unavailable
  deriving DecidableEq, Repr

inductive BreakpointChange where
  | set
  | removed
  | enabled
  | disabled
  deriving DecidableEq, Repr

namespace StopEvent

def nowhere : StopEvent := ⟨none, none, []⟩

/-- The members of a stop's JSON form. -/
def members (e : StopEvent) : List (String × Json.Value) :=
  [("breakpointIds", .array (e.breakpoints.map Json.Value.ofNat)),
    ("line", (e.line.map Json.Value.ofNat).getD .null),
    ("scriptPath", (e.script.map Json.Value.string).getD .null)]

end StopEvent

namespace ResumeAction

def name : ResumeAction → String
  | .continue => "Continue"
  | .stepInto => "StepInto"
  | .stepOver => "StepOver"
  | .stepOut => "StepOut"
  | .stop => "Stop"

def all : List ResumeAction := [.continue, .stepInto, .stepOver, .stepOut, .stop]

/-- The action with a name; to go on, if there is none. -/
def ofName (name : String) : ResumeAction := (all.find? (·.name = name)).getD .continue

/-- The action that a word asks for at a debugger's prompt. -/
def ofWord? (word : String) : Option ResumeAction :=
  if word = "c" || word = "continue" then some .continue
  else if word = "s" || word = "stepInto" then some .stepInto
  else if word = "v" || word = "stepOver" then some .stepOver
  else if word = "o" || word = "stepOut" then some .stepOut
  else if word = "q" || word = "quit" then some .stop
  else none

end ResumeAction

namespace Availability

/-- Whether an engine in this condition takes commands. -/
def isUsable : Availability → Bool
  | .unavailable => false
  | _ => true

def name : Availability → String
  | .available => "Available"
  | .busy => "Busy"
  | .unavailable => "Unavailable"

end Availability

def BreakpointChange.name : BreakpointChange → String
  | .set => "Set"
  | .removed => "Removed"
  | .enabled => "Enabled"
  | .disabled => "Disabled"

end SessionBroker
