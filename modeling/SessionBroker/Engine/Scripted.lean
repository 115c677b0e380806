import SessionBroker.Engine.Event
import SessionBroker.ErrorRecord
import SessionBroker.Failure
import SessionBroker.Request.Command

/-!
# Scripted engines

An engine that answers commands from a table and echoes what it does not know. Its state and the
single steps on it are here; how a command runs through these steps, calling back on the way, is
the procedure `invoke`.
-/

namespace SessionBroker

/-- What a command does. -/
inductive Script where
  | output (values : List Json.Value)
  /-- Report an error and give no output. -/
  | fail (record : ErrorRecord)
  | throw (reason : String)
  | fatal (reason : String)
  /-- Run until the engine is stopped. -/
  | block
  /-- Run until the engine is released, whatever stops it, and then end as if stopped. -/
  | hold
  /-- Stop the debugger and wait until it is resumed. -/
  | break (event : StopEvent)
  /-- Enter a nested prompt and wait until it is left. -/
  | nestedPrompt
  /-- Answer the identity probe otherwise from now on. -/
  | switchIdentity (identity : Identity)
  | unavailable
  deriving Repr

structure Invocation where
  output : List Json.Value
  errors : List ErrorRecord
  deriving Repr

namespace Invocation

def empty : Invocation := ⟨[], []⟩

def ofOutput (output : List Json.Value) : Invocation := ⟨output, []⟩

/-- Puts the messages of the errors behind the output. -/
def merge (i : Invocation) : Invocation :=
  ⟨i.output ++ i.errors.map fun r => .string r.entry.message, []⟩

end Invocation

/-- Whom an engine calls back. -/
inductive Hooks where
  | broker
  /-- A list of plans, one for each stop of the debugger. -/
  | plans
  deriving DecidableEq, Repr

/-- How often an engine was asked for something. -/
structure Tally where
  invocations : Nat
  stops : Nat
  registrations : Nat
  unregistrations : Nat
  debuggerStops : Nat
  pauses : Nat
  nestedExits : Nat
  configurations : Nat
  deriving DecidableEq, Repr

/-- A scripted engine. -/
structure Engine where
  version : Version
  identity : Identity
  availability : Availability
  scripts : List (String × Script)
  history : List String
  hooks : Option Hooks
  active : Nat
  /-- How many of them wait to be stopped or released. -/
  blocked : Nat
  /-- How many stops of the debugger are being serviced. -/
  stoppedDepth : Nat
  stopRequested : Bool
  released : Bool
  holdNextProbe : Bool
  closed : Bool
  tally : Tally
  deriving Repr

namespace Engine

/-- An engine that has run nothing yet. -/
def new (version : Version) (identity : Identity) (scripts : List (String × Script)) : Engine :=
  { version, identity, availability := .available, scripts, history := [], hooks := none,
    active := 0, blocked := 0, stoppedDepth := 0, stopRequested := false, released := false,
    holdNextProbe := false, closed := false, tally := ⟨0, 0, 0, 0, 0, 0, 0, 0⟩ }

/-- A command begins to run. The first one on an idle engine takes an old request to stop away. -/
def enter (e : Engine) : Except EngineFailure Engine :=
  if e.closed then .error (.fatal "runspace is closed")
  else .ok { e with
    stopRequested := e.stopRequested && e.active ≠ 0
    active := e.active + 1
    tally := { e.tally with invocations := e.tally.invocations + 1 } }

def leave (e : Engine) : Engine := { e with active := e.active - 1 }

def beginWait (e : Engine) : Engine := { e with blocked := e.blocked + 1 }

/-- A command that waits to be stopped goes on. -/
def endBlock? (e : Engine) : Option Engine :=
  if e.stopRequested then some { e with blocked := e.blocked - 1 } else none

/-- A command that waits to be released goes on and takes the release with it. -/
def endHold? (e : Engine) : Option Engine :=
  if e.released then some { e with released := false, blocked := e.blocked - 1 } else none

/-- Asks all running commands to stop. -/
def stop (e : Engine) : Engine :=
  { e with stopRequested := true, tally := { e.tally with stops := e.tally.stops + 1 } }

/-- What a command's text stands for. -/
def script? (e : Engine) (text : String) : Option Script :=
  (e.scripts.find? (·.1 = text)).map (·.2)

def setScript (e : Engine) (text : String) (s : Script) : Engine :=
  { e with scripts := (text, s) :: e.scripts.filter (·.1 ≠ text) }

def remember (e : Engine) (text : String) : Engine := { e with history := e.history ++ [text] }

def register (e : Engine) (h : Hooks) : Engine :=
  { e with hooks := some h, tally := { e.tally with registrations := e.tally.registrations + 1 } }

/-- Gives its hooks up; without any nothing happens. -/
def unregister (e : Engine) : Engine :=
  if e.hooks.isSome then
    { e with
      hooks := none
      tally := { e.tally with unregistrations := e.tally.unregistrations + 1 } }
  else e

def close (e : Engine) : Engine := { e with closed := true, availability := .unavailable }

/-- Whether a stop of the debugger is being serviced. -/
def isStopped (e : Engine) : Bool := e.stoppedDepth ≠ 0

/-- Things an engine is asked for and only counts. -/
inductive Wish where
  | configure
  | pause
  | stopCommand
  | exitNested
  deriving DecidableEq, Repr

def note (e : Engine) (w : Wish) : Engine :=
  { e with tally := match w with
    | .configure => { e.tally with configurations := e.tally.configurations + 1 }
    | .pause => { e.tally with pauses := e.tally.pauses + 1 }
    | .stopCommand => { e.tally with debuggerStops := e.tally.debuggerStops + 1 }
    | .exitNested => { e.tally with nestedExits := e.tally.nestedExits + 1 } }

end Engine

end SessionBroker
