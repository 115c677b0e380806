import SessionBroker.Engine.Event
import SessionBroker.Session.Session

/-!
# Notices and their channel

What a broker tells those who listen. A channel keeps the newest notices, as many as its capacity;
one who listens too slowly loses the older ones and is told how many.
-/

namespace SessionBroker

/-- How far a command has come. -/
inductive Progress where
  | running
  | completed
  | failed
  | aborted
  deriving DecidableEq, Repr

inductive SessionChange where
  | enter
  | exit
  | shutdown
  deriving DecidableEq, Repr

/-- What a broker tells its listeners. -/
inductive Notice where
  /-- A session was pushed or popped; `session` is current now. -/
  | sessionChanged (change : SessionChange) (session : Session)
  | progress (progress : Progress) (hadErrors : Bool)
  | debuggerStop (event : StopEvent)
  | debuggerResumed (action : ResumeAction)
  | breakpoint (id : Nat) (change : BreakpointChange)
  /-- The debugger stopped while nobody debugs. -/
  | startDebugger
  deriving DecidableEq, Repr

def Progress.name : Progress → String
  | .running => "Running"
  | .completed => "Completed"
  | .failed => "Failed"
  | .aborted => "Aborted"

def SessionChange.name : SessionChange → String
  | .enter => "Enter"
  | .exit => "Exit"
  | .shutdown => "Shutdown"

namespace Notice

def toJson : Notice → Json.Value
  | .sessionChanged change session =>
    .object [("action", .string change.name), ("event", .string "runspaceChanged"),
      ("session", session.summary)]
  | .progress p hadErrors =>
    .object [("event", .string "executionStatusChanged"), ("had_errors", .bool hadErrors),
      ("status", .string p.name)]
  | .debuggerStop event => .ofMembers (("event", .string "debuggerStop") :: event.members)
  | .debuggerResumed action =>
    .object [("action", .string action.name), ("event", .string "debuggerResumed")]
  | .breakpoint id change =>
    .object [("breakpointId", .ofNat id), ("event", .string "breakpointUpdated"),
      ("kind", .string change.name)]
  | .startDebugger => .object [("event", .string "startDebuggerRequested")]

end Notice

/-- The smallest power of two that is at least `n`. -/
def powerAtLeast (n : Nat) : Nat := if n ≤ 1 then 1 else Nat.pow 2 (Nat.log2 (n - 1) + 1)

structure Channel where
  capacity : Nat
  /-- All notices ever sent, the first one first. -/
  sent : List Notice
  deriving Repr

namespace Channel

/-- A channel that keeps `n` notices, at least one, rounded up to a power of two. -/
def new (n : Nat) : Channel := ⟨powerAtLeast n, []⟩

/-- Sends a notice. -/
def send (c : Channel) (n : Notice) : Channel := { c with sent := c.sent ++ [n] }

/-- Where one who listens from now on begins. -/
def position (c : Channel) : Nat := c.sent.length

/-- What a listener at `position` receives: how many notices it lost, and those it can still
read. -/
def receive (c : Channel) (position : Nat) : Nat × List Notice :=
  let first := max position (c.sent.length - c.capacity)
  (first - position, c.sent.drop first)

end Channel

end SessionBroker
