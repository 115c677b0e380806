import SessionBroker.Broker.Action
import SessionBroker.Concurrency.Machine
import SessionBroker.Request.Route

/-!
# Procedures

The procedures that flows are made of, and the programs of one step each that their bodies use.
-/

namespace SessionBroker

/-- What somebody asks of a broker or of an engine. -/
inductive ClientRequest where
  /-- Begin to work on an engine. -/
  | setUp (engine : EngineName) (owns : Bool)
  | execute (command : Command) (options : RequestOptions) (token : Option Token)
  /-- Run a command and add its errors to a buffer. -/
  | executeBuffered (command : Command) (options : RequestOptions) (buffer : String)
  | readLine (token : Option Token)
  /-- Compute a value on the thread that owns the pipeline. -/
  | onPipeline (value : Json.Value)
  | enterNestedPrompt
  | exitNestedPrompt
  | resume (action : ResumeAction) (wait : Bool)
  | abort (debug : Bool)
  | pause
  | attach (attached : Bool)
  | pushSession (engine : EngineName) (identity : Identity) (connection : Option String)
      (owns : Option Bool) (origin : Option Origin)
  | popSession
  | dispose
  | drop
  /-- Run a command on an engine, past the broker. -/
  | invoke (engine : EngineName) (command : Command) (merge nested : Bool)
  | setAvailability (engine : EngineName) (a : Availability)
  | breakpoint (engine : EngineName) (id : Nat) (change : BreakpointChange)
  | availability (engine : EngineName) (a : Availability)
  | stop (engine : EngineName) (event : StopEvent)
  | nested (engine : EngineName)
  | engineStep (engine : EngineName) (step : EngineStep)
  | idleStep (step : IdleStep)
  | idleExecute (name : String) (value : Json.Value) (inner : List IdleStep)
  | lease (frame : Nat) (token : Option Token)
  /-- Have a request served by the thread of a frame. -/
  | request (frame : Nat) (command : Command) (options : RequestOptions)
  | awaitExit (frame : Nat)
  | awaitFinish (frame : Nat)
  /-- Wait until the current frame has exited, and perhaps cause that. -/
  | awaitCurrentExit (trigger : Option ResumeAction)
  | shell

/-- The procedures. -/
inductive Proc where
  /-- Serve a client and report what came of it. -/
  | serveClient (name : String) (request : ClientRequest)
  /-- Run a command on an engine. -/
  | invoke (engine : EngineName) (command : Command) (merge nested : Bool)
  | debuggerStopped (hooks : Hooks) (engine : EngineName) (event : StopEvent)
  /-- The engine entered a nested prompt. -/
  | nestedPromptEntered (hooks : Hooks) (engine : EngineName)
  | engineStep (engine : EngineName) (step : EngineStep)
  | idleSteps (name : String) (steps : List IdleStep)
  | awaitLease (frame ticket : Nat) (caller : Gate.Caller)
  /-- Wait for the answer to a request. -/
  | awaitAnswer (frame ticket : Nat)
  | execute (request : Request) (token : Option Token)
  /-- Find a way for a request, again if a frame goes away before it is served. -/
  | route (request : Request) (token : Option Token)
  /-- Run a command while its frame's lease is held. -/
  | runCommand (frame : FrameRef) (engine : EngineName) (request : Request) (route : Route)
  /-- Serve one request of a frame's mailbox. -/
  | serve (frame : FrameRef) (ticket : Nat) (request : Request)
  /-- Serve the requests of a frame until it exits. -/
  | messageLoop (frame : FrameRef)
  | serveNext (frame : FrameRef)
  /-- The thread of a nested prompt that a client entered. -/
  | nestedPrompt (frame : FrameRef) (promise : Nat)
  | pump
  | hostRead (reader : Nat)
  /-- Have the host read a line while a frame's lease is held. -/
  | readLoop (frame : FrameRef)
  | readLine (token : Option Token)
  /-- Have an action run on the thread that owns the pipeline. -/
  | onPipeline (action : Nat)
  /-- Run an action, which gives a value. -/
  | compute (action : Nat) (value : Json.Value)
  | resumeDebugger (action : ResumeAction) (wait : Bool)
  /-- Start the read loop again once a stop is over and the session can be used. -/
  | restartLoop (frame : FrameRef)
  /-- Wait until the current session's engine can be used; it has changed this often so far. -/
  | awaitUsable (changes : Nat)
  | dispose
  /-- Pop all sessions but the bottom one. -/
  | popSessions
  /-- Serve a frame as a rehearsal, and take it off its stack at the end or not. -/
  | rehearsedLoop (frame : Nat) (pop : Bool)
  | rehearsedNext (frame : Nat)
  /-- Read and run lines until the shell ends; notices have been read up to a position. -/
  | shellLoop (position : Nat)
  /-- Wait for a command of the shell, servicing stops of the debugger meanwhile. -/
  | shellWait (request : String) (position : Nat)
  /-- Read and run lines while the debugger is stopped. -/
  | shellDebugger

@[reducible] def Proc.Result : Proc → Type
  | .invoke .. => Except EngineFailure Invocation
  | .debuggerStopped .. => ResumeAction
  | .engineStep .. => EngineReply
  | .awaitLease .. => Except Failure Unit
  | .awaitAnswer .. => Mailbox.Answer Response
  | .execute .. => Response
  | .route .. => Response
  | .runCommand .. => Response
  | .messageLoop _ => ResumeAction
  | .serveNext _ => ResumeAction
  | .rehearsedNext _ => ResumeAction
  | .pump => Nat
  | .hostRead _ => Option String
  | .readLoop _ => Option String
  | .readLine _ => Except Failure (Option String)
  | .onPipeline _ => Except Failure (Json.Value × Bool)
  | .compute .. => Json.Value
  | .resumeDebugger .. => Bool
  | .shellLoop _ => Except Failure Unit
  | .shellWait .. => Nat
  | _ => Unit

/-- Actions on the world, and the broker's procedures. -/
abbrev brokerInterface : Interface := ⟨Action, Action.Reply, Proc, Proc.Result⟩

abbrev Code (α : Type) := Program brokerInterface α

namespace Code

def engine (name : EngineName) (op : EngineOp) : Code op.Reply :=
  Program.perform (I := brokerInterface) (Action.engine name op)

def frames (op : FrameOp) : Code op.Reply :=
  Program.perform (I := brokerInterface) (Action.frames op)

def sessions (op : SessionOp) : Code op.Reply :=
  Program.perform (I := brokerInterface) (Action.sessions op)

/-- Performs a step on the idle queue. -/
def idle (op : IdleOp) : Code op.Reply :=
  Program.perform (I := brokerInterface) (Action.idle op)

def host (op : HostOp) : Code op.Reply :=
  Program.perform (I := brokerInterface) (Action.host op)

/-- Performs a step on the broker's own state. -/
def broker (op : BrokerOp) : Code op.Reply :=
  Program.perform (I := brokerInterface) (Action.broker op)

def invoke (p : Proc) : Code p.Result := Program.invoke (I := brokerInterface) p

/-- Starts a procedure as a flow of its own. -/
def start (p : Proc) : Code Unit := Program.start (I := brokerInterface) p

end Code

end SessionBroker
