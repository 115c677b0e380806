import SessionBroker.Broker.Host
import SessionBroker.Broker.IdleQueue
import SessionBroker.Broker.Notice
import SessionBroker.Engine.Scripted
import SessionBroker.Frame.Stack
import SessionBroker.Session.Stack

/-!
# Shared state

Everything that the flows of a broker share: its engines as it reaches them, its frames, sessions
and idle queue, the host, and the promises by which flows wait for each other.
-/

namespace SessionBroker

/-- How a broker is set up. -/
structure BrokerSettings where
  /-- The oldest version of an engine that is accepted. -/
  minimumVersion : Version
  /-- Ask for the identity again after each command. -/
  probes : Bool
  /-- Start the read loop again after a stop of the debugger that interrupted it. -/
  restartsLoop : Bool
  /-- How many notices a slow listener may lag behind. -/
  capacity : Nat
  deriving DecidableEq, Repr

def BrokerSettings.standard : BrokerSettings := ⟨⟨5, 1⟩, true, true, 256⟩

/-- An engine as a broker reaches it. -/
structure Endpoint where
  engine : Engine
  /-- The engine is of a kind whose debugger is out of reach. -/
  foreign : Bool
  /-- What answers an identity probe in the engine's stead. -/
  probeOutput : Option (List Json.Value)
  /-- The hooks last given to the engine, registered still or not. -/
  lastHooks : Option Hooks
  deriving Repr

/-- A command that was run through an engine. -/
structure EngineCall where
  engine : EngineName
  command : Command
  nested : Bool
  mergeErrors : Bool
  deriving Repr

/-- What the idle tasks of a rehearsal do. -/
inductive IdleStep where
  | setActive (active : Bool)
  | pump
  | schedule (name : String) (inner : List IdleStep)

mutual

/-- What is done to an engine from outside. -/
inductive EngineStep where
  | invoke (command : Command) (merge nested : Bool)
  | atPrompt (command : Command) (foreign : Bool)
  | isStopped (foreign : Bool)
  | wish (w : Engine.Wish) (foreign : Bool)
  | stop
  | release
  | holdNextProbe
  | close
  | remember (text : String)
  | setIdentity (identity : Identity)
  | setScript (text : String) (script : Script)
  | setAvailability (a : Availability)
  | version
  | register (plans : List StopPlan)
  | unregister

/-- What is done during a stop of the debugger, and how the stop ends. -/
inductive StopPlan where
  | mk (steps : List EngineStep) (action : ResumeAction)

end

/-- What a command at the debugger's prompt gives. -/
structure PromptReply where
  output : List Json.Value
  resume : Option ResumeAction
  deriving Repr

/-- What a step on an engine gives. -/
inductive EngineReply where
  | invocation (r : Except EngineFailure Invocation)
  | prompt (r : Except EngineFailure PromptReply)
  | truth (b : Bool)
  | history (texts : List String)
  | version (v : Version)
  | nothing

inductive TraceEntry where
  | stopped (event : StopEvent) (isStopped : Bool)
  | nested (isStopped : Bool)
  | availability (a : Availability)
  | reply (r : EngineReply)
  /-- An idle task began: is the loop active, is a task running, would one more run. -/
  | taskBegan (name : String) (active invoking canRun : Bool)
  | taskSet (name : String) (invoking : Bool)
  | taskPumped (name : String) (count : Nat) (invoking : Bool)
  | taskScheduled (name : String) (accepted invoking : Bool)
  /-- A loop serves a request, on its own thread or not. -/
  | served (text : String) (readsLine ownThread : Bool)
  /-- A loop tried to end its frame, and was the first to do so or not. -/
  | exitTried (won : Bool)
  | loopEnded (action : ResumeAction)
  /-- One who waits for the current frame's exit may cause it now. -/
  | triggered (frame : Nat)

inductive IdleWork where
  /-- Runs a command in a frame. -/
  | command (frame : FrameRef) (engine : EngineName) (request : Request)
  /-- Runs the action with a number, unless somebody has taken it. -/
  | action (action : Nat)
  /-- Plays its part in a rehearsal and then gives a value. -/
  | rehearsal (name : String) (inner : List IdleStep) (v : Json.Value)

/-- A task of the idle queue, and the promise it keeps. -/
structure IdleTask where
  promise : Nat
  work : IdleWork

/-- What a flow may promise another. -/
inductive Payload where
  | response (r : Response)
  | value (v : Option Json.Value)
  | loopEnded (action : ResumeAction)

/-- A promise: one flow waits for what another will give. -/
inductive Promise where
  | open
  | kept (payload : Payload)
  /-- Nobody will keep it. -/
  | broken

/-- What a client's request came to. -/
inductive Report where
  | response (r : Response)
  | buffered (output : Option (List Json.Value)) (failure : Option Failure) (buffer : String)
  | line (r : Except Failure (Option String))
  /-- A value, and whether a reading thread computed it. -/
  | value (r : Except Failure (Json.Value × Bool))
  | entered (r : Except Failure Unit)
  | truth (b : Bool)
  | action (a : Option ResumeAction)
  | lease (r : Except Failure Unit)
  | finished
  | invocation (r : Except EngineFailure Invocation)
  | session (s : Option Session)
  | engineReply (r : EngineReply)
  | idleValue (v : Option Json.Value)
  | count (n : Nat)
  | disposed
  | noHooks
  | nothing

/-- The state that all flows share. -/
structure World where
  settings : BrokerSettings
  endpoints : List (EngineName × Endpoint)
  /-- The commands that were run through engines, the last one first. -/
  engineCalls : List EngineCall
  phase : Phase
  frames : FrameStack
  sessions : SessionStack
  /-- The number of the next session. -/
  nextSession : Nat
  idle : IdleQueue IdleTask
  channel : Channel
  host : Host
  /-- Those who resume the debugger, by turns; the first one may go on. -/
  resumers : List Nat
  /-- The stop of the debugger that is being serviced. -/
  stopEvent : Option StopEvent
  attached : Bool
  /-- The next stopped command has been reported as aborted already. -/
  abortReported : Bool
  /-- How often an engine said that its availability changed. -/
  availabilityChanges : Nat
  /-- How many hold on to the broker. -/
  holders : Nat
  cancelled : List Token
  promises : List Promise
  /-- The actions to be run on the pipeline's thread, by number; each gives its value to the one who
  takes it first. -/
  actions : List (Option Json.Value)
  nextTicket : Nat
  /-- What clients' requests came to, by name, the last one first. -/
  reports : List (String × Report)
  /-- The plans for the next stops of a rehearsed engine. -/
  plans : List StopPlan
  /-- How many requests that a rehearsed loop holds may go on. -/
  unholds : Nat
  trace : List TraceEntry

namespace World

/-- A world before a broker is at work on the engine with a name. -/
def new (settings : BrokerSettings) (endpoints : List (EngineName × Endpoint))
    (main : EngineName) (host : Host) : World where
  settings := settings
  endpoints := endpoints
  engineCalls := []
  phase := .notStarted
  frames := .new
  sessions := .ofBottom (.ofHost ⟨0⟩ main ⟨0, 0⟩ ⟨0, "", ""⟩ false)
  nextSession := 0
  idle := .new
  channel := .new settings.capacity
  host := host
  resumers := []
  stopEvent := none
  attached := false
  abortReported := false
  availabilityChanges := 0
  holders := 0
  cancelled := []
  promises := []
  actions := []
  nextTicket := 0
  reports := []
  plans := []
  unholds := 0
  trace := []

def endpoint? (w : World) (name : EngineName) : Option Endpoint :=
  (w.endpoints.find? (·.1 = name)).map (·.2)

def modifyEndpoint (w : World) (name : EngineName) (f : Endpoint → Endpoint) : World :=
  { w with endpoints := w.endpoints.map fun p => if p.1 = name then (name, f p.2) else p }

def modifyEngine (w : World) (name : EngineName) (f : Engine → Engine) : World :=
  w.modifyEndpoint name fun p => { p with engine := f p.engine }

def setPromise (w : World) (id : Nat) (p : Promise) : World :=
  { w with promises := w.promises.set id p }

/-- Cancels a token and marks those who wait with it. -/
def cancel (w : World) (token : Token) : World :=
  { w with
    cancelled := token :: w.cancelled
    frames := { w.frames with
      frames := w.frames.frames.map fun f => { f with gate := f.gate.wakeToken token } } }

def isCancelled (w : World) : Option Token → Bool
  | some t => w.cancelled.contains t
  | none => false

end World

end SessionBroker
