import SessionBroker.Scenario.Flows

/-!
# Scenarios of a broker

A scenario takes a broker through steps and observes after each what can be seen from outside:
which requests ended and how, the notices, what the host and the engines were asked to do, and the
state.
-/

namespace SessionBroker.Scenario

/-- What an engine is like at the beginning. -/
structure EngineSetup where
  name : EngineName
  identity : Identity
  version : Version
  scripts : List (String × Script)
  availability : Availability
  foreign : Bool
  probeOutput : Option (List Json.Value)

/-- The engine as a broker will reach it. -/
def EngineSetup.endpoint (s : EngineSetup) : Endpoint where
  engine := { Engine.new s.version s.identity s.scripts with availability := s.availability }
  foreign := s.foreign
  probeOutput := s.probeOutput
  lastHooks := none

inductive BrokerStep where
  /-- A request that may wait; it goes by a name. -/
  | task (name : String) (request : ClientRequest)
  /-- A request that is answered at once. -/
  | instant (request : ClientRequest)
  | cancel (token : Token)
  | hostStop
  | hostPump
  | hostLine (text : String)
  | setProbeOutput (engine : EngineName) (output : Option (List Json.Value))
  | openStream
  /-- Read what a stream holds; one that was never opened holds nothing. -/
  | readStream
  | resubscribe
  /-- Let go of the broker; nothing happens if that was done before. -/
  | dropBroker

/-- Whether a request is made to the broker, not to an engine. -/
def needsBroker : ClientRequest → Bool
  | .invoke .. | .setAvailability .. | .breakpoint .. | .availability .. | .stop .. | .nested _
  | .engineStep .. => false
  | _ => true

/-- Whether a step is made on the broker. -/
def BrokerStep.needsBroker : BrokerStep → Bool
  | .task _ r => Scenario.needsBroker r
  | .instant r => Scenario.needsBroker r
  | .openStream | .resubscribe => true
  | _ => false

/-- What a step answers at once. -/
inductive Reply where
  | nothing
  | noBroker
  | truth (b : Bool)
  /-- Notices that a stream holds, and whether it has ended. -/
  | stream (notices : List Notice) (ended : Bool)
  | report (r : Report)

/-- What can be seen of an engine. -/
structure EngineView where
  tally : Tally
  hooks : Bool
  closed : Bool
  blocked : Bool
  stopped : Bool
  availability : Availability
  identity : Identity
  deriving DecidableEq, Repr

/-- What can be seen of an engine now. -/
def EngineView.ofEngine (e : Engine) : EngineView :=
  ⟨e.tally, e.hooks.isSome, e.closed, e.blocked ≠ 0, e.isStopped, e.availability, e.identity⟩

/-- What can be seen of a broker. -/
structure BrokerView where
  phase : Phase
  frames : Nat
  nestedPrompts : Nat
  stop : Option StopEvent
  sessions : Nat
  session : Session

/-- What can be seen of the broker now. -/
def BrokerView.ofWorld (w : World) : BrokerView :=
  ⟨w.phase, w.frames.depth, w.frames.nestedPromptLevel, w.stopEvent, w.sessions.depth,
    w.sessions.current⟩

def BrokerView.inspect (v : BrokerView) : String :=
  "ExecutionCoordinator \x7b state: " ++ v.phase.name ++ ", frame_depth: " ++ toString v.frames
    ++ ", session_depth: " ++ toString v.sessions ++ " \x7d"

/-- What is seen after a step. -/
structure Observation where
  reply : Reply
  /-- The requests that ended in the step. -/
  done : List (String × Report)
  /-- The requests that have not ended, the oldest one first. -/
  pending : List String
  /-- How many notices were lost. -/
  lost : Nat
  notices : List Notice
  host : List HostCall
  calls : List EngineCall
  /-- The engines that look different than before. -/
  engines : List (EngineName × EngineView)
  readers : Nat
  /-- The broker, unless it was dropped. -/
  broker : Option BrokerView

structure Stage where
  config : BrokerConfig
  /-- The requests that have not ended: the key of each and its name, the oldest one first. -/
  tasks : List (String × String)
  nextKey : Nat
  /-- Up to where notices have been observed. -/
  position : Nat
  /-- Up to where the stream has been read. -/
  stream : Option Nat
  /-- Nobody but the flows under way holds on to the broker. -/
  dropped : Bool
  seen : List (EngineName × EngineView)

namespace Stage

/-- Where a kind of notice stands among those that are told side by side. -/
def rank : Notice → Nat
  | .progress .. => 0
  | .sessionChanged .. => 2
  | _ => 1

/-- The order of notices that different threads send side by side: progress first, by its name and
then by its errors, and changes of sessions last. -/
def comesBefore (a b : Notice) : Bool :=
  match a, b with
  | .progress p e, .progress q f => p.name < q.name || (p = q && (!e || f))
  | a, b => rank a ≤ rank b

/-- Whether threads send notices side by side in a step. -/
def isSideBySide (step : Option BrokerStep) (notices : List Notice) : Bool :=
  (match step with
    | some (.instant (.abort _)) => true
    | some (.task _ .dispose) => true
    | _ => false)
  || notices.any fun
    | .debuggerResumed _ => true
    | _ => false

/-- The notices of a step in the order in which they are observed. -/
def arrange (step : Option BrokerStep) (notices : List Notice) : List Notice :=
  if isSideBySide step notices then notices.mergeSort comesBefore else notices

/-- The calls to a host, with the starts of the read loop last. -/
def startsLast (calls : List HostCall) : List HostCall :=
  calls.filter (· ≠ .startLoop) ++ calls.filter (· = .startLoop)

def look (w : World) : List (EngineName × EngineView) :=
  w.endpoints.map fun (name, p) => (name, .ofEngine p.engine)

/-- Observes what happened since the last observation. -/
def observe (s : Stage) (step : Option BrokerStep) (reply : Reply) : Observation × Stage :=
  let w := s.config.shared
  let done := s.tasks.filterMap fun (key, name) =>
    (w.reports.find? (·.1 = key)).map fun r => (name, r.2)
  let tasks := s.tasks.filter fun (key, _) => !w.reports.any (·.1 = key)
  let (lost, notices) := w.channel.receive s.position
  let engines := look w
  let observation := {
    reply, done, lost
    pending := tasks.map (·.2)
    notices := arrange step notices
    host := startsLast w.host.calls.reverse
    calls := w.engineCalls.reverse
    engines := engines.filter fun p => !s.seen.contains p
    readers := w.host.readers.length
    broker := if s.dropped then none else some (.ofWorld w) }
  let w := { w with reports := [], engineCalls := [], host := { w.host with calls := [] } }
  (observation,
    { s with config := { s.config with shared := w }, tasks, seen := engines,
             position := w.channel.position })

/-- Changes the shared world and lets all flows run. -/
def change (s : Stage) (f : World → World) : Stage :=
  { s with config := settle (touch f s.config) }

def start (s : Stage) (request : ClientRequest) : String × Stage :=
  let key := toString s.nextKey
  (key, { s with config := launch (.serveClient key request) s.config, nextKey := s.nextKey + 1 })

/-- What the request with a key came to. -/
def report? (s : Stage) (key : String) : Option Report :=
  (s.config.shared.reports.find? (·.1 = key)).map (·.2)

def act (s : Stage) (step : BrokerStep) : Reply × Stage :=
  if s.dropped && step.needsBroker then (.noBroker, s)
  else match step with
  | .task name request =>
    let (key, t) := s.start request
    match t.report? key with
    | some .noHooks => (.report .noHooks, t)
    | _ => (.nothing, { t with tasks := t.tasks ++ [(key, name)] })
  | .instant request =>
    let (key, t) := s.start request
    (match t.report? key with
      | some r => .report r
      | none => .nothing, t)
  | .cancel token => (.nothing, s.change (·.cancel token))
  | .hostStop => (.nothing, s.change fun w => { w with host := w.host.stopLoop })
  | .hostPump =>
    let asked := (s.config.shared.host.askPump).1
    (.truth asked, s.change fun w => { w with host := w.host.askPump.2 })
  | .hostLine text =>
    (.nothing, s.change fun w => { w with host := { w.host with lines := w.host.lines ++ [text] } })
  | .setProbeOutput engine output =>
    (.nothing, s.change (·.modifyEndpoint engine fun p => { p with probeOutput := output }))
  | .openStream => (.nothing, { s with stream := some s.config.shared.channel.position })
  | .readStream =>
    match s.stream with
    | none => (.stream [] false, s)
    | some position =>
      let w := s.config.shared
      (.stream (w.channel.receive position).2 (w.holders = 0),
        { s with stream := some w.channel.position })
  | .resubscribe => (.nothing, { s with position := s.config.shared.channel.position })
  | .dropBroker =>
    if s.dropped then (.nothing, s)
    else
      let (_, t) := s.start .drop
      (.nothing, { t with dropped := true })

def next (s : Stage) (step : BrokerStep) : Observation × Stage :=
  let (reply, t) := s.act step
  t.observe (some step) reply

def play (s : Stage) : List BrokerStep → List Observation × Stage
  | [] => ([], s)
  | step :: rest =>
    let (o, t) := s.next step
    let (os, u) := t.play rest
    (o :: os, u)

end Stage

inductive Performance where
  /-- The broker could not begin to work. -/
  | refused (failure : Failure) (observation : Observation)
  | played (first : Observation) (steps : List Observation)
      (history : List (EngineName × List String))

/-- Takes a broker of the engine with a name through a scenario. -/
def perform (settings : BrokerSettings) (engines : List EngineSetup) (main : EngineName)
    (owns : Bool) (steps : List BrokerStep) : Performance :=
  let w := World.new settings (engines.map fun s => (s.name, s.endpoint)) main .new
  let stage : Stage := ⟨still w, [], 0, 0, none, false, []⟩
  let (key, stage) := stage.start (.setUp main owns)
  let report := stage.report? key
  let (first, stage) := stage.observe none .nothing
  match report with
  | some (.lease (.error failure)) => .refused failure first
  | _ =>
    let (observations, stage) := stage.play steps
    .played first observations
      (stage.config.shared.endpoints.map fun (name, p) => (name, p.engine.history))

end SessionBroker.Scenario
