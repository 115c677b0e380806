import SessionBroker.Broker.Procedure

/-!
# Running commands on engines

How a command runs on a scripted engine, step by step, with the calls back to the engine's hooks;
and how hooks that follow plans answer.
-/

namespace SessionBroker.Engines

/-- Tells an engine's hooks that its availability changed. -/
def tellAvailability (hooks : Option Hooks) (a : Availability) : Code Unit := do
  match hooks with
  | none => return
  | some .plans => Code.broker (.trace (.availability a))
  | some .broker =>
    let alive : Bool ← Code.broker .upgrade
    if alive then
      Code.broker .availabilityChanged
      Code.broker .letGo

/-- Changes an engine's availability and tells its hooks. -/
def setAvailability (e : EngineName) (a : Availability) : Code Unit := do
  let hooks : Option Hooks ← Code.engine e (.setAvailability a)
  tellAvailability hooks a

def awaitRelease (e : EngineName) : Code Unit := do
  Code.engine e .beginWait
  Code.engine e .endHold

/-- Does what a command stands for. -/
def runScript (e : EngineName) : Script → Code (Except EngineFailure Invocation)
  | .output values => return .ok (.ofOutput values)
  | .fail record => return .ok ⟨[], [record]⟩
  | .throw reason => return .error (.runtime reason)
  | .fatal reason => return .error (.fatal reason)
  | .block => do
    Code.engine e .beginWait
    Code.engine e .endBlock
    return .error .stopped
  | .hold => do
    awaitRelease e
    return .error .stopped
  | .break event => do
    let hooks : Option Hooks ← Code.engine e .hooks
    match hooks with
    | none => return .ok .empty
    | some h =>
      Code.engine e .enterStop
      let action : ResumeAction ← Code.invoke (.debuggerStopped h e event)
      Code.engine e .leaveStop
      return if action = .stop then .error .stopped else .ok .empty
  | .nestedPrompt => do
    let hooks : Option Hooks ← Code.engine e .hooks
    match hooks with
    | none => return .ok .empty
    | some h =>
      Code.invoke (.nestedPromptEntered h e)
      return .ok .empty
  | .switchIdentity identity => do
    Code.engine e (.setIdentity identity)
    return .ok .empty
  | .unavailable => do
    setAvailability e .unavailable
    return .ok .empty

/-- Answers the identity probe, or does what the command's text stands for; an unknown text is its
own output. -/
def run (e : EngineName) (c : Command) : Code (Except EngineFailure Invocation) := do
  if c.isProbe then
    let held : Bool ← Code.engine e .takeProbeHold
    if held then awaitRelease e
    let identity : Identity ← Code.engine e .identity
    return .ok (.ofOutput [identity.toJson])
  else
    let script : Option Script ← Code.engine e (.script c.text)
    match script with
    | none => return .ok (.ofOutput [.string c.text])
    | some s => runScript e s

def invoke (e : EngineName) (c : Command) (merge : Bool) :
    Code (Except EngineFailure Invocation) := do
  let entered : Except EngineFailure Unit ← Code.engine e .enter
  match entered with
  | .error f => return .error f
  | .ok _ =>
    let r ← run e c
    Code.engine e .leave
    return if merge then r.map Invocation.merge else r

/-- Runs a command through an engine's endpoint, which may answer the identity probe itself. -/
def through (e : EngineName) (c : Command) (merge nested : Bool) :
    Code (Except EngineFailure Invocation) := do
  let answer : Option (List Json.Value) ← Code.engine e (.arrive c merge nested)
  match answer with
  | some output => return .ok (.ofOutput output)
  | none => Code.invoke (.invoke e c merge nested)

/-- Runs a command at the prompt of an engine's stopped debugger. A word that resumes the debugger
does not reach the engine. -/
def atPrompt (e : EngineName) (c : Command) : Code (Except EngineFailure PromptReply) := do
  let (stopped, inReach) : Bool × Bool ← Code.engine e .debugger
  if !inReach then return .error (.fatal "unsupported runspace")
  if !stopped then return .error (.runtime "the debugger is not stopped")
  match ResumeAction.ofWord? (String.ofList (Text.trim c.text.toList)) with
  | some action => return .ok ⟨[], some action⟩
  | none =>
    let r : Except EngineFailure Invocation ← Code.invoke (.invoke e c true true)
    return r.map fun i => ⟨i.output, none⟩

/-- Whether an engine's debugger is known to be stopped. -/
def isStopped (e : EngineName) : Code Bool := do
  let (stopped, _) : Bool × Bool ← Code.engine e .debugger
  return stopped

/-- A step on an engine from outside. An engine out of reach is never stopped and hears no wish. -/
def step (e : EngineName) : EngineStep → Code EngineReply
  | .invoke c merge nested => do
    let r : Except EngineFailure Invocation ← Code.invoke (.invoke e c merge nested)
    return .invocation r
  | .atPrompt c foreign => do
    if foreign then return .prompt (.error (.fatal "unsupported runspace"))
    return .prompt (← atPrompt e c)
  | .isStopped foreign => do
    let stopped ← isStopped e
    return .truth (!foreign && stopped)
  | .wish w foreign => do
    if !foreign then Code.engine e (.wish w)
    return .nothing
  | .stop => do
    Code.engine e .stop
    return .nothing
  | .release => do
    Code.engine e .release
    return .nothing
  | .holdNextProbe => do
    Code.engine e .holdNextProbe
    return .nothing
  | .close => do
    Code.engine e .close
    return .nothing
  | .remember text => do
    Code.engine e (.remember text)
    let texts : List String ← Code.engine e .history
    return .history texts
  | .setIdentity identity => do
    Code.engine e (.setIdentity identity)
    return .nothing
  | .setScript text s => do
    Code.engine e (.setScript text s)
    return .nothing
  | .setAvailability a => do
    setAvailability e a
    return .nothing
  | .version => do
    let v : Version ← Code.engine e .version
    return .version v
  | .register plans => do
    Code.engine e (.register .plans)
    Code.broker (.addPlans plans)
    return .nothing
  | .unregister => do
    Code.engine e .unregister
    return .nothing

/-- The steps of a plan, each noted down; hooks are not registered from inside a plan. -/
def playSteps (e : EngineName) : List EngineStep → Code Unit
  | [] => return
  | s :: rest => do
    let r ← match s with
      | .register _ => pure EngineReply.nothing
      | s => Code.invoke (.engineStep e s)
    Code.broker (.trace (.reply r))
    playSteps e rest

/-- A stop of the debugger that follows the next plan; without one it goes on at once. -/
def playStop (e : EngineName) (event : StopEvent) : Code ResumeAction := do
  Code.broker (.trace (.stopped event (← isStopped e)))
  let plan : Option StopPlan ← Code.broker .nextPlan
  match plan with
  | none => return .continue
  | some (.mk steps action) =>
    playSteps e steps
    return action

end SessionBroker.Engines
