import SessionBroker.Broker.Debugging
import SessionBroker.Broker.Reading

/-!
# Clients

What a broker and its engines do at a client's request. Each request is a flow of its own, which
reports what came of it under the client's name.
-/

namespace SessionBroker.Clients

/-- Begins to work on an engine: its version is checked, it is asked who it is, and it gets the
broker's hooks. The caller holds on to the broker from then on. -/
def setUp (e : EngineName) (owns : Bool) : Code (Except Failure Unit) := do
  let settings : BrokerSettings ← Code.broker .settings
  let found : Version ← Code.engine e .version
  if found < settings.minimumVersion then
    return .error (.unsupportedVersion found settings.minimumVersion)
  let answer ← SessionChanges.probe e false
  match answer with
  | .error f => return .error (.engine f)
  | .ok output =>
    match Identity.ofProbe output with
    | .error fault => return .error (.probe fault.reason)
    | .ok identity =>
      let id : SessionId ← Code.sessions .freshId
      let session := Session.ofHost id e found identity owns
      Code.sessions (.found session)
      Code.broker .hold
      if session.ownsHooks then Code.engine e (.register .broker)
      Code.engine e (.wish .configure)
      let _ : Bool ← Code.broker (.setPhase .ready)
      return .ok ()

/-- Pushes a session that a client describes: a remote one if it tells how it is connected. -/
def pushSession (e : EngineName) (identity : Identity) (connection : Option String)
    (owns : Option Bool) (origin : Option Origin) : Code Unit := do
  let id : SessionId ← Code.sessions .freshId
  let version : Version ← Code.engine e .version
  let s := match connection with
    | some c => Session.ofRemote id e version identity c
    | none => Session.ofHost id e version identity (owns.getD false)
  SessionChanges.push
    { s with ownsEngine := owns.getD s.ownsEngine, origin := origin.getD s.origin }

/-- A client's buffer with the errors of an outcome behind it, after a line break if the buffer ends
within a line. -/
def withErrors (buffer : String) (o : Outcome) : String :=
  if o.errorText.isEmpty then buffer
  else match buffer.toList.getLast? with
    | none | some '\n' => buffer ++ o.errorText
    | some _ => buffer.push '\n' ++ o.errorText

/-- Runs a command and adds the text of its errors to a buffer. -/
def executeBuffered (c : Command) (o : RequestOptions) (buffer : String) : Code Report := do
  let r ← Routing.submit c o none
  match r with
  | .ok outcome => return .buffered (some outcome.output) none (withErrors buffer outcome)
  | .error f => return .buffered none (some f) buffer

/-- Calls the hooks that an engine was last given. -/
def raise (e : EngineName) (call : Hooks → Code Report) : Code Report := do
  let hooks : Option Hooks ← Code.engine e .lastHooks
  match hooks with
  | none => return .noHooks
  | some h => call h

def handle : ClientRequest → Code Report
  | .setUp e owns => do return .lease (← setUp e owns)
  | .execute c o token => do return .response (← Routing.submit c o token)
  | .executeBuffered c o buffer => executeBuffered c o buffer
  | .readLine token => do
    let r : Except Failure (Option String) ← Code.invoke (.readLine token)
    return .line r
  | .onPipeline v => do return .value (← Reading.submit v)
  | .enterNestedPrompt => do return .entered (← Debugging.enterPrompt)
  | .exitNestedPrompt => do return .truth (← Debugging.exitPrompt)
  | .resume action wait => do
    let b : Bool ← Code.invoke (.resumeDebugger action wait)
    return .truth b
  | .abort debug => do
    Aborting.abort debug
    return .nothing
  | .pause => do
    Code.engine (← SessionChanges.currentEngine) (.wish .pause)
    return .nothing
  | .attach attached => do
    Code.broker (.setAttached attached)
    return .nothing
  | .pushSession e identity connection owns origin => do
    pushSession e identity connection owns origin
    return .nothing
  | .popSession => do return .session (← SessionChanges.pop .exit)
  | .dispose => do
    Code.invoke .dispose
    return .disposed
  | .drop => do
    Code.broker .letGo
    return .nothing
  | .invoke e c merge nested => do
    let r ← Engines.through e c merge nested
    return .invocation r
  | .setAvailability e a => do
    Engines.setAvailability e a
    return .nothing
  | .breakpoint e id change => raise e fun h => do
    let alive : Bool ← match h with
      | .broker => Code.broker .upgrade
      | .plans => pure false
    if alive then
      Code.broker (.notify (.breakpoint id change))
      Code.broker .letGo
    return .nothing
  | .availability e a => raise e fun h => do
    Engines.tellAvailability (some h) a
    return .nothing
  | .stop e event => raise e fun h => do
    let action : ResumeAction ← Code.invoke (.debuggerStopped h e event)
    return .action (some action)
  | .nested e => raise e fun h => do
    Code.invoke (.nestedPromptEntered h e)
    return .nothing
  | .engineStep e step => do
    let r : EngineReply ← Code.invoke (.engineStep e step)
    return .engineReply r
  | .idleStep step => Rehearsal.idleStep step
  | .idleExecute name v inner => do return .idleValue (← Rehearsal.idleExecute name v inner)
  | .lease frame token => do return .lease (← Leases.acquire frame (.future token))
  | .request frame c o => do
    let call : Nat ← Code.broker .ticket
    return .response (← Routing.ask frame ⟨call, c, o⟩)
  | .awaitExit frame => do
    let action : ResumeAction ← Code.frames (.awaitExit frame)
    return .action (some action)
  | .awaitFinish frame => do
    Code.frames (.awaitFinish frame)
    return .finished
  | .awaitCurrentExit trigger => do return .action (← Rehearsal.awaitCurrentExit trigger)
  | .shell => do
    let position : Nat ← Code.broker .listen
    let r : Except Failure Unit ← Code.invoke (.shellLoop position)
    return .lease r

/-- Whether a client holds on to the broker while its request is served. -/
def holdsBroker : ClientRequest → Bool
  | .execute .. | .executeBuffered .. | .readLine _ | .onPipeline _ | .enterNestedPrompt
  | .exitNestedPrompt | .resume .. | .dispose => true
  | _ => false

/-- Serves a client and reports what came of it. -/
def serve (name : String) (request : ClientRequest) : Code Unit := do
  if holdsBroker request then Code.broker .hold
  let report ← handle request
  if holdsBroker request then Code.broker .letGo
  Code.broker (.report name report)

end SessionBroker.Clients
