import SessionBroker.Broker.Engines

/-!
# Changes of the session stack

Pushing and popping sessions, with the broker's hooks moved along and the notices sent, and the
probe that finds out who answers now.
-/

namespace SessionBroker.SessionChanges

def current : Code Session := Code.sessions .current

def currentEngine : Code EngineName := do
  let s ← current
  return s.engine

/-- Makes a session current. The hooks move to its engine if it owns them. -/
def push (s : Session) : Code Unit := do
  let previous : Session ← Code.sessions (.push s)
  if s.ownsHooks then
    if previous.ownsHooks then Code.engine previous.engine .unregister
    Code.engine s.engine (.register .broker)
  Code.broker (.notify (.sessionChanged .enter s))

/-- Pops the current session, unless it is the bottom one. The hooks move back if it owned them,
and an engine of its own is closed. -/
def pop (change : SessionChange) : Code (Option Session) := do
  let popped : Option (Session × Session) ← Code.sessions .pop
  match popped with
  | none => return none
  | some (s, now) =>
    if s.ownsHooks then
      Code.engine s.engine .unregister
      if now.ownsHooks then Code.engine now.engine (.register .broker)
    if s.ownsEngine then Code.engine s.engine .close
    Code.broker (.notify (.sessionChanged change now))
    return some s

/-- Pops sessions until only the bottom one is left. -/
def popAll : Code Unit := do
  let popped ← pop .shutdown
  match popped with
  | none => return
  | some _ => Code.invoke .popSessions

/-- Carries out the changes that a probe calls for. -/
def adjust (probed : Identity) : List Adjustment → Code Unit
  | [] => return
  | .pop :: rest => do
    let _ ← pop .exit
    adjust probed rest
  | .push origin location :: rest => do
    let s : Session ← Code.sessions (.derive origin location probed)
    push s
    adjust probed rest

/-- Asks an engine, at its debugger's prompt or as a nested command, who answers. -/
def probe (e : EngineName) (atPrompt : Bool) : Code (Except EngineFailure (List Json.Value)) := do
  if atPrompt then
    let r ← Engines.atPrompt e .probe
    return r.map (·.output)
  else
    let r ← Engines.through e .probe false true
    return r.map (·.output)

/-- Probes an engine and brings the session stack in line with the answer. Nothing happens if there
is no readable answer. -/
def refresh (e : EngineName) (atPrompt : Bool) : Code Unit := do
  let answer ← probe e atPrompt
  match answer.toOption.bind fun output => (Identity.ofProbe output).toOption with
  | none => return
  | some probed =>
    let stop : Option StopEvent ← Code.broker .stopEvent
    let changes : List Adjustment ← Code.sessions (.adjustments probed stop.isSome)
    adjust probed changes

end SessionBroker.SessionChanges
