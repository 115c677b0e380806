import SessionBroker.Broker.Routing

/-!
# Debugger stops and nested prompts

The engine calls back on the thread that runs a command: the debugger stopped, or a nested prompt
began. That thread then serves a frame of its own until the frame is left.
-/

namespace SessionBroker.Debugging

/-- Starts the read loop again once the stop is over and the session can be used; this flow is
started when the stop interrupts a read loop. -/
def armRestart (frame : FrameRef) : Code Unit := do
  Code.broker .hold
  Code.start (.restartLoop frame)

/-- Waits until the current session's engine can be used; `changes` counts the changes seen so
far. -/
def awaitUsable (changes : Nat) : Code Unit := do
  let e ← SessionChanges.currentEngine
  let availability : Availability ← Code.engine e .availability
  if availability.isUsable then return
  let changes : Nat ← Code.broker (.awaitAvailability changes)
  Code.invoke (.awaitUsable changes)

/-- Waits for the end of a stop, then starts the read loop again. -/
def restartLoop (frame : FrameRef) : Code Unit := do
  Code.frames (.awaitFinish frame.id)
  let changes : Nat ← Code.broker .availabilityChanges
  Code.invoke (.awaitUsable changes)
  let phase : Phase ← Code.broker .phase
  if phase ≠ .disposed then Code.host .startLoop
  Code.broker .letGo

/-- Probes at the prompt of a debugger that just stopped. -/
def probeStop (frame : FrameRef) (session : Session) : Code Unit := do
  let lease ← Leases.acquire frame.id .thread
  match lease with
  | .error _ => return
  | .ok _ =>
    SessionChanges.refresh session.engine true
    Leases.release frame.id

/-- Leaves a stop: the stop is forgotten and its end announced. A stop that ends the command also
ends a session that the debugger entered. -/
def leaveStop (frame : FrameRef) (action : ResumeAction) : Code Unit := do
  Code.broker (.setStopEvent none)
  Code.broker (.notify (.debuggerResumed action))
  if action = .stop then
    let session ← SessionChanges.current
    if session.origin = .debugged then
      let _ ← SessionChanges.pop .exit
  else
    let _ : Bool ← Code.broker (.setPhase .running)
  Aborting.popFrame frame.id

/-- Services a stop of the debugger until it is resumed. -/
def serviceStop (event : StopEvent) : Code ResumeAction := do
  Code.broker (.setStopEvent (some event))
  let attached : Bool ← Code.broker .isAttached
  Program.onlyIf (!attached) (Code.broker (.notify .startDebugger))
  let interrupted : Bool ← Code.idle .isActive
  Program.onlyIf interrupted (Code.host .stopLoop)
  let session ← SessionChanges.current
  let frame : FrameRef ← Code.frames (.push .debug session.isOutOfProcess)
  let settings : BrokerSettings ← Code.broker .settings
  Program.onlyIf (frame.hasMailbox && interrupted && settings.restartsLoop) (armRestart frame)
  Program.onlyIf settings.probes (probeStop frame session)
  let exited : Bool ← Code.frames (.hasExited frame.id)
  Program.onlyIf (!exited) (Code.broker (.notify (.debuggerStop event)))
  let action : ResumeAction ← Code.invoke (.messageLoop frame)
  leaveStop frame action
  return action

/-- The hooks are told of a stop of the debugger. -/
def stopped (hooks : Hooks) (e : EngineName) (event : StopEvent) : Code ResumeAction := do
  match hooks with
  | .plans => Engines.playStop e event
  | .broker =>
    let alive : Bool ← Code.broker .upgrade
    if !alive then return .continue
    let action ← serviceStop event
    Code.broker .letGo
    return action

/-- Serves a nested prompt on the current session until it is left. -/
def servicePrompt : Code Unit := do
  let session ← SessionChanges.current
  let frame : FrameRef ← Code.frames (.push .nestedPrompt session.isOutOfProcess)
  let _ : ResumeAction ← Code.invoke (.messageLoop frame)
  Aborting.popFrame frame.id

/-- The hooks are told of a nested prompt. -/
def promptEntered (hooks : Hooks) (e : EngineName) : Code Unit := do
  match hooks with
  | .plans => Code.broker (.trace (.nested (← Engines.isStopped e)))
  | .broker =>
    let alive : Bool ← Code.broker .upgrade
    if alive then
      servicePrompt
      Code.broker .letGo

/-- The thread of a nested prompt that a client entered. -/
def promptThread (frame : FrameRef) (promise : Nat) : Code Unit := do
  let action : ResumeAction ← Code.invoke (.messageLoop frame)
  Aborting.popFrame frame.id
  Code.broker (.keep promise (.loopEnded action))
  Code.broker .letGo

/-- Enters a nested prompt and waits until it is left. -/
def enterPrompt : Code (Except Failure Unit) := do
  let phase : Phase ← Code.broker .phase
  if phase = .disposed then return .error .disposed
  let session ← SessionChanges.current
  let frame : FrameRef ← Code.frames (.push .nestedPrompt session.isOutOfProcess)
  let promise : Nat ← Code.broker .promise
  Code.broker .hold
  Code.start (.nestedPrompt frame promise)
  let _ : Option Payload ← Code.broker (.awaitPromise promise)
  return .ok ()

/-- Leaves the nested prompt that is current and waits until its frame is torn down; false if the
current frame is none. -/
def exitPrompt : Code Bool := do
  let first : FrameRef ← Code.frames .current
  if first.kind ≠ .nestedPrompt then return false
  let e ← SessionChanges.currentEngine
  let frame : FrameRef ← Code.frames .current
  if !frame.hasMailbox then return false
  Code.engine e (.wish .exitNested)
  let _ : Bool ← Code.frames (.tryExit frame.id .continue)
  let _ : ResumeAction ← Code.frames (.awaitExit frame.id)
  Code.frames (.awaitFinish frame.id)
  return true

end SessionBroker.Debugging
