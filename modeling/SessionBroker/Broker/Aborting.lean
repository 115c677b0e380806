import SessionBroker.Broker.SessionChanges

/-!
# Ending what is under way

Aborting commands, leaving nested prompts, and resuming a stopped debugger.
-/

namespace SessionBroker.Aborting

/-- Sets the exits of the nested prompts on top of a list of frames; gives the frames. -/
def leavePrompts (e : EngineName) : List FrameRef → Code (List FrameRef)
  | [] => return []
  | f :: rest => do
    if f.kind ≠ .nestedPrompt then return []
    Code.engine e (.wish .exitNested)
    if f.hasMailbox then
      let _ : Bool ← Code.frames (.tryExit f.id .continue)
      return f :: (← leavePrompts e rest)
    else leavePrompts e rest

/-- Sets the exits of the nested prompts on top of the stack; gives their frames. -/
def unwindPrompts : Code (List FrameRef) := do
  let e ← SessionChanges.currentEngine
  let live : List FrameRef ← Code.frames .live
  leavePrompts e live

/-- Sets the exit of the debugger stop below any nested prompts; gives its frame if that had an
effect. -/
def exitDebugger (action : ResumeAction) : Code (Option FrameRef) := do
  let live : List FrameRef ← Code.frames .live
  match live.find? (·.kind ≠ .nestedPrompt) with
  | none => return none
  | some f =>
    if f.kind = .debug && f.hasMailbox then
      let won : Bool ← Code.frames (.tryExit f.id action)
      return if won then some f else none
    else return none

/-- Stops the command that runs, or the debugger's stop if that is to be aborted. -/
def abort (debug : Bool) : Code Unit := do
  let begun : Option (Phase × Bool) ← Code.broker (.beginAbort debug)
  match begun with
  | none => return
  | some (before, debugger) =>
    let e ← SessionChanges.currentEngine
    if debugger then
      let _ ← unwindPrompts
      Code.engine e (.wish .stopCommand)
      let _ ← exitDebugger .stop
    else Code.engine e .stop
    Code.broker (.notify (.progress .aborted false))
    if before ≠ .running then
      let _ : Bool ← Code.broker (.setPhase .ready)

def awaitFinish : List FrameRef → Code Unit
  | [] => return
  | f :: rest => do
    Code.frames (.awaitFinish f.id)
    awaitFinish rest

/-- Resumes the stopped debugger once the nested prompts above it are left; false if none is
stopped. Those who resume take turns. -/
def resume (action : ResumeAction) (wait : Bool) : Code Bool := do
  let ticket : Nat ← Code.broker .ticket
  Code.broker (.queueResume ticket)
  Code.broker (.awaitResume ticket)
  awaitFinish (← unwindPrompts)
  let frame ← exitDebugger action
  match frame with
  | none =>
    Code.broker (.leaveResume ticket)
    return false
  | some f =>
    if wait then Code.frames (.awaitFinish f.id)
    Code.broker (.leaveResume ticket)
    return true

/-- Tears frames down that are off the stack. -/
def tearDown : List Nat → Code Unit
  | [] => return
  | id :: rest => do
    Code.frames (.dispose id)
    Code.frames (.closeGate id)
    tearDown rest

/-- Takes a frame and those above it off the stack and tears them down. -/
def popFrame (id : Nat) : Code Unit := do
  let gone : List Nat ← Code.frames (.remove id)
  tearDown gone

/-- Ends frames, the current one first: those that a thread serves are told to exit, the others are
taken off. Gives the frames that are served. -/
def endFrames : List FrameRef → Code (List FrameRef)
  | [] => return []
  | f :: rest => do
    if f.hasMailbox then
      let _ : Bool ← Code.frames (.tryExit f.id .stop)
      let served : Bool ← Code.frames (.hasServer f.id)
      if served then return f :: (← endFrames rest)
      popFrame f.id
      endFrames rest
    else endFrames rest

/-- Ends everything: what runs is aborted, all frames are left, all sessions popped, and the bottom
session's engine is closed if it is the broker's own. -/
def dispose : Code Unit := do
  let phase : Phase ← Code.broker .phase
  if phase = .disposed then return
  abort true
  let live : List FrameRef ← Code.frames .live
  let served ← endFrames live
  awaitFinish served
  Code.invoke .popSessions
  let bottom : Session ← Code.sessions .bottom
  if bottom.ownsHooks then Code.engine bottom.engine .unregister
  if bottom.ownsEngine then Code.engine bottom.engine .close
  Code.idle (.setActive false)
  let _ : Bool ← Code.broker (.setPhase .disposed)

end SessionBroker.Aborting
