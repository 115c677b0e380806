import SessionBroker.Broker.Aborting

/-!
# Running a command

What happens to a command once its way is chosen and the lease of its frame is held: it runs, its
outcome is shown and announced, and the session stack is brought up to date.
-/

namespace SessionBroker

structure Verdict where
  outcome : Outcome
  progress : Progress
  failure : Option EngineFailure
  /-- The text of its errors, if it reported any. -/
  errorText : Option String

namespace Verdict

/-- The verdict on what an engine gave: errors become text, a stop drops all output, and only a
failing engine is a failure. -/
def ofResult : Except EngineFailure Invocation → Verdict
  | .ok i =>
    let outcome := Outcome.ofOutput i.output
    if i.errors.isEmpty then ⟨outcome, .completed, none, none⟩
    else
      let text := ErrorReport.ofRecords i.errors
      ⟨{ outcome.addErrorText text with errors := i.errors }, .completed, none, some text⟩
  | .error (.runtime reason) =>
    ⟨Outcome.empty.addErrorText reason, .completed, none, some reason⟩
  | .error .stopped => ⟨.stopped, .aborted, none, none⟩
  | .error (.fatal reason) => ⟨.empty, .failed, some (.fatal reason), none⟩

/-- What the one who asked is told. -/
def response (v : Verdict) : Response :=
  match v.failure with
  | some f => .error (.engine f)
  | none => .ok v.outcome

end Verdict

namespace Running

def write (kind : TextKind) (text : String) : Code Unit :=
  Code.host (.call (.write kind text true))

/-- Writes lines of output to the host. -/
def writeLines : List String → Code Unit
  | [] => return
  | line :: rest => do
    write .normal line
    writeLines rest

def begin : Code Unit := do
  let _ : Bool ← Code.broker (.setPhase .running)
  Code.broker (.notify (.progress .running false))

/-- Announces how a command ended, unless an abort or the end of the broker has done so. -/
def finish (progress : Progress) (hadErrors : Bool) : Code Unit := do
  let before : Phase ← Code.broker .endCommand
  if before = .aborting then
    let _ : Bool ← Code.broker .clearAbortReport
    return
  if before = .disposed then return
  if progress = .aborted then
    let reported : Bool ← Code.broker .clearAbortReport
    if reported then return
  Code.broker (.notify (.progress progress hadErrors))

/-- Runs a command at the debugger's prompt or on the engine. A word that resumes the debugger sets
the exit of the frame. -/
def send (frame : FrameRef) (e : EngineName) (q : Request) (route : Route) :
    Code (Except EngineFailure Invocation) := do
  if route = .prompt then
    let r ← Engines.atPrompt e q.command
    match r with
    | .error f => return .error f
    | .ok reply =>
      match reply.resume with
      | some action => if frame.hasMailbox then
          let _ : Bool ← Code.frames (.tryExit frame.id action)
      | none => pure ()
      return .ok (.ofOutput reply.output)
  else
    Engines.through e q.command q.options.mergeErrors
      (frame.kind ≠ .topLevel || route = .idle)

/-- Shows the host what a command gave. -/
def present (q : Request) (v : Verdict) : Code Unit := do
  match v.errorText with
  | some text => if q.options.showErrors then write .error text
  | none => pure ()
  if q.options.showOutput then writeLines v.outcome.lines

/-- Asks an engine who it is after a command, unless that was asked just now or makes no sense. -/
def probeAfter (frame : FrameRef) (e : EngineName) (q : Request) (route : Route) (v : Verdict) :
    Code Unit := do
  let settings : BrokerSettings ← Code.broker .settings
  if settings.probes && !q.command.isProbe && !v.outcome.aborted && v.failure.isNone then
    let exited : Bool ← Code.frames (.hasExited frame.id)
    if !exited then SessionChanges.refresh e (route = .prompt)

/-- Ends a command. If the engine cannot be used any more its session is given up; else the engine
may be asked who it is. -/
def conclude (frame : FrameRef) (e : EngineName) (q : Request) (route : Route) (v : Verdict) :
    Code Response := do
  let availability : Availability ← Code.engine e .availability
  if availability.isUsable then
    probeAfter frame e q route v
    finish v.progress v.outcome.hadErrors
    return v.response
  else
    Aborting.abort false
    let _ ← SessionChanges.pop .exit
    finish v.progress v.outcome.hadErrors
    return .error (.sessionUnavailable
      ("session became unavailable while running '" ++ q.command.text ++ "'"))

/-- Runs a command while its frame's lease is held. -/
def run (frame : FrameRef) (e : EngineName) (q : Request) (route : Route) : Code Response := do
  begin
  if q.options.showInput then write .normal q.command.text
  let v := Verdict.ofResult (← send frame e q route)
  present q v
  conclude frame e q route v

end Running

end SessionBroker
