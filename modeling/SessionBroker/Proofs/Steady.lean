import SessionBroker.Proofs.Plain

/-!
# Steady programs

Most of what a broker does neither brings frames to the stack nor takes any off nor tears any down, and it
says nothing about stops of the debugger. Only stops and nested prompts do, and the end of the broker.
-/

namespace SessionBroker

def Action.IsSteady : Action → Prop
  | .frames (.push ..) | .frames (.remove _) | .frames (.dispose _) | .frames (.closeGate _)
  | .broker (.setStopEvent _) | .broker (.notify (.debuggerStop _))
  | .broker (.notify (.debuggerResumed _)) => False
  | _ => True

/-- Procedures that are no rehearsal of a frame. -/
def Proc.IsEarnest : Proc → Prop
  | .rehearsedLoop .. | .rehearsedNext _ => False
  | _ => True

/-- The frame that a procedure serves for good. -/
def Proc.served? : Proc → Option FrameRef
  | .messageLoop frame | .serveNext frame | .nestedPrompt frame _ => some frame
  | _ => none

/-- What steady programs do. -/
def steadyScope : Scope brokerInterface where
  acts := Action.IsSteady
  calls proc := proc.IsEarnest ∧ proc.served? = none
  starts proc := proc.IsEarnest ∧ proc.served? = none

@[simp] theorem steadyScope_acts {a : Action} : steadyScope.acts a ↔ a.IsSteady := Iff.rfl
@[simp] theorem steadyScope_calls {p : Proc} : steadyScope.calls p ↔ p.IsEarnest ∧ p.served? = none := Iff.rfl
@[simp] theorem steadyScope_starts {p : Proc} : steadyScope.starts p ↔ p.IsEarnest ∧ p.served? = none := Iff.rfl

attribute [simp] Action.IsSteady Proc.IsEarnest Proc.served?

/-! ## Commands -/

namespace Engines

variable {e : EngineName}

@[simp] theorem steady_tellAvailability (hooks : Option Hooks) (a : Availability) :
    (tellAvailability hooks a).Within steadyScope := by
  unfold tellAvailability
  split <;> simp

@[simp] theorem steady_setAvailability (a : Availability) :
    (setAvailability e a).Within steadyScope := by
  simp [setAvailability]

@[simp] theorem steady_awaitRelease : (awaitRelease e).Within steadyScope := by
  simp [awaitRelease]

@[simp] theorem steady_isStopped : (isStopped e).Within steadyScope := by
  simp [isStopped]

@[simp] theorem steady_runScript (s : Script) : (runScript e s).Within steadyScope := by
  cases s
  case «break» | nestedPrompt =>
    refine Program.within_bind (by simp) fun hooks => ?_
    cases hooks <;> simp
  all_goals simp [runScript]

@[simp] theorem steady_run (c : Command) : (run e c).Within steadyScope := by
  unfold run
  split
  · simp
  · refine Program.within_bind (by simp) fun script => ?_
    cases script <;> simp

@[simp] theorem steady_invoke (c : Command) (merge : Bool) : (invoke e c merge).Within steadyScope := by
  refine Program.within_bind (by simp) fun entered => ?_
  cases entered <;> simp

@[simp] theorem steady_through (c : Command) (merge nested : Bool) :
    (through e c merge nested).Within steadyScope := by
  refine Program.within_bind (by simp) fun answer => ?_
  cases answer <;> simp

@[simp] theorem steady_atPrompt (c : Command) : (atPrompt e c).Within steadyScope := by
  refine Program.within_bind (by simp) fun debugger => ?_
  simp only []
  split
  · simp
  · split
    · simp
    · split <;> simp

@[simp] theorem steady_step (step : EngineStep) : (Engines.step e step).Within steadyScope := by
  unfold Engines.step
  split <;> simp

@[simp] theorem steady_playSteps (steps : List EngineStep) : (playSteps e steps).Within steadyScope := by
  induction steps with
  | nil => simp [playSteps]
  | cons s rest ih => cases s <;> simp [playSteps, ih]

@[simp] theorem steady_playStop (event : StopEvent) : (playStop e event).Within steadyScope := by
  refine Program.within_bind (by simp) fun stopped => Program.within_bind (by simp) fun _ => ?_
  refine Program.within_bind (by simp) fun plan => ?_
  rcases plan with _ | ⟨steps, action⟩ <;> simp

end Engines

namespace SessionChanges

variable {e : EngineName}

@[simp] theorem steady_current : current.Within steadyScope := by
  simp [current]

@[simp] theorem steady_currentEngine : currentEngine.Within steadyScope := by
  simp [currentEngine]

@[simp] theorem steady_push (s : Session) : (push s).Within steadyScope := by
  simp [push]

@[simp] theorem steady_pop (change : SessionChange) : (pop change).Within steadyScope := by
  refine Program.within_bind (by simp) fun popped => ?_
  cases popped <;> simp

@[simp] theorem steady_popAll : popAll.Within steadyScope := by
  refine Program.within_bind (by simp) fun popped => ?_
  cases popped <;> simp

@[simp] theorem steady_adjust (probed : Identity) (changes : List Adjustment) :
    (adjust probed changes).Within steadyScope := by
  induction changes with
  | nil => simp [adjust]
  | cons change rest ih => cases change <;> simp [adjust, ih]

@[simp] theorem steady_probe (atPrompt : Bool) : (probe e atPrompt).Within steadyScope := by
  unfold probe
  split <;> exact Program.within_bind (by simp) fun _ => by simp

@[simp] theorem steady_refresh (atPrompt : Bool) : (refresh e atPrompt).Within steadyScope := by
  refine Program.within_bind (by simp) fun answer => ?_
  split <;> simp

end SessionChanges

namespace Aborting

variable {e : EngineName}

@[simp] theorem steady_leavePrompts (frames : List FrameRef) :
    (leavePrompts e frames).Within steadyScope := by
  induction frames with
  | nil => simp [leavePrompts]
  | cons f rest ih => simp [leavePrompts, ih]

@[simp] theorem steady_unwindPrompts : unwindPrompts.Within steadyScope := by
  simp [unwindPrompts]

@[simp] theorem steady_exitDebugger (action : ResumeAction) :
    (exitDebugger action).Within steadyScope := by
  refine Program.within_bind (by simp) fun live => ?_
  split <;> simp

@[simp] theorem steady_abort (debug : Bool) : (abort debug).Within steadyScope := by
  refine Program.within_bind (by simp) fun begun => ?_
  cases begun with
  | none => simp
  | some b => exact Program.within_bind (by simp) fun e => by simp

@[simp] theorem steady_awaitFinish (frames : List FrameRef) :
    (awaitFinish frames).Within steadyScope := by
  induction frames with
  | nil => simp [awaitFinish]
  | cons f rest ih => simp [awaitFinish, ih]

@[simp] theorem steady_resume (action : ResumeAction) (wait : Bool) :
    (resume action wait).Within steadyScope := by
  refine Program.within_bind (by simp) fun ticket => ?_
  refine Program.within_bind (by simp) fun _ => Program.within_bind (by simp) fun _ => ?_
  refine Program.within_bind (by simp) fun served => Program.within_bind (by simp) fun _ => ?_
  refine Program.within_bind (by simp) fun frame => ?_
  cases frame <;> simp

end Aborting

namespace Running

variable {frame : FrameRef} {e : EngineName} {q : Request} {route : Route}

@[simp] theorem steady_write (kind : TextKind) (text : String) :
    (write kind text).Within steadyScope := by
  simp [write]

@[simp] theorem steady_writeLines (lines : List String) :
    (writeLines lines).Within steadyScope := by
  induction lines with
  | nil => simp [writeLines]
  | cons line rest ih => simp [writeLines, ih]

@[simp] theorem steady_begin : begin.Within steadyScope := by
  simp [begin]

@[simp] theorem steady_finish (progress : Progress) (hadErrors : Bool) :
    (finish progress hadErrors).Within steadyScope := by
  simp [finish]

@[simp] theorem steady_send : (send frame e q route).Within steadyScope := by
  unfold send
  split
  · refine Program.within_bind (by simp) fun r => ?_
    cases r with
    | error f => simp
    | ok reply =>
      simp only []
      split <;> simp
  · simp

@[simp] theorem steady_present (v : Verdict) : (present q v).Within steadyScope := by
  unfold present
  cases v.errorText <;> simp

@[simp] theorem steady_probeAfter (v : Verdict) : (probeAfter frame e q route v).Within steadyScope := by
  simp [probeAfter]

@[simp] theorem steady_conclude (v : Verdict) : (conclude frame e q route v).Within steadyScope := by
  refine Program.within_bind (by simp) fun availability => ?_
  split
  · simp
  · exact Program.within_bind (by simp) fun _ => by simp

@[simp] theorem steady_runCommand : (Running.run frame e q route).Within steadyScope := by
  refine Program.within_bind (by simp) fun _ => ?_
  split
  · exact Program.within_bind (by simp) fun _ => by simp
  · simp

end Running

namespace Leases

@[simp] theorem steady_acquire (frame : Nat) (caller : Gate.Caller) :
    (acquire frame caller).Within steadyScope := by
  simp [acquire]

@[simp] theorem steady_await (frame ticket : Nat) (caller : Gate.Caller) :
    (await frame ticket caller).Within steadyScope := by
  refine Program.within_bind (by simp) fun answer => ?_
  cases answer <;> simp

@[simp] theorem steady_release (frame : Nat) : (release frame).Within steadyScope := by
  simp [release]

end Leases

/-! ## Ways of a request -/

namespace Routing

variable {frame : FrameRef} {q : Request}

@[simp] theorem steady_surroundings : (surroundings frame).Within steadyScope := by
  refine Program.within_bind (by simp) fun session => ?_
  exact Program.within_bind (by simp) fun _ => by simp

@[simp] theorem steady_leased (route : Route) (token : Option Token) :
    (leased frame q route token).Within steadyScope := by
  refine Program.within_bind (by simp) fun e => Program.within_bind (by simp) fun lease => ?_
  cases lease <;> simp

@[simp] theorem steady_behindLoop : (behindLoop frame q).Within steadyScope := by
  refine Program.within_bind (by simp) fun e => Program.within_bind (by simp) fun promise => ?_
  cases promise with
  | none => simp
  | some p =>
    refine Program.within_bind (by simp) fun payload => ?_
    rcases payload with _ | _ | _ | _ <;> simp

@[simp] theorem steady_answered (i ticket : Nat) (a : Option (Mailbox.Answer Response)) :
    (answered i ticket a).Within steadyScope := by
  cases a <;> simp [answered]

@[simp] theorem steady_awaitAnswer (i ticket : Nat) : (awaitAnswer i ticket).Within steadyScope := by
  exact Program.within_bind (by simp) fun _ => by simp

@[simp] theorem steady_ask (i : Nat) : (ask i q).Within steadyScope := by
  refine Program.within_bind (by simp) fun ticket => Program.within_bind (by simp) fun first => ?_
  refine Program.within_bind (by simp) fun answer => ?_
  cases answer <;> simp

@[simp] theorem steady_byMail : (byMail frame q).Within steadyScope := by
  refine Program.within_bind (by simp) fun r => ?_
  split <;> simp

@[simp] theorem steady_attempt (token : Option Token) (route : Route) :
    (attempt frame q token route).Within steadyScope := by
  cases route
  case idle =>
    refine Program.within_bind (by simp) fun r => ?_
    cases r <;> simp
  all_goals simp [attempt]

@[simp] theorem steady_route (token : Option Token) : (Routing.route q token).Within steadyScope := by
  refine Program.within_bind (by simp) fun frame => Program.within_bind (by simp) fun around => ?_
  refine Program.within_bind (by simp) fun r => ?_
  split <;> simp

@[simp] theorem steady_execute (token : Option Token) : (execute q token).Within steadyScope := by
  refine Program.within_bind (by simp) fun phase => ?_
  split
  · simp
  · refine Program.within_bind (by simp) fun _ => Program.within_bind (by simp) fun _ => ?_
    simp

@[simp] theorem steady_submit (c : Command) (o : RequestOptions) (token : Option Token) :
    (submit c o token).Within steadyScope := by
  simp [submit]

@[simp] theorem steady_serve (ticket : Nat) : (Routing.serve frame ticket q).Within steadyScope := by
  refine Program.within_bind (by simp) fun e => Program.within_bind (by simp) fun lease => ?_
  cases lease with
  | error f => simp
  | ok _ => exact Program.within_bind (by simp) fun around => by simp

end Routing

namespace Reading

@[simp] theorem steady_work (task : IdleTask) : (work task).Within steadyScope := by
  unfold work
  split
  · simp
  · refine Program.within_bind (by simp) fun taken => ?_
    cases taken <;> simp
  · exact Program.within_bind (by simp [Rehearsal.begin]) fun _ => by simp

@[simp] theorem steady_pump : pump.Within steadyScope := by
  refine Program.within_bind (by simp) fun task => ?_
  cases task with
  | none => simp
  | some t => exact Program.within_bind (by simp) fun _ => Program.within_bind (by simp) fun _ => by simp

@[simp] theorem steady_hostRead (reader : Nat) : (hostRead reader).Within steadyScope := by
  refine Program.within_bind (by simp) fun event => ?_
  cases event <;> simp

@[simp] theorem steady_readLoop : readLoop.Within steadyScope := by
  simp [readLoop]

@[simp] theorem steady_readLine (token : Option Token) : (readLine token).Within steadyScope := by
  refine Program.within_bind (by simp) fun phase => ?_
  split
  · simp
  · refine Program.within_bind (by simp) fun frame => Program.within_bind (by simp) fun lease => ?_
    cases lease <;> simp

@[simp] theorem steady_valueBehindLoop (n : Nat) : (valueBehindLoop n).Within steadyScope := by
  refine Program.within_bind (by simp) fun active => Program.within_bind (by simp) fun invoking => ?_
  split
  · simp
  · refine Program.within_bind (by simp) fun promise => ?_
    cases promise with
    | none => simp
    | some p =>
      refine Program.within_bind (by simp) fun payload => ?_
      rcases payload with _ | _ | _ | _ <;> simp

@[simp] theorem steady_onPipeline (n : Nat) : (onPipeline n).Within steadyScope := by
  refine Program.within_bind (by simp) fun phase => ?_
  split
  · simp
  · refine Program.within_bind (by simp) fun behind => ?_
    cases behind with
    | some v => simp
    | none =>
      refine Program.within_bind (by simp) fun taken => ?_
      cases taken with
      | none => simp
      | some v =>
        refine Program.within_bind (by simp) fun frame => Program.within_bind (by simp) fun lease => ?_
        cases lease <;> simp

end Reading

/-! ## Stops, prompts and rehearsals -/

namespace Debugging

variable {frame : FrameRef}

@[simp] theorem steady_armRestart : (armRestart frame).Within steadyScope := by
  simp [armRestart]

@[simp] theorem steady_awaitUsable (changes : Nat) : (awaitUsable changes).Within steadyScope := by
  simp [awaitUsable]

@[simp] theorem steady_restartLoop : (restartLoop frame).Within steadyScope := by
  simp [restartLoop]

@[simp] theorem steady_probeStop (session : Session) : (probeStop frame session).Within steadyScope := by
  refine Program.within_bind (by simp) fun lease => ?_
  cases lease <;> simp

@[simp] theorem steady_exitPrompt : exitPrompt.Within steadyScope := by
  simp [exitPrompt]

end Debugging

namespace Rehearsal

@[simp] theorem steady_idleSteps (name : String) (steps : List IdleStep) :
    (idleSteps name steps).Within steadyScope := by
  induction steps with
  | nil => simp [idleSteps]
  | cons s rest ih => cases s <;> simp [idleSteps, ih]

@[simp] theorem steady_idleExecute (name : String) (v : Json.Value) (inner : List IdleStep) :
    (idleExecute name v inner).Within steadyScope := by
  refine Program.within_bind (by simp) fun promise => ?_
  cases promise with
  | none => simp
  | some p =>
    refine Program.within_bind (by simp) fun payload => ?_
    rcases payload with _ | _ | _ | _ <;> simp

@[simp] theorem steady_awaitCurrentExit (trigger : Option ResumeAction) :
    (awaitCurrentExit trigger).Within steadyScope := by
  unfold awaitCurrentExit
  cases trigger <;> simp

end Rehearsal

namespace Shell

@[simp] theorem steady_complain (f : Failure) : (complain f).Within steadyScope := by
  simp [complain]

@[simp] theorem steady_debuggerLoop : debuggerLoop.Within steadyScope := by
  refine Program.within_bind (by simp) fun stop => ?_
  split
  · simp
  · refine Program.within_bind (by simp) fun read => ?_
    rcases read with f | _ | line
    · cases f <;> simp [debuggerRead]
    · simp [debuggerRead]
    · show (debuggerLine _).Within _
      unfold debuggerLine
      split
      · simp
      · split
        · simp
        · refine Program.within_bind (by simp) fun r => ?_
          cases r <;> simp

@[simp] theorem steady_wait (request : String) (position : Nat) :
    (wait request position).Within steadyScope := by
  refine Program.within_bind (by simp) fun news => ?_
  split
  · simp
  · split <;> simp

@[simp] theorem steady_loop (position : Nat) : (loop position).Within steadyScope := by
  refine Program.within_bind (by simp) fun read => ?_
  rcases read with f | _ | line <;> simp

end Shell

/-! ## Clients -/

namespace Clients

@[simp] theorem steady_setUp (e : EngineName) (owns : Bool) : (setUp e owns).Within steadyScope := by
  refine Program.within_bind (by simp) fun settings => Program.within_bind (by simp) fun found => ?_
  split
  · simp
  · refine Program.within_bind (by simp) fun answer => ?_
    rcases answer with f | output
    · simp
    · simp only []
      split <;> simp

theorem steady_raise {e : EngineName} {call : Hooks → Code Report}
    (h : ∀ hooks, (call hooks).Within steadyScope) : (raise e call).Within steadyScope := by
  refine Program.within_bind (by simp) fun hooks => ?_
  cases hooks with
  | none => simp
  | some hooks => exact h hooks

/-- Of all that clients may ask for, only to enter a prompt is not handled steadily. -/
theorem steady_handle {request : ClientRequest} (stays : request ≠ .enterNestedPrompt) :
    (handle request).Within steadyScope := by
  cases request
  case enterNestedPrompt => exact absurd rfl stays
  case executeBuffered c o buffer =>
    refine Program.within_bind (by simp) fun r => ?_
    cases r <;> simp
  case onPipeline v => simp [handle, Reading.submit]
  case pushSession => simp [handle, pushSession]
  case breakpoint =>
    refine steady_raise fun hooks => ?_
    cases hooks <;> simp
  case availability => exact steady_raise fun hooks => Program.within_bind (by simp) fun _ => by simp
  case stop | nested => exact steady_raise fun hooks => by simp
  case lease => exact Program.within_bind (by simp) fun _ => by simp
  case request => exact Program.within_bind (by simp) fun call => Program.within_bind (by simp) fun _ => by simp
  case idleStep step => cases step <;> simp [handle, Rehearsal.idleStep]
  all_goals simp [handle]

/-- Whoever serves a client does no more than handle its request. -/
theorem steady_serve {name : String} {request : ClientRequest}
    (h : (handle request).Within steadyScope) : (serve name request).Within steadyScope := by
  unfold serve
  split
  · exact Program.within_bind (by simp) fun _ => Program.within_bind h fun report => by simp [*]
  · exact Program.within_bind h fun report => by simp [*]

end Clients

/-- Procedures that are not steady. -/
def Proc.IsStir : Proc → Prop
  | .debuggerStopped .broker _ _ | .nestedPromptEntered .broker _ | .nestedPrompt .. | .dispose
  | .messageLoop _ | .serveNext _ | .rehearsedLoop .. | .rehearsedNext _
  | .serveClient _ .enterNestedPrompt => True
  | _ => False

theorem steady_body {proc : Proc} (steady : ¬proc.IsStir) : (body proc).Within steadyScope := by
  cases proc
  case debuggerStopped hooks e event =>
    cases hooks with
    | broker => exact absurd trivial steady
    | plans => simp [body, Debugging.stopped]
  case nestedPromptEntered hooks e =>
    cases hooks with
    | broker => exact absurd trivial steady
    | plans => simp [body, Debugging.promptEntered]
  case serveClient name request =>
    refine Clients.steady_serve (Clients.steady_handle ?_)
    rintro rfl
    exact steady trivial
  case compute => simp [body, Reading.compute]
  all_goals first | exact absurd trivial steady | simp [body]

/-! ## Discretion -/

/-- Actions that say nothing about stops of the debugger and bring no top-level frame to the stack. -/
def Action.IsDiscreet : Action → Prop
  | .frames (.push kind _) => kind ≠ .topLevel
  | .broker (.setStopEvent _) | .broker (.notify (.debuggerStop _))
  | .broker (.notify (.debuggerResumed _)) => False
  | _ => True

/-- Those who are no rehearsal say nothing about stops but at a stop. -/
def discreetScope : Scope brokerInterface := ⟨Action.IsDiscreet, Proc.IsEarnest, Proc.IsEarnest⟩

/-- Nor do they push a top-level frame there. -/
def earnestScope : Scope brokerInterface :=
  ⟨fun a => ∀ remote, a ≠ .frames (.push .topLevel remote), Proc.IsEarnest, Proc.IsEarnest⟩

@[simp] theorem discreetScope_acts {a : Action} : discreetScope.acts a ↔ a.IsDiscreet := Iff.rfl
@[simp] theorem discreetScope_calls {p : Proc} : discreetScope.calls p ↔ p.IsEarnest := Iff.rfl
@[simp] theorem discreetScope_starts {p : Proc} : discreetScope.starts p ↔ p.IsEarnest := Iff.rfl
@[simp] theorem earnestScope_acts {a : Action} :
    earnestScope.acts a ↔ ∀ remote, a ≠ .frames (.push .topLevel remote) := Iff.rfl
@[simp] theorem earnestScope_calls {p : Proc} : earnestScope.calls p ↔ p.IsEarnest := Iff.rfl
@[simp] theorem earnestScope_starts {p : Proc} : earnestScope.starts p ↔ p.IsEarnest := Iff.rfl

attribute [simp] Action.IsDiscreet

section Discreet

variable {α β : Type} {p : Code α} {f : α → Code β}

theorem discreet_of_steady (h : p.Within steadyScope) : p.Within discreetScope := by
  refine Program.Within.mono (S := steadyScope) (fun a steady => ?_) (fun _ h => h.1) (fun _ h => h.1) h
  rcases a with _ | op | _ | _ | _ | op
  case frames => cases op <;> first | exact steady.elim | trivial
  case broker =>
    cases op
    case notify n => cases n <;> first | exact steady.elim | trivial
    all_goals first | exact steady.elim | trivial
  all_goals trivial

theorem earnest_of_discreet (h : p.Within discreetScope) : p.Within earnestScope := by
  refine Program.Within.mono (S := discreetScope) (fun a discreet => ?_) (fun _ h => h) (fun _ h => h) h
  rintro remote rfl
  exact discreet rfl

/-- What follows something steady decides whether all is discreet. -/
theorem discreet_then (hp : p.Within steadyScope) (hf : ∀ a, (f a).Within discreetScope) :
    (p >>= f).Within discreetScope :=
  Program.within_bind (discreet_of_steady hp) hf

end Discreet

namespace Aborting

@[simp] theorem discreet_popFrame (i : Nat) : (popFrame i).Within discreetScope := by
  refine Program.within_bind (by simp) fun gone => ?_
  induction gone with
  | nil => simp [tearDown]
  | cons j rest ih => exact ⟨trivial, fun _ => ⟨trivial, fun _ => ih⟩⟩

theorem discreet_endFrames (frames : List FrameRef) : (endFrames frames).Within discreetScope := by
  induction frames with
  | nil => simp [endFrames]
  | cons f rest ih =>
    simp only [endFrames]
    split
    · refine Program.within_bind (by simp) fun _ => Program.within_bind (by simp) fun served => ?_
      split
      · exact Program.within_bind ih fun _ => by simp
      · exact Program.within_bind (by simp) fun _ => ih
    · exact ih

theorem discreet_dispose : dispose.Within discreetScope := by
  refine Program.within_bind (by simp) fun phase => ?_
  split
  · simp
  · refine discreet_then (by simp) fun _ => Program.within_bind (by simp) fun live => ?_
    refine Program.within_bind (discreet_endFrames live) fun served => ?_
    exact discreet_then (by simp) fun _ => by simp

end Aborting

namespace Routing

theorem discreet_messageLoop (frame : FrameRef) : (messageLoop frame).Within discreetScope := by
  simp [messageLoop]

theorem discreet_serveNext (frame : FrameRef) : (serveNext frame).Within discreetScope := by
  refine Program.within_bind (by simp) fun next => ?_
  cases next <;> simp

end Routing

namespace Debugging

theorem discreet_servicePrompt : servicePrompt.Within discreetScope := by
  exact discreet_then (by simp) fun session => by simp

theorem discreet_enterPrompt : enterPrompt.Within discreetScope := by
  refine Program.within_bind (by simp) fun phase => ?_
  split
  · simp
  · exact discreet_then (by simp) fun session => by simp

theorem earnest_serviceStop (event : StopEvent) : (serviceStop event).Within earnestScope := by
  have steady : ∀ {α : Type} {p : Code α}, p.Within steadyScope → p.Within earnestScope := fun h =>
    earnest_of_discreet (discreet_of_steady h)
  have pop : ∀ i, (Aborting.popFrame i).Within earnestScope := fun i => earnest_of_discreet (by simp)
  refine Program.within_bind (by simp) fun _ => Program.within_bind (by simp) fun attached => ?_
  refine Program.within_bind (by simp) fun _ => Program.within_bind (by simp) fun interrupted => ?_
  refine Program.within_bind (by simp) fun _ => Program.within_bind (steady (by simp)) fun session => ?_
  refine Program.within_bind (by simp) fun frame => Program.within_bind (by simp) fun settings => ?_
  refine Program.within_bind (steady (by simp)) fun _ => Program.within_bind (steady (by simp)) fun _ => ?_
  refine Program.within_bind (by simp) fun exited => Program.within_bind (by simp) fun _ => ?_
  refine Program.within_bind (by simp) fun action => Program.within_bind ?_ fun _ => by simp
  refine Program.within_bind (by simp) fun _ => Program.within_bind (by simp) fun _ => ?_
  split
  · refine Program.within_bind (steady (by simp)) fun session => ?_
    split
    · exact Program.within_bind (steady (by simp)) fun _ => pop _
    · exact pop _
  · exact Program.within_bind (by simp) fun _ => pop _

end Debugging

/-- Services of a stop of the debugger. -/
def Proc.IsStop : Proc → Prop
  | .debuggerStopped .broker _ _ => True
  | _ => False

theorem discreet_body {proc : Proc} (earnest : proc.IsEarnest) (away : ¬proc.IsStop) :
    (body proc).Within discreetScope := by
  by_cases stir : proc.IsStir
  · cases proc
    case debuggerStopped hooks e event =>
      cases hooks with
      | plans => exact stir.elim
      | broker => exact absurd trivial away
    case nestedPromptEntered hooks e =>
      cases hooks with
      | plans => exact stir.elim
      | broker =>
        refine Program.within_bind (by simp) fun alive => ?_
        split
        · exact Program.within_bind Debugging.discreet_servicePrompt fun _ => by simp
        · simp
    case nestedPrompt frame promise => simp [body, Debugging.promptThread]
    case dispose => exact Aborting.discreet_dispose
    case messageLoop frame => exact Routing.discreet_messageLoop frame
    case serveNext frame => exact Routing.discreet_serveNext frame
    case serveClient name request =>
      cases request
      case enterNestedPrompt =>
        refine Program.within_bind (by simp) fun _ => ?_
        refine Program.within_bind (Program.within_bind Debugging.discreet_enterPrompt fun r => by simp) ?_
        simp [Clients.holdsBroker]
      all_goals exact stir.elim
    all_goals first | exact stir.elim | exact earnest.elim
  · exact discreet_of_steady (steady_body stir)

theorem earnest_body {proc : Proc} (earnest : proc.IsEarnest) : (body proc).Within earnestScope := by
  by_cases stop : proc.IsStop
  · cases proc
    case debuggerStopped hooks e event =>
      cases hooks with
      | plans => exact stop.elim
      | broker =>
        refine Program.within_bind (by simp) fun alive => ?_
        split
        · simp
        · exact Program.within_bind (Debugging.earnest_serviceStop event) fun action => by simp
    all_goals exact stop.elim
  · exact earnest_of_discreet (discreet_body earnest stop)

end SessionBroker
