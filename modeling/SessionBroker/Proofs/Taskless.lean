import SessionBroker.Broker.Machine
import SessionBroker.Proofs.Scope

/-!
# Who takes tasks and keeps promises

Idle tasks are taken from the queue by the one who runs them, and promises are kept by him and by the
thread of a nested prompt, which is handed the promise by the client that entered the prompt. Everybody
else does nothing of the kind: his program is taskless.
-/

namespace SessionBroker

/-- Actions that neither begin an idle task nor keep a promise. -/
def Action.isTaskless : Action → Bool
  | .idle .take | .broker (.keep ..) => false
  | _ => true

/-- Procedures that are handed no promise to keep. -/
def Proc.isTaskless : Proc → Bool
  | .nestedPrompt .. => false
  | _ => true

/-- Programs that begin no idle task and keep no promise themselves, and hand none to others. -/
def tasklessScope : Scope brokerInterface :=
  ⟨fun a => a.isTaskless, fun proc => proc.isTaskless, fun proc => proc.isTaskless⟩

def Program.Taskless {α : Type} (p : Code α) : Prop := p.Within tasklessScope

namespace Program

variable {α β : Type} {p : Code α} {f : α → Code β}

theorem Taskless.bind (hp : p.Taskless) (hf : ∀ a, (f a).Taskless) : (p >>= f).Taskless :=
  Program.within_bind hp hf

theorem Taskless.onlyIf {c : Bool} {p : Code Unit} (hp : p.Taskless) : (Program.onlyIf c p).Taskless := by
  cases c
  · trivial
  · exact hp

theorem taskless_pure (a : α) : (pure a : Code α).Taskless := trivial

theorem taskless_engine (e : EngineName) (op : EngineOp) :
    (Code.engine e op).Taskless := ⟨rfl, fun _ => trivial⟩
theorem taskless_frames (op : FrameOp) : (Code.frames op).Taskless := ⟨rfl, fun _ => trivial⟩
theorem taskless_sessions (op : SessionOp) : (Code.sessions op).Taskless := ⟨rfl, fun _ => trivial⟩
theorem taskless_host (op : HostOp) : (Code.host op).Taskless := ⟨rfl, fun _ => trivial⟩
theorem taskless_invoke {proc : Proc} (other : proc.isTaskless) : (Code.invoke proc).Taskless :=
  ⟨other, fun _ => trivial⟩
theorem taskless_start {proc : Proc} (other : proc.isTaskless) : (Code.start proc).Taskless := ⟨other, trivial⟩
theorem taskless_idle {op : IdleOp} (other : (Action.idle op).isTaskless) : (Code.idle op).Taskless :=
  ⟨other, fun _ => trivial⟩
theorem taskless_broker {op : BrokerOp} (other : (Action.broker op).isTaskless) : (Code.broker op).Taskless :=
  ⟨other, fun _ => trivial⟩

end Program

attribute [grind ←] Program.Taskless.bind Program.Taskless.onlyIf
attribute [grind =] Action.isTaskless Proc.isTaskless
attribute [grind .] Program.taskless_pure Program.taskless_engine Program.taskless_frames
  Program.taskless_sessions Program.taskless_host Program.taskless_invoke Program.taskless_start
  Program.taskless_idle Program.taskless_broker

namespace Engines

@[grind .] theorem taskless_tellAvailability (hooks : Option Hooks) (a : Availability) :
    (tellAvailability hooks a).Taskless := by
  unfold tellAvailability
  split <;> grind

@[grind .] theorem taskless_setAvailability (e : EngineName) (a : Availability) :
    (setAvailability e a).Taskless := by
  grind [Engines.setAvailability]

@[grind .] theorem taskless_awaitRelease (e : EngineName) : (awaitRelease e).Taskless := by
  grind [Engines.awaitRelease]

@[grind .] theorem taskless_runScript (e : EngineName) (s : Script) : (runScript e s).Taskless := by
  cases s <;> grind [runScript]

@[grind .] theorem taskless_run (e : EngineName) (c : Command) : (run e c).Taskless := by
  grind [Engines.run]

@[grind .] theorem taskless_invoke (e : EngineName) (c : Command) (merge : Bool) :
    (invoke e c merge).Taskless := by
  grind [Engines.invoke]

@[grind .] theorem taskless_through (e : EngineName) (c : Command) (merge nested : Bool) :
    (through e c merge nested).Taskless := by
  grind [Engines.through]

@[grind .] theorem taskless_atPrompt (e : EngineName) (c : Command) : (atPrompt e c).Taskless := by
  grind [Engines.atPrompt]

@[grind .] theorem taskless_isStopped (e : EngineName) : (isStopped e).Taskless := by
  grind [Engines.isStopped]

@[grind .] theorem taskless_step (e : EngineName) (s : EngineStep) : (step e s).Taskless := by
  cases s <;> grind [Engines.step]

@[grind .] theorem taskless_playSteps (e : EngineName) (steps : List EngineStep) :
    (playSteps e steps).Taskless := by
  induction steps with
  | nil => grind [playSteps]
  | cons s rest ih => cases s <;> grind [playSteps]

@[grind .] theorem taskless_playStop (e : EngineName) (event : StopEvent) : (playStop e event).Taskless := by
  grind [Engines.playStop]

end Engines

namespace SessionChanges

@[grind .] theorem taskless_current : current.Taskless := by
  grind [SessionChanges.current]

@[grind .] theorem taskless_currentEngine : currentEngine.Taskless := by
  grind [SessionChanges.currentEngine]

@[grind .] theorem taskless_push (s : Session) : (push s).Taskless := by
  grind [SessionChanges.push]

@[grind .] theorem taskless_pop (change : SessionChange) : (pop change).Taskless := by
  unfold pop
  repeat' first
    | split
    | refine .bind ?_ fun _ => ?_
  all_goals grind

@[grind .] theorem taskless_popAll : popAll.Taskless := by
  grind [SessionChanges.popAll]

@[grind .] theorem taskless_adjust (probed : Identity) (changes : List Adjustment) :
    (adjust probed changes).Taskless := by
  induction changes with
  | nil => grind [adjust]
  | cons change rest ih => cases change <;> grind [adjust]

@[grind .] theorem taskless_probe (e : EngineName) (atPrompt : Bool) : (probe e atPrompt).Taskless := by
  grind [SessionChanges.probe]

@[grind .] theorem taskless_refresh (e : EngineName) (atPrompt : Bool) : (refresh e atPrompt).Taskless := by
  grind [SessionChanges.refresh]

end SessionChanges

namespace Leases

@[grind .] theorem taskless_acquire (frame : Nat) (caller : Gate.Caller) :
    (acquire frame caller).Taskless := by
  grind [Leases.acquire]

@[grind .] theorem taskless_await (frame ticket : Nat) (caller : Gate.Caller) :
    (await frame ticket caller).Taskless := by
  grind [Leases.await]

@[grind .] theorem taskless_release (frame : Nat) : (release frame).Taskless := by
  grind [Leases.release]

end Leases

namespace Aborting

@[grind .] theorem taskless_leavePrompts (e : EngineName) (frames : List FrameRef) :
    (leavePrompts e frames).Taskless := by
  induction frames with
  | nil => grind [Aborting.leavePrompts]
  | cons => grind [Aborting.leavePrompts]

@[grind .] theorem taskless_unwindPrompts : unwindPrompts.Taskless := by
  grind [Aborting.unwindPrompts]

@[grind .] theorem taskless_exitDebugger (action : ResumeAction) : (exitDebugger action).Taskless := by
  grind [Aborting.exitDebugger]

@[grind .] theorem taskless_abort (debug : Bool) : (abort debug).Taskless := by
  refine .bind (by grind) fun begun => ?_
  cases begun <;> grind

@[grind .] theorem taskless_awaitFinish (frames : List FrameRef) : (awaitFinish frames).Taskless := by
  induction frames with
  | nil => grind [Aborting.awaitFinish]
  | cons => grind [Aborting.awaitFinish]

@[grind .] theorem taskless_resume (action : ResumeAction) (wait : Bool) : (resume action wait).Taskless := by
  unfold resume
  repeat' first
    | split
    | refine .bind ?_ fun _ => ?_
  all_goals grind

@[grind .] theorem taskless_tearDown (ids : List Nat) : (tearDown ids).Taskless := by
  induction ids with
  | nil => grind [Aborting.tearDown]
  | cons => grind [Aborting.tearDown]

@[grind .] theorem taskless_popFrame (id : Nat) : (popFrame id).Taskless := by
  grind [Aborting.popFrame]

@[grind .] theorem taskless_endFrames (frames : List FrameRef) : (endFrames frames).Taskless := by
  induction frames with
  | nil => grind [Aborting.endFrames]
  | cons => grind [Aborting.endFrames]

@[grind .] theorem taskless_dispose : dispose.Taskless := by
  unfold dispose
  repeat' first
    | split
    | refine .bind ?_ fun _ => ?_
  all_goals grind

end Aborting

namespace Running

@[grind .] theorem taskless_write (kind : TextKind) (text : String) : (write kind text).Taskless := by
  grind [Running.write]

@[grind .] theorem taskless_writeLines (lines : List String) : (writeLines lines).Taskless := by
  induction lines with
  | nil => grind [Running.writeLines]
  | cons => grind [Running.writeLines]

@[grind .] theorem taskless_begin : begin.Taskless := by
  grind [Running.begin]

@[grind .] theorem taskless_finish (progress : Progress) (hadErrors : Bool) :
    (finish progress hadErrors).Taskless := by
  grind [Running.finish]

@[grind .] theorem taskless_send (frame : FrameRef) (e : EngineName) (q : Request) (route : Route) :
    (send frame e q route).Taskless := by
  grind [Running.send]

@[grind .] theorem taskless_present (q : Request) (v : Verdict) : (present q v).Taskless := by
  grind [Running.present]

@[grind .] theorem taskless_probeAfter (frame : FrameRef) (e : EngineName) (q : Request) (route : Route) (v : Verdict) :
    (probeAfter frame e q route v).Taskless := by
  grind [Running.probeAfter]

@[grind .] theorem taskless_conclude (frame : FrameRef) (e : EngineName) (q : Request) (route : Route) (v : Verdict) :
    (conclude frame e q route v).Taskless := by
  refine .bind (by grind) fun availability => ?_
  split
  · grind
  · exact .bind (Aborting.taskless_abort false) fun _ => by grind

@[grind .] theorem taskless_run (frame : FrameRef) (e : EngineName) (q : Request) (route : Route) :
    (run frame e q route).Taskless := by
  grind [Running.run]

end Running

namespace Routing

@[grind .] theorem taskless_surroundings (frame : FrameRef) : (surroundings frame).Taskless := by
  grind [Routing.surroundings]

@[grind .] theorem taskless_leased (frame : FrameRef) (q : Request) (route : Route) (token : Option Token) :
    (leased frame q route token).Taskless := by
  grind [Routing.leased]

@[grind .] theorem taskless_behindLoop (frame : FrameRef) (q : Request) : (behindLoop frame q).Taskless := by
  refine .bind (by grind) fun _ => .bind (by grind) fun _ => ?_
  grind

@[grind .] theorem taskless_answered (frame ticket : Nat) (a : Option (Mailbox.Answer Response)) :
    (answered frame ticket a).Taskless := by
  cases a <;> grind [answered]

@[grind .] theorem taskless_awaitAnswer (frame ticket : Nat) : (awaitAnswer frame ticket).Taskless := by
  grind [Routing.awaitAnswer]

@[grind .] theorem taskless_ask (frame : Nat) (q : Request) : (ask frame q).Taskless := by
  grind [Routing.ask]

@[grind .] theorem taskless_byMail (frame : FrameRef) (q : Request) : (byMail frame q).Taskless := by
  grind [Routing.byMail]

@[grind .] theorem taskless_attempt (frame : FrameRef) (q : Request) (token : Option Token) (r : Route) :
    (attempt frame q token r).Taskless := by
  cases r <;> grind [attempt]

@[grind .] theorem taskless_route (q : Request) (token : Option Token) : (route q token).Taskless := by
  grind [Routing.route]

@[grind .] theorem taskless_execute (q : Request) (token : Option Token) : (execute q token).Taskless := by
  refine .bind (by grind) fun phase => ?_
  split
  · grind
  · refine .bind (.onlyIf (by grind)) fun _ => .bind (.onlyIf (by grind)) fun _ => ?_
    exact .bind (by grind) fun r => .bind (.onlyIf (by grind)) fun _ => by grind

@[grind .] theorem taskless_submit (c : Command) (o : RequestOptions) (token : Option Token) :
    (submit c o token).Taskless := by
  grind [Routing.submit]

@[grind .] theorem taskless_serve (frame : FrameRef) (ticket : Nat) (q : Request) :
    (serve frame ticket q).Taskless := by
  refine .bind (by grind) fun _ => .bind (by grind) fun _ => ?_
  grind

@[grind .] theorem taskless_serveNext (frame : FrameRef) : (serveNext frame).Taskless := by
  grind [Routing.serveNext]

@[grind .] theorem taskless_messageLoop (frame : FrameRef) : (messageLoop frame).Taskless := by
  grind [Routing.messageLoop]

end Routing

namespace Debugging

@[grind .] theorem taskless_armRestart (frame : FrameRef) : (armRestart frame).Taskless := by
  grind [Debugging.armRestart]

@[grind .] theorem taskless_awaitUsable (changes : Nat) : (awaitUsable changes).Taskless := by
  grind [Debugging.awaitUsable]

@[grind .] theorem taskless_restartLoop (frame : FrameRef) : (restartLoop frame).Taskless := by
  grind [Debugging.restartLoop]

@[grind .] theorem taskless_probeStop (frame : FrameRef) (session : Session) :
    (probeStop frame session).Taskless := by
  grind [Debugging.probeStop]

@[grind .] theorem taskless_leaveStop (frame : FrameRef) (action : ResumeAction) :
    (leaveStop frame action).Taskless := by
  grind [Debugging.leaveStop]

@[grind .] theorem taskless_serviceStop (event : StopEvent) : (serviceStop event).Taskless := by
  refine .bind (by grind) fun _ => .bind (by grind) fun attached => ?_
  refine .bind (.onlyIf (by grind)) fun _ => .bind (by grind) fun interrupted => ?_
  refine .bind (.onlyIf (by grind)) fun _ => .bind (by grind) fun session => ?_
  refine .bind (by grind) fun frame => .bind (by grind) fun settings => ?_
  refine .bind (.onlyIf (by grind)) fun _ => .bind (.onlyIf (by grind)) fun _ => ?_
  refine .bind (by grind) fun exited => .bind (.onlyIf (by grind)) fun _ => ?_
  exact .bind (by grind) fun action => .bind (by grind) fun _ => by grind

@[grind .] theorem taskless_stopped (hooks : Hooks) (e : EngineName) (event : StopEvent) :
    (stopped hooks e event).Taskless := by
  cases hooks <;> grind [stopped]

@[grind .] theorem taskless_servicePrompt : servicePrompt.Taskless := by
  grind [Debugging.servicePrompt]

@[grind .] theorem taskless_promptEntered (hooks : Hooks) (e : EngineName) :
    (promptEntered hooks e).Taskless := by
  cases hooks <;> grind [promptEntered]

@[grind .] theorem taskless_exitPrompt : exitPrompt.Taskless := by
  refine .bind (by grind) fun _ => ?_
  grind

end Debugging

namespace Rehearsal

@[grind .] theorem taskless_begin (name : String) : (begin name).Taskless := by
  grind [Rehearsal.begin]

@[grind .] theorem taskless_idleSteps (name : String) (steps : List IdleStep) :
    (idleSteps name steps).Taskless := by
  induction steps with
  | nil => grind [idleSteps]
  | cons s rest ih => cases s <;> grind [idleSteps]

@[grind .] theorem taskless_idleStep (s : IdleStep) : (idleStep s).Taskless := by
  cases s <;> grind [idleStep]

@[grind .] theorem taskless_idleExecute (name : String) (v : Json.Value) (inner : List IdleStep) :
    (idleExecute name v inner).Taskless := by
  grind [Rehearsal.idleExecute]

@[grind .] theorem taskless_play (frame : Nat) (text : String) (part : Rehearsal.Part) :
    (play frame text part).Taskless := by
  cases part <;> grind [play]

@[grind .] theorem taskless_next (frame : Nat) : (next frame).Taskless := by
  refine .bind (by grind) fun next => ?_
  cases next <;> grind

@[grind .] theorem taskless_loop (frame : Nat) (pop : Bool) : (loop frame pop).Taskless := by
  grind [Rehearsal.loop]

@[grind .] theorem taskless_awaitCurrentExit (trigger : Option ResumeAction) :
    (awaitCurrentExit trigger).Taskless := by
  cases trigger <;> grind [awaitCurrentExit]

end Rehearsal

namespace Reading

@[grind .] theorem taskless_hostRead (reader : Nat) : (hostRead reader).Taskless := by
  grind [Reading.hostRead]

@[grind .] theorem taskless_readLoop : readLoop.Taskless := by
  refine .bind (by grind) fun _ => .bind (by grind) fun _ => .bind (by grind) fun _ => ?_
  grind

@[grind .] theorem taskless_readLine (token : Option Token) : (readLine token).Taskless := by
  refine .bind (by grind) fun phase => ?_
  split
  · grind
  · grind

@[grind .] theorem taskless_compute (v : Json.Value) : (compute v).Taskless := by
  grind [Reading.compute]

@[grind .] theorem taskless_valueBehindLoop (n : Nat) : (valueBehindLoop n).Taskless := by
  refine .bind (by grind) fun _ => .bind (by grind) fun _ => ?_
  grind

@[grind .] theorem taskless_onPipeline (n : Nat) : (onPipeline n).Taskless := by
  unfold onPipeline
  repeat' first
    | split
    | refine .bind ?_ fun _ => ?_
  all_goals grind

@[grind .] theorem taskless_submit (v : Json.Value) : (submit v).Taskless := by
  grind [Reading.submit]

end Reading

namespace Clients

@[grind .] theorem taskless_setUp (e : EngineName) (owns : Bool) : (setUp e owns).Taskless := by
  unfold setUp
  repeat' first
    | split
    | refine .bind ?_ fun _ => ?_
  all_goals grind

@[grind .] theorem taskless_pushSession (e : EngineName) (identity : Identity) (connection : Option String)
    (owns : Option Bool) (origin : Option Origin) :
    (pushSession e identity connection owns origin).Taskless := by
  grind [Clients.pushSession]

@[grind .] theorem taskless_executeBuffered (c : Command) (o : RequestOptions) (buffer : String) :
    (executeBuffered c o buffer).Taskless := by
  grind [Clients.executeBuffered]

theorem taskless_raise (e : EngineName) {call : Hooks → Code Report} (calls : ∀ h, (call h).Taskless) :
    (raise e call).Taskless := by
  refine .bind (Program.taskless_engine ..) fun hooks => ?_
  cases hooks with
  | none => trivial
  | some h => exact calls h

theorem taskless_breakpoint (e : EngineName) (id : Nat) (change : BreakpointChange) :
    (handle (.breakpoint e id change)).Taskless := by
  refine taskless_raise e fun h => ?_
  cases h with
  | plans => trivial
  | broker =>
    refine .bind (Program.taskless_broker rfl) fun alive => ?_
    cases alive <;> grind

/-- Every client is served so, but for those who start the thread of a nested prompt. -/
@[grind .] theorem taskless_handle {request : ClientRequest} (other : request ≠ .enterNestedPrompt) :
    (handle request).Taskless := by
  cases request
  case enterNestedPrompt => exact absurd rfl other
  case breakpoint e id change => exact taskless_breakpoint e id change
  case availability | stop | nested => exact taskless_raise _ fun h => by grind
  all_goals grind [handle]

@[grind .] theorem taskless_serve (name : String) {request : ClientRequest}
    (other : request ≠ .enterNestedPrompt) : (serve name request).Taskless := by
  grind [Clients.serve]

end Clients

namespace Shell

@[grind .] theorem taskless_complain (f : Failure) : (complain f).Taskless := by
  grind [Shell.complain]

@[grind .] theorem taskless_debuggerLine (line : String) : (debuggerLine line).Taskless := by
  grind [Shell.debuggerLine]

@[grind .] theorem taskless_debuggerRead (r : Except Failure (Option String)) :
    (debuggerRead r).Taskless := by
  unfold debuggerRead
  split <;> grind

@[grind .] theorem taskless_debuggerLoop : debuggerLoop.Taskless := by
  grind [Shell.debuggerLoop]

@[grind .] theorem taskless_wait (request : String) (position : Nat) : (wait request position).Taskless := by
  refine .bind (by grind) fun news => ?_
  split <;> grind

@[grind .] theorem taskless_loop (position : Nat) : (loop position).Taskless := by
  refine .bind (by grind) fun line => ?_
  split <;> grind

end Shell

/-- Only those who run idle tasks take them, only they and the threads of nested prompts keep promises, and
only those who enter nested prompts start such threads. -/
theorem taskless_body {proc : Proc} (runner : proc ≠ .pump)
    (thread : ∀ frame promise, proc ≠ .nestedPrompt frame promise)
    (starter : ∀ name, proc ≠ .serveClient name .enterNestedPrompt) : (body proc).Taskless := by
  cases proc with
  | pump => exact absurd rfl runner
  | nestedPrompt frame promise => exact absurd rfl (thread frame promise)
  | serveClient name request => exact Clients.taskless_serve name fun same => starter name (by rw [same])
  | _ => grind [body]

end SessionBroker
