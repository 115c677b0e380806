import SessionBroker.Proofs.Chronicle
import SessionBroker.Proofs.Taskless

/-!
# Who gives which signals

Some actions are signals to others: a command goes into an engine's history, a read loop is said to be active or
an idle task to run, a task is taken or a rehearsal scheduled, the host is told to start its read loop or to stop
it, and the completion of a command is announced. Each of them is given by few procedures; all other programs are
silent. Rehearsals are played only by those who take tasks.
-/

namespace SessionBroker

/-- Requests by which a client rehearses what read loops and their tasks do with the idle queue. -/
def ClientRequest.isRehearsal : ClientRequest → Bool
  | .idleStep _ | .idleExecute .. => true
  | _ => false

/-- Procedures that belong to rehearsals of the idle queue. -/
def Proc.isRehearsal : Proc → Bool
  | .serveClient _ request => request.isRehearsal
  | .idleSteps .. => true
  | _ => false

/-- Actions that are signals. -/
def Action.isSignal : Action → Bool
  | .engine _ (.remember _) | .idle (.setActive _) | .idle (.setInvoking _) | .idle .take
  | .idle (.schedule (.rehearsal ..)) | .host .startLoop | .host .stopLoop
  | .broker (.notify (.progress .completed _)) => true
  | _ => false

/-- Who gives which signals. -/
inductive Proc.Gives : Proc → Action → Prop where
  | remember {q : Request} {token : Option Token} {e : EngineName} : q.options.remember →
      Gives (.execute q token) (.engine e (.remember q.command.text))
  | interrupt {q : Request} {token : Option Token} : q.options.interrupt →
      Gives (.execute q token) (.host .stopLoop)
  | resume {q : Request} {token : Option Token} : q.options.interrupt →
      Gives (.execute q token) (.host .startLoop)
  | stop {e : EngineName} {event : StopEvent} : Gives (.debuggerStopped .broker e event) (.host .stopLoop)
  | restart {frame : FrameRef} : Gives (.restartLoop frame) (.host .startLoop)
  | direct {e : EngineName} {text : String} : Gives (.engineStep e (.remember text)) (.engine e (.remember text))
  | take : Gives .pump (.idle .take)
  | run {b : Bool} : Gives .pump (.idle (.setInvoking b))
  | read {frame : FrameRef} {b : Bool} : Gives (.readLoop frame) (.idle (.setActive b))
  | dispose : Gives .dispose (.idle (.setActive false))
  | rehearse {name : String} {steps : List IdleStep} {b : Bool} :
      Gives (.idleSteps name steps) (.idle (.setActive b))
  | ask {name : String} {b : Bool} : Gives (.serveClient name (.idleStep (.setActive b))) (.idle (.setActive b))
  | plan {proc : Proc} {name : String} {inner : List IdleStep} {v : Json.Value} : proc.isRehearsal →
      Gives proc (.idle (.schedule (.rehearsal name inner v)))
  | complete {frame : FrameRef} {e : EngineName} {q : Request} {route : Route} {b : Bool} :
      Gives (.runCommand frame e q route) (.broker (.notify (.progress .completed b)))

/-- Programs that give no signals but some, and play rehearsals only if they may take tasks. -/
def signalScope (P : Action → Prop) : Scope brokerInterface :=
  ⟨fun a => a.isSignal → P a, fun proc => proc.isRehearsal → P (.idle .take),
    fun proc => proc.isRehearsal → P (.idle .take)⟩

def Program.Gives {α : Type} (P : Action → Prop) (p : Code α) : Prop := p.Within (signalScope P)

variable {P : Action → Prop}

namespace Program

variable {α β : Type} {p : Code α} {f : α → Code β}

theorem Gives.bind (hp : p.Gives P) (hf : ∀ a, (f a).Gives P) : (p >>= f).Gives P :=
  Program.within_bind hp hf

theorem Gives.onlyIf {c : Bool} {p : Code Unit} (hp : p.Gives P) : (Program.onlyIf c p).Gives P := by
  cases c
  · trivial
  · exact hp

theorem gives_perform {action : Action} (may : action.isSignal → P action) :
    (Program.perform (I := brokerInterface) action).Gives P := ⟨may, fun _ => trivial⟩

theorem silent_perform {action : Action} (silent : action.isSignal = false) :
    (Program.perform (I := brokerInterface) action).Gives P :=
  gives_perform fun signal => absurd signal (by rw [silent]; decide)

theorem silent_pure (a : α) : (pure a : Code α).Gives P := trivial

theorem silent_engine {e : EngineName} {op : EngineOp} (silent : (Action.engine e op).isSignal = false) :
    (Code.engine e op).Gives P := silent_perform silent
theorem silent_frames (op : FrameOp) : (Code.frames op).Gives P := silent_perform rfl
theorem silent_sessions (op : SessionOp) : (Code.sessions op).Gives P := silent_perform rfl
theorem silent_idle {op : IdleOp} (silent : (Action.idle op).isSignal = false) : (Code.idle op).Gives P :=
  silent_perform silent
theorem silent_host {op : HostOp} (silent : (Action.host op).isSignal = false) : (Code.host op).Gives P :=
  silent_perform silent
theorem silent_broker {op : BrokerOp} (silent : (Action.broker op).isSignal = false) :
    (Code.broker op).Gives P := silent_perform silent
theorem gives_invoke {proc : Proc} (may : proc.isRehearsal → P (.idle .take)) : (Code.invoke proc).Gives P :=
  ⟨may, fun _ => trivial⟩
theorem silent_invoke {proc : Proc} (other : proc.isRehearsal = false) : (Code.invoke proc).Gives P :=
  gives_invoke fun rehearsal => absurd rehearsal (by rw [other]; decide)
theorem silent_start {proc : Proc} (other : proc.isRehearsal = false) : (Code.start proc).Gives P :=
  ⟨fun rehearsal => absurd rehearsal (by rw [other]; decide), trivial⟩

end Program

attribute [grind ←] Program.Gives.bind Program.Gives.onlyIf
attribute [grind =] Action.isSignal Proc.isRehearsal ClientRequest.isRehearsal
attribute [grind .] Program.silent_pure Program.silent_engine Program.silent_frames Program.silent_sessions
  Program.silent_idle Program.silent_host Program.silent_broker Program.silent_invoke Program.silent_start

namespace Engines

@[grind .] theorem silent_tellAvailability (hooks : Option Hooks) (a : Availability) :
    (tellAvailability hooks a).Gives P := by
  unfold tellAvailability
  split <;> grind

@[grind .] theorem silent_setAvailability (e : EngineName) (a : Availability) :
    (setAvailability e a).Gives P := by
  grind [Engines.setAvailability]

@[grind .] theorem silent_awaitRelease (e : EngineName) : (awaitRelease e).Gives P := by
  grind [Engines.awaitRelease]

@[grind .] theorem silent_runScript (e : EngineName) (s : Script) : (runScript e s).Gives P := by
  cases s
  case «break» event =>
    refine .bind (Program.silent_engine rfl) fun hooks => ?_
    cases hooks <;> grind
  all_goals grind [runScript]

@[grind .] theorem silent_run (e : EngineName) (c : Command) : (run e c).Gives P := by
  grind [Engines.run]

@[grind .] theorem silent_invoke (e : EngineName) (c : Command) (merge : Bool) :
    (invoke e c merge).Gives P := by
  grind [Engines.invoke]

@[grind .] theorem silent_through (e : EngineName) (c : Command) (merge nested : Bool) :
    (through e c merge nested).Gives P := by
  grind [Engines.through]

@[grind .] theorem silent_atPrompt (e : EngineName) (c : Command) : (atPrompt e c).Gives P := by
  grind [Engines.atPrompt]

@[grind .] theorem silent_isStopped (e : EngineName) : (isStopped e).Gives P := by
  grind [Engines.isStopped]

theorem gives_step {e : EngineName} {s : EngineStep}
    (direct : ∀ text, s = .remember text → P (.engine e (.remember text))) : (step e s).Gives P := by
  cases s
  case remember text =>
    exact .bind (Program.gives_perform fun _ => direct text rfl) fun _ => by grind
  all_goals grind [Engines.step]

@[grind .] theorem silent_playSteps (e : EngineName) (steps : List EngineStep) :
    (playSteps e steps).Gives P := by
  induction steps with
  | nil => grind [playSteps]
  | cons s rest ih => cases s <;> grind [playSteps]

@[grind .] theorem silent_playStop (e : EngineName) (event : StopEvent) : (playStop e event).Gives P := by
  grind [Engines.playStop]

end Engines

namespace SessionChanges

@[grind .] theorem silent_current : current.Gives P := by
  grind [SessionChanges.current]

@[grind .] theorem silent_currentEngine : currentEngine.Gives P := by
  grind [SessionChanges.currentEngine]

@[grind .] theorem silent_push (s : Session) : (push s).Gives P := by
  grind [SessionChanges.push]

@[grind .] theorem silent_pop (change : SessionChange) : (pop change).Gives P := by
  unfold pop
  repeat' first
    | split
    | refine .bind ?_ fun _ => ?_
  all_goals grind

@[grind .] theorem silent_popAll : popAll.Gives P := by
  grind [SessionChanges.popAll]

@[grind .] theorem silent_adjust (probed : Identity) (changes : List Adjustment) :
    (adjust probed changes).Gives P := by
  induction changes with
  | nil => grind [adjust]
  | cons change rest ih => cases change <;> grind [adjust]

@[grind .] theorem silent_probe (e : EngineName) (atPrompt : Bool) : (probe e atPrompt).Gives P := by
  grind [SessionChanges.probe]

@[grind .] theorem silent_refresh (e : EngineName) (atPrompt : Bool) : (refresh e atPrompt).Gives P := by
  grind [SessionChanges.refresh]

end SessionChanges

namespace Leases

@[grind .] theorem silent_acquire (frame : Nat) (caller : Gate.Caller) :
    (acquire frame caller).Gives P := by
  grind [Leases.acquire]

@[grind .] theorem silent_await (frame ticket : Nat) (caller : Gate.Caller) :
    (await frame ticket caller).Gives P := by
  grind [Leases.await]

@[grind .] theorem silent_release (frame : Nat) : (release frame).Gives P := by
  grind [Leases.release]

end Leases

namespace Aborting

@[grind .] theorem silent_leavePrompts (e : EngineName) (frames : List FrameRef) :
    (leavePrompts e frames).Gives P := by
  induction frames with
  | nil => grind [Aborting.leavePrompts]
  | cons => grind [Aborting.leavePrompts]

@[grind .] theorem silent_unwindPrompts : unwindPrompts.Gives P := by
  grind [Aborting.unwindPrompts]

@[grind .] theorem silent_exitDebugger (action : ResumeAction) : (exitDebugger action).Gives P := by
  grind [Aborting.exitDebugger]

@[grind .] theorem silent_abort (debug : Bool) : (abort debug).Gives P := by
  refine .bind (by grind) fun begun => ?_
  cases begun <;> grind

@[grind .] theorem silent_awaitFinish (frames : List FrameRef) : (awaitFinish frames).Gives P := by
  induction frames with
  | nil => grind [Aborting.awaitFinish]
  | cons => grind [Aborting.awaitFinish]

@[grind .] theorem silent_resume (action : ResumeAction) (wait : Bool) : (resume action wait).Gives P := by
  unfold resume
  repeat' first
    | split
    | refine .bind ?_ fun _ => ?_
  all_goals grind

@[grind .] theorem silent_tearDown (ids : List Nat) : (tearDown ids).Gives P := by
  induction ids with
  | nil => grind [Aborting.tearDown]
  | cons => grind [Aborting.tearDown]

@[grind .] theorem silent_popFrame (id : Nat) : (popFrame id).Gives P := by
  grind [Aborting.popFrame]

@[grind .] theorem silent_endFrames (frames : List FrameRef) : (endFrames frames).Gives P := by
  induction frames with
  | nil => grind [Aborting.endFrames]
  | cons => grind [Aborting.endFrames]

theorem gives_dispose (ended : P (.idle (.setActive false))) : dispose.Gives P := by
  have cleared : (Code.idle (.setActive false)).Gives P := Program.gives_perform fun _ => ended
  unfold dispose
  repeat' first
    | split
    | refine .bind ?_ fun _ => ?_
  all_goals grind

end Aborting

namespace Running

@[grind .] theorem silent_write (kind : TextKind) (text : String) : (write kind text).Gives P := by
  grind [Running.write]

@[grind .] theorem silent_writeLines (lines : List String) : (writeLines lines).Gives P := by
  induction lines with
  | nil => grind [Running.writeLines]
  | cons => grind [Running.writeLines]

@[grind .] theorem silent_begin : begin.Gives P := by
  grind [Running.begin]

theorem gives_finish {progress : Progress} {hadErrors : Bool}
    (complete : progress = .completed → P (.broker (.notify (.progress .completed hadErrors)))) :
    (finish progress hadErrors).Gives P := by
  have told : (Code.broker (.notify (.progress progress hadErrors))).Gives P := by
    refine Program.gives_perform fun signal => ?_
    cases progress
    case completed => exact complete rfl
    all_goals cases signal
  refine .bind (by grind) fun before => ?_
  split
  · grind
  · split
    · trivial
    · split
      · refine .bind (by grind) fun reported => ?_
        split
        · trivial
        · exact told
      · exact told

@[grind .] theorem silent_send (frame : FrameRef) (e : EngineName) (q : Request) (route : Route) :
    (send frame e q route).Gives P := by
  grind [Running.send]

@[grind .] theorem silent_present (q : Request) (v : Verdict) : (present q v).Gives P := by
  grind [Running.present]

@[grind .] theorem silent_probeAfter (frame : FrameRef) (e : EngineName) (q : Request) (route : Route) (v : Verdict) :
    (probeAfter frame e q route v).Gives P := by
  grind [Running.probeAfter]

theorem gives_conclude {frame : FrameRef} {e : EngineName} {q : Request} {route : Route} {v : Verdict}
    (complete : v.progress = .completed →
      P (.broker (.notify (.progress .completed v.outcome.hadErrors)))) :
    (conclude frame e q route v).Gives P := by
  refine .bind (by grind) fun availability => ?_
  split
  · exact .bind (by grind) fun _ => .bind (gives_finish complete) fun _ => trivial
  · exact .bind (Aborting.silent_abort false) fun _ => .bind (by grind) fun _ =>
      .bind (gives_finish complete) fun _ => trivial

theorem gives_run {frame : FrameRef} {e : EngineName} {q : Request} {route : Route}
    (complete : ∀ b, P (.broker (.notify (.progress .completed b)))) : (run frame e q route).Gives P := by
  have ends : ∀ v, (present q v >>= fun _ => conclude frame e q route v).Gives P := fun v =>
    .bind (silent_present q v) fun _ => gives_conclude fun _ => complete _
  refine .bind silent_begin fun _ => ?_
  split
  · exact .bind (by grind) fun _ => .bind (by grind) fun x => ends _
  · exact .bind (by grind) fun x => ends _

end Running

namespace Routing

@[grind .] theorem silent_surroundings (frame : FrameRef) : (surroundings frame).Gives P := by
  grind [Routing.surroundings]

@[grind .] theorem silent_leased (frame : FrameRef) (q : Request) (route : Route) (token : Option Token) :
    (leased frame q route token).Gives P := by
  grind [Routing.leased]

@[grind .] theorem silent_behindLoop (frame : FrameRef) (q : Request) : (behindLoop frame q).Gives P := by
  refine .bind (by grind) fun _ => .bind (by grind) fun _ => ?_
  grind

@[grind .] theorem silent_answered (frame ticket : Nat) (a : Option (Mailbox.Answer Response)) :
    (answered frame ticket a).Gives P := by
  cases a <;> grind [answered]

@[grind .] theorem silent_awaitAnswer (frame ticket : Nat) : (awaitAnswer frame ticket).Gives P := by
  grind [Routing.awaitAnswer]

@[grind .] theorem silent_ask (frame : Nat) (q : Request) : (ask frame q).Gives P := by
  grind [Routing.ask]

@[grind .] theorem silent_byMail (frame : FrameRef) (q : Request) : (byMail frame q).Gives P := by
  grind [Routing.byMail]

@[grind .] theorem silent_attempt (frame : FrameRef) (q : Request) (token : Option Token) (r : Route) :
    (attempt frame q token r).Gives P := by
  cases r <;> grind [attempt]

@[grind .] theorem silent_route (q : Request) (token : Option Token) : (route q token).Gives P := by
  grind [Routing.route]

theorem gives_execute {q : Request} {token : Option Token}
    (remember : q.options.remember → ∀ e, P (.engine e (.remember q.command.text)))
    (interrupt : q.options.interrupt → P (.host .stopLoop) ∧ P (.host .startLoop)) :
    (execute q token).Gives P := by
  have noted : (Program.onlyIf q.options.remember do
      let e ← SessionChanges.currentEngine
      Code.engine e (.remember q.command.text)).Gives P := by
    cases asked : q.options.remember
    · trivial
    · exact .bind (by grind) fun e => Program.gives_perform fun _ => remember asked e
  have stopped : (Program.onlyIf q.options.interrupt (Code.host .stopLoop)).Gives P := by
    cases asked : q.options.interrupt
    · trivial
    · exact Program.gives_perform fun _ => (interrupt asked).1
  have started : (Program.onlyIf q.options.interrupt do
      let phase : Phase ← Code.broker .phase
      if phase ≠ .disposed then Code.host .startLoop).Gives P := by
    cases asked : q.options.interrupt
    · trivial
    · refine .bind (by grind) fun phase => ?_
      split
      · exact Program.gives_perform fun _ => (interrupt asked).2
      · trivial
  refine .bind (by grind) fun phase => ?_
  split
  · grind
  · refine .bind noted fun _ => .bind stopped fun _ => .bind (by grind) fun r => .bind started fun _ => ?_
    grind

@[grind .] theorem silent_submit (c : Command) (o : RequestOptions) (token : Option Token) :
    (submit c o token).Gives P := by
  grind [Routing.submit]

@[grind .] theorem silent_serve (frame : FrameRef) (ticket : Nat) (q : Request) :
    (serve frame ticket q).Gives P := by
  refine .bind (by grind) fun _ => .bind (by grind) fun _ => ?_
  grind

@[grind .] theorem silent_serveNext (frame : FrameRef) : (serveNext frame).Gives P := by
  grind [Routing.serveNext]

@[grind .] theorem silent_messageLoop (frame : FrameRef) : (messageLoop frame).Gives P := by
  grind [Routing.messageLoop]

end Routing

namespace Debugging

@[grind .] theorem silent_armRestart (frame : FrameRef) : (armRestart frame).Gives P := by
  grind [Debugging.armRestart]

@[grind .] theorem silent_awaitUsable (changes : Nat) : (awaitUsable changes).Gives P := by
  grind [Debugging.awaitUsable]

theorem gives_restartLoop {frame : FrameRef} (start : P (.host .startLoop)) : (restartLoop frame).Gives P := by
  have started : (Code.host .startLoop).Gives P := Program.gives_perform fun _ => start
  grind [Debugging.restartLoop]

@[grind .] theorem silent_probeStop (frame : FrameRef) (session : Session) :
    (probeStop frame session).Gives P := by
  grind [Debugging.probeStop]

@[grind .] theorem silent_leaveStop (frame : FrameRef) (action : ResumeAction) :
    (leaveStop frame action).Gives P := by
  grind [Debugging.leaveStop]

theorem gives_serviceStop {event : StopEvent} (stop : P (.host .stopLoop)) : (serviceStop event).Gives P := by
  have stopped : (Code.host .stopLoop).Gives P := Program.gives_perform fun _ => stop
  refine .bind (by grind) fun _ => .bind (by grind) fun attached => ?_
  refine .bind (.onlyIf (by grind)) fun _ => .bind (by grind) fun interrupted => ?_
  refine .bind (.onlyIf (by grind)) fun _ => .bind (by grind) fun session => ?_
  refine .bind (by grind) fun frame => .bind (by grind) fun settings => ?_
  refine .bind (.onlyIf (by grind)) fun _ => .bind (.onlyIf (by grind)) fun _ => ?_
  refine .bind (by grind) fun exited => .bind (.onlyIf (by grind)) fun _ => ?_
  exact .bind (by grind) fun action => .bind (by grind) fun _ => by grind

theorem gives_stopped {hooks : Hooks} {e : EngineName} {event : StopEvent}
    (stop : hooks = .broker → P (.host .stopLoop)) : (stopped hooks e event).Gives P := by
  cases hooks with
  | plans => grind [stopped]
  | broker =>
    have serviced : (serviceStop event).Gives P := gives_serviceStop (stop rfl)
    grind [stopped]

@[grind .] theorem silent_servicePrompt : servicePrompt.Gives P := by
  grind [Debugging.servicePrompt]

@[grind .] theorem silent_promptEntered (hooks : Hooks) (e : EngineName) :
    (promptEntered hooks e).Gives P := by
  cases hooks <;> grind [promptEntered]

@[grind .] theorem silent_promptThread (frame : FrameRef) (promise : Nat) : (promptThread frame promise).Gives P := by
  grind [Debugging.promptThread]

@[grind .] theorem silent_enterPrompt : enterPrompt.Gives P := by
  refine .bind (by grind) fun phase => ?_
  split
  · trivial
  · refine .bind (by grind) fun session => .bind (by grind) fun frame => ?_
    exact .bind (by grind) fun promise => .bind (by grind) fun _ => .bind (by grind) fun _ => by grind

@[grind .] theorem silent_exitPrompt : exitPrompt.Gives P := by
  refine .bind (by grind) fun _ => ?_
  grind

end Debugging

namespace Rehearsal

@[grind .] theorem silent_begin (name : String) : (begin name).Gives P := by
  grind [Rehearsal.begin]

theorem gives_idleSteps {name : String} (say : ∀ b, P (.idle (.setActive b)))
    (plan : ∀ name inner v, P (.idle (.schedule (.rehearsal name inner v)))) (steps : List IdleStep) :
    (idleSteps name steps).Gives P := by
  have said : ∀ b, (Code.idle (.setActive b)).Gives P := fun b => Program.gives_perform fun _ => say b
  have planned : ∀ name inner v, (Code.idle (.schedule (.rehearsal name inner v))).Gives P := fun name inner v =>
    Program.gives_perform fun _ => plan name inner v
  induction steps with
  | nil => grind [idleSteps]
  | cons s rest ih => cases s <;> grind [idleSteps]

theorem gives_idleStep {s : IdleStep} (say : ∀ b, s = .setActive b → P (.idle (.setActive b)))
    (plan : ∀ name inner, s = .schedule name inner → P (.idle (.schedule (.rehearsal name inner .null)))) :
    (idleStep s).Gives P := by
  cases s with
  | setActive b => exact .bind (Program.gives_perform fun _ => say b rfl) fun _ => trivial
  | schedule name inner => exact .bind (Program.gives_perform fun _ => plan name inner rfl) fun _ => trivial
  | pump => grind [idleStep]

theorem gives_idleExecute {name : String} {v : Json.Value} {inner : List IdleStep}
    (plan : P (.idle (.schedule (.rehearsal name inner v)))) : (idleExecute name v inner).Gives P := by
  refine .bind (Program.gives_perform fun _ => plan) fun promise => ?_
  cases promise with
  | none => trivial
  | some p =>
    refine .bind (Program.silent_broker rfl) fun payload => ?_
    split <;> trivial

@[grind .] theorem silent_play (frame : Nat) (text : String) (part : Rehearsal.Part) :
    (play frame text part).Gives P := by
  cases part <;> grind [play]

@[grind .] theorem silent_next (frame : Nat) : (next frame).Gives P := by
  refine .bind (by grind) fun next => ?_
  cases next <;> grind

@[grind .] theorem silent_loop (frame : Nat) (pop : Bool) : (loop frame pop).Gives P := by
  grind [Rehearsal.loop]

@[grind .] theorem silent_awaitCurrentExit (trigger : Option ResumeAction) :
    (awaitCurrentExit trigger).Gives P := by
  cases trigger <;> grind [awaitCurrentExit]

end Rehearsal

namespace Reading

@[grind .] theorem silent_hostRead (reader : Nat) : (hostRead reader).Gives P := by
  grind [Reading.hostRead]

theorem gives_readLoop (say : ∀ b, P (.idle (.setActive b))) : readLoop.Gives P := by
  have said : ∀ b, (Code.idle (.setActive b)).Gives P := fun b => Program.gives_perform fun _ => say b
  refine .bind (said true) fun _ => .bind (by grind) fun _ => .bind (by grind) fun _ => ?_
  exact .bind (by grind) fun line => .bind (by grind) fun _ => .bind (said false) fun _ => by grind

/-- Only a task that is a rehearsal plays one. -/
theorem gives_work {task : IdleTask} (play : ∀ name inner v, task.work = .rehearsal name inner v → P (.idle .take)) :
    (work task).Gives P := by
  unfold work
  split
  · grind
  · grind
  · next name inner v same =>
    exact .bind (Rehearsal.silent_begin _) fun _ => .bind (Program.gives_invoke fun _ => play name inner v same)
      fun _ => by grind

/-- What a pump does with a task that it has taken. -/
def pass (t : IdleTask) : Code Nat := do
  Code.idle (.setInvoking true)
  work t
  Code.idle (.setInvoking false)
  let more : Nat ← Code.invoke .pump
  return more + 1

theorem gives_pass {t : IdleTask} (say : ∀ b, P (.idle (.setInvoking b)))
    (play : ∀ name inner v, t.work = .rehearsal name inner v → P (.idle .take)) : (pass t).Gives P := by
  have said : ∀ b, (Code.idle (.setInvoking b)).Gives P := fun b => Program.gives_perform fun _ => say b
  exact .bind (said true) fun _ => .bind (gives_work play) fun _ => .bind (said false) fun _ => by grind

theorem gives_pump (take : P (.idle .take)) (say : ∀ b, P (.idle (.setInvoking b))) : pump.Gives P := by
  refine .bind (Program.gives_perform fun _ => take) fun task => ?_
  cases task with
  | none => trivial
  | some t => exact gives_pass say fun _ _ _ _ => take

@[grind .] theorem silent_readLine (token : Option Token) : (readLine token).Gives P := by
  refine .bind (by grind) fun phase => ?_
  split
  · grind
  · grind

@[grind .] theorem silent_compute (v : Json.Value) : (compute v).Gives P := by
  grind [Reading.compute]

@[grind .] theorem silent_valueBehindLoop (n : Nat) : (valueBehindLoop n).Gives P := by
  refine .bind (by grind) fun _ => .bind (by grind) fun _ => ?_
  grind

@[grind .] theorem silent_onPipeline (n : Nat) : (onPipeline n).Gives P := by
  unfold onPipeline
  repeat' first
    | split
    | refine .bind ?_ fun _ => ?_
  all_goals grind

@[grind .] theorem silent_submit (v : Json.Value) : (submit v).Gives P := by
  grind [Reading.submit]

end Reading

namespace Clients

@[grind .] theorem silent_setUp (e : EngineName) (owns : Bool) : (setUp e owns).Gives P := by
  unfold setUp
  repeat' first
    | split
    | refine .bind ?_ fun _ => ?_
  all_goals grind

@[grind .] theorem silent_pushSession (e : EngineName) (identity : Identity) (connection : Option String)
    (owns : Option Bool) (origin : Option Origin) :
    (pushSession e identity connection owns origin).Gives P := by
  grind [Clients.pushSession]

@[grind .] theorem silent_executeBuffered (c : Command) (o : RequestOptions) (buffer : String) :
    (executeBuffered c o buffer).Gives P := by
  grind [Clients.executeBuffered]

theorem silent_raise (e : EngineName) {call : Hooks → Code Report} (calls : ∀ h, (call h).Gives P) :
    (raise e call).Gives P := by
  refine .bind (Program.silent_engine rfl) fun hooks => ?_
  cases hooks with
  | none => trivial
  | some h => exact calls h

theorem silent_breakpoint (e : EngineName) (id : Nat) (change : BreakpointChange) :
    (handle (.breakpoint e id change)).Gives P := by
  refine silent_raise e fun h => ?_
  cases h with
  | plans => trivial
  | broker =>
    refine .bind (Program.silent_broker rfl) fun alive => ?_
    cases alive <;> grind

theorem gives_handle {request : ClientRequest}
    (say : ∀ b, request = .idleStep (.setActive b) → P (.idle (.setActive b)))
    (plan : request.isRehearsal → ∀ name inner v, P (.idle (.schedule (.rehearsal name inner v)))) :
    (handle request).Gives P := by
  cases request
  case breakpoint e id change => exact silent_breakpoint e id change
  case availability | stop | nested => exact silent_raise _ fun h => by grind
  case idleStep step =>
    refine Rehearsal.gives_idleStep (fun b same => ?_) fun name inner _ => plan rfl name inner _
    exact say b (congrArg ClientRequest.idleStep same)
  case idleExecute name v inner =>
    exact .bind (Rehearsal.gives_idleExecute (plan rfl name inner v)) fun _ => trivial
  case enterNestedPrompt => exact .bind Debugging.silent_enterPrompt fun r => trivial
  all_goals grind [handle]

theorem gives_serve {name : String} {request : ClientRequest}
    (say : ∀ b, request = .idleStep (.setActive b) → P (.idle (.setActive b)))
    (plan : request.isRehearsal → ∀ name inner v, P (.idle (.schedule (.rehearsal name inner v)))) :
    (serve name request).Gives P := by
  have handled : (handle request).Gives P := gives_handle say plan
  grind [Clients.serve]

end Clients

namespace Shell

@[grind .] theorem silent_complain (f : Failure) : (complain f).Gives P := by
  grind [Shell.complain]

@[grind .] theorem silent_debuggerLine (line : String) : (debuggerLine line).Gives P := by
  grind [Shell.debuggerLine]

@[grind .] theorem silent_debuggerRead (r : Except Failure (Option String)) :
    (debuggerRead r).Gives P := by
  unfold debuggerRead
  split <;> grind

@[grind .] theorem silent_debuggerLoop : debuggerLoop.Gives P := by
  grind [Shell.debuggerLoop]

@[grind .] theorem silent_wait (request : String) (position : Nat) : (wait request position).Gives P := by
  refine .bind (by grind) fun news => ?_
  split <;> grind

@[grind .] theorem silent_loop (position : Nat) : (loop position).Gives P := by
  refine .bind (by grind) fun line => ?_
  split <;> grind

end Shell

/-- Nobody gives other signals than his. -/
theorem gives_body (proc : Proc) : (body proc).Gives proc.Gives := by
  cases proc
  case execute q token =>
    exact Routing.gives_execute (fun asked e => .remember asked) fun asked => ⟨.interrupt asked, .resume asked⟩
  case debuggerStopped hooks e event =>
    refine Debugging.gives_stopped fun same => ?_
    subst same
    exact .stop
  case restartLoop frame => exact Debugging.gives_restartLoop .restart
  case engineStep e step =>
    refine Engines.gives_step fun text same => ?_
    subst same
    exact .direct
  case pump => exact Reading.gives_pump .take fun b => .run
  case readLoop frame => exact Reading.gives_readLoop fun b => .read
  case dispose => exact Aborting.gives_dispose .dispose
  case idleSteps name steps => exact Rehearsal.gives_idleSteps (fun b => .rehearse) (fun _ _ _ => .plan rfl) steps
  case serveClient name request =>
    refine Clients.gives_serve (fun b same => ?_) fun rehearsal _ _ _ => .plan rehearsal
    subst same
    exact .ask
  case runCommand frame e q route => exact Running.gives_run fun b => .complete
  all_goals grind [body]

/-- Whatever signal has been given, it was given by one who gives it. -/
theorem Chronicle.Faithful.gives {c : Chronicle} (faithful : c.Faithful) {a : Act brokerInterface World}
    (logged : a ∈ c.log) (signal : a.action.isSignal) : a.proc.Gives a.action :=
  faithful.fits.acts_within (m := brokerMachine) gives_body logged signal

end SessionBroker
