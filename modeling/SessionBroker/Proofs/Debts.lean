import SessionBroker.Broker.Machine
import SessionBroker.Proofs.Plain

/-!
# What flows owe

A flow that has changed the stack of sessions owes something: to move the broker's hooks along, or to tell
of the change. It pays before it does anything else that matters: before it changes the stack again, before
it calls a procedure, and before it returns. If pushes and pops do so, every procedure does.
-/

namespace SessionBroker

-- much of what follows has nothing to do with the stack and would be true of unfair debts
set_option linter.unusedSectionVars false

variable {K : Type}

/-- What flows may owe. -/
structure Debts (K : Type) where
  nothing : K
  /-- What one owes who has pushed a session on another one. -/
  pushed : Session → Session → K
  /-- What one owes who has popped a session so that another one is current now. -/
  popped : Session → Session → K
  /-- What one owes who has begun with a session. -/
  founded : Session → K
  /-- What is left to do after a step on an engine. -/
  worked : EngineName → EngineOp → K → K
  /-- What is left to do after a notice of a change. -/
  told : K → K
  /-- When the broker's hooks may be registered on an engine. -/
  registers : EngineName → K → Prop
  /-- When a change may be told. -/
  tells : SessionChange → Session → K → Prop
  /-- One who owes nothing may work on engines as it likes. -/
  worked_nothing : ∀ e op, worked e op nothing = nothing
  told_nothing : told nothing = nothing

namespace Debts

/-- When an action may be performed by one who owes something. -/
def due (D : Debts K) : Action → K → Prop
  | .sessions (.push _), k | .sessions .pop, k | .sessions (.found _), k => k = D.nothing
  | .engine e (.register .broker), k => D.registers e k
  | .broker (.notify (.sessionChanged change s)), k => D.tells change s k
  | _, _ => True

/-- What is owed after an action. -/
def after (D : Debts K) : (action : Action) → action.Reply → K → K
  | .sessions (.push s), previous, _ => D.pushed previous s
  | .sessions .pop, some (s, now), _ => D.popped s now
  | .sessions (.found s), _, _ => D.founded s
  | .engine e op, _, k => D.worked e op k
  | .broker (.notify (.sessionChanged ..)), _, k => D.told k
  | _, _, k => k

end Debts

namespace Program

variable {α β : Type} {D : Debts K} {p q : Code α} {k : K}

/-- A program of one who owes something pays it in time. -/
def Pays (D : Debts K) : Code α → K → Prop
  | .done _, k => k = D.nothing
  | .act action next, k => D.due action k ∧ ∀ r, (next r).Pays D (D.after action r k)
  | .call _ next, k => k = D.nothing ∧ ∀ r, (next r).Pays D D.nothing
  | .fork _ next, k => next.Pays D k

@[simp] theorem pays_done {a : α} : Pays D (.done a) k ↔ k = D.nothing := Iff.rfl

@[simp] theorem pays_pure {a : α} : Pays D (pure a) k ↔ k = D.nothing := Iff.rfl

@[simp] theorem pays_act {action : Action} {next : action.Reply → Code α} :
    Pays D (.act action next) k ↔ D.due action k ∧ ∀ r, (next r).Pays D (D.after action r k) := Iff.rfl

@[simp] theorem pays_call {proc : Proc} {next : proc.Result → Code α} :
    Pays D (.call proc next) k ↔ k = D.nothing ∧ ∀ r, (next r).Pays D D.nothing := Iff.rfl

@[simp] theorem pays_fork {proc : Proc} : Pays D (.fork proc p) k ↔ p.Pays D k := Iff.rfl

@[simp] theorem pays_bind {p : Code β} {f : β → Code α} (hp : p.Pays D k)
    (hf : ∀ b, (f b).Pays D D.nothing) : (p >>= f).Pays D k := by
  induction p generalizing k with
  | done b =>
    obtain rfl : k = D.nothing := hp
    exact hf b
  | act action next ih => exact ⟨hp.1, fun r => ih r (hp.2 r)⟩
  | call proc next ih => exact ⟨hp.1, fun r => ih r (hp.2 r)⟩
  | fork proc next ih => exact ih hp

@[simp] theorem pays_ite {c : Prop} [Decidable c] :
    (if c then p else q).Pays D k ↔ (c → p.Pays D k) ∧ (¬c → q.Pays D k) := by
  split <;> simp [*]

@[simp] theorem pays_onlyIf {c : Bool} {p : Code Unit} :
    (onlyIf c p).Pays D D.nothing ↔ (c = true → p.Pays D D.nothing) := by
  cases c <;> simp [onlyIf]

end Program

/-- What comes with a change of the stack is paid. -/
class Debts.Fair (D : Debts K) : Prop where
  push : ∀ s, (SessionChanges.push s).Pays D D.nothing
  pop : ∀ change, change ≠ .enter → (SessionChanges.pop change).Pays D D.nothing
  setUp : ∀ e owns, (Clients.setUp e owns).Pays D D.nothing

attribute [local simp] Debts.due Debts.after Debts.worked_nothing

variable {D : Debts K}

/-! ## Commands on engines

Nothing here has to do with sessions. -/

namespace Engines

attribute [local simp] awaitRelease isStopped setAvailability

variable {e : EngineName}

@[simp] theorem pays_tellAvailability (hooks : Option Hooks) (a : Availability) :
    (tellAvailability hooks a).Pays D D.nothing := by
  unfold tellAvailability
  split <;> simp

@[simp] theorem pays_runScript (s : Script) : (runScript e s).Pays D D.nothing := by
  cases s
  case «break» | nestedPrompt =>
    refine Program.pays_bind (by simp) fun hooks => ?_
    cases hooks <;> simp
  all_goals simp [runScript]

@[simp] theorem pays_invoke (c : Command) (merge : Bool) : (invoke e c merge).Pays D D.nothing := by
  refine Program.pays_bind (by simp) fun entered => ?_
  cases entered with
  | error f => simp
  | ok _ =>
    refine Program.pays_bind ?_ fun r => by simp
    unfold run
    split
    · simp
    · refine Program.pays_bind (by simp) fun script => ?_
      cases script <;> simp

@[simp] theorem pays_through (c : Command) (merge nested : Bool) : (through e c merge nested).Pays D D.nothing := by
  refine Program.pays_bind (by simp) fun answer => ?_
  cases answer <;> simp

@[simp] theorem pays_atPrompt (c : Command) : (atPrompt e c).Pays D D.nothing := by
  refine Program.pays_bind (by simp) fun debugger => ?_
  simp only []
  split
  · simp
  · split
    · simp
    · split <;> simp

@[simp] theorem pays_step (step : EngineStep) : (Engines.step e step).Pays D D.nothing := by
  unfold Engines.step
  split <;> simp

@[simp] theorem pays_playStop (event : StopEvent) : (playStop e event).Pays D D.nothing := by
  have steps : ∀ plan, (playSteps e plan).Pays D D.nothing := by
    intro plan
    induction plan with
    | nil => simp [playSteps]
    | cons s rest ih => cases s <;> simp [playSteps, ih]
  refine Program.pays_bind (by simp) fun stopped => Program.pays_bind (by simp) fun _ => ?_
  refine Program.pays_bind (by simp) fun plan => ?_
  rcases plan with _ | ⟨plan, action⟩ <;> simp [steps]

end Engines

/-! ## Changes of the stack -/

namespace SessionChanges

variable {e : EngineName}

@[simp] theorem pays_current : current.Pays D D.nothing := by
  simp [current]

@[simp] theorem pays_currentEngine : currentEngine.Pays D D.nothing := by
  simp [currentEngine]

@[simp] theorem pays_probe (atPrompt : Bool) : (probe e atPrompt).Pays D D.nothing := by
  unfold probe
  split <;> exact Program.pays_bind (by simp) fun _ => by simp

variable [D.Fair]

@[simp] theorem pays_push (s : Session) : (push s).Pays D D.nothing := Debts.Fair.push s

@[simp] theorem pays_exit : (pop .exit).Pays D D.nothing := Debts.Fair.pop _ nofun

@[simp] theorem pays_popAll : popAll.Pays D D.nothing := by
  refine Program.pays_bind (Debts.Fair.pop _ nofun) fun popped => ?_
  cases popped <;> simp

@[simp] theorem pays_adjust (probed : Identity) (changes : List Adjustment) :
    (adjust probed changes).Pays D D.nothing := by
  induction changes with
  | nil => simp [adjust]
  | cons change rest ih => cases change <;> simp [adjust, ih]

@[simp] theorem pays_refresh (atPrompt : Bool) : (refresh e atPrompt).Pays D D.nothing := by
  refine Program.pays_bind (by simp) fun answer => ?_
  split <;> simp

end SessionChanges

/-! ## Frames and commands -/

variable [D.Fair]

namespace Aborting

@[simp] theorem pays_leavePrompts {e : EngineName} (frames : List FrameRef) :
    (leavePrompts e frames).Pays D D.nothing := by
  induction frames with
  | nil => simp [leavePrompts]
  | cons f rest ih => simp [leavePrompts, ih]

@[simp] theorem pays_exitDebugger (action : ResumeAction) : (exitDebugger action).Pays D D.nothing := by
  refine Program.pays_bind (by simp) fun live => ?_
  split <;> simp

@[simp] theorem pays_abort (debug : Bool) : (abort debug).Pays D D.nothing := by
  refine Program.pays_bind (by simp) fun begun => ?_
  cases begun with
  | none => simp
  | some b => exact Program.pays_bind (by simp) fun e => by simp [unwindPrompts]

@[simp] theorem pays_awaitFinish (frames : List FrameRef) : (awaitFinish frames).Pays D D.nothing := by
  induction frames with
  | nil => simp [awaitFinish]
  | cons f rest ih => simp [awaitFinish, ih]

@[simp] theorem pays_resume (action : ResumeAction) (wait : Bool) : (resume action wait).Pays D D.nothing := by
  refine Program.pays_bind (by simp) fun ticket => ?_
  refine Program.pays_bind (by simp) fun _ => Program.pays_bind (by simp) fun _ => ?_
  refine Program.pays_bind (by simp [unwindPrompts]) fun served => Program.pays_bind (by simp) fun _ => ?_
  refine Program.pays_bind (by simp) fun frame => ?_
  cases frame <;> simp

@[simp] theorem pays_popFrame (id : Nat) : (popFrame id).Pays D D.nothing := by
  refine Program.pays_bind (by simp) fun gone => ?_
  induction gone with
  | nil => simp [tearDown]
  | cons i rest ih => exact ⟨trivial, fun _ => ⟨trivial, fun _ => ih⟩⟩

@[simp] theorem pays_endFrames (frames : List FrameRef) : (endFrames frames).Pays D D.nothing := by
  induction frames with
  | nil => simp [endFrames]
  | cons f rest ih => simp [endFrames, ih]

@[simp] theorem pays_dispose : dispose.Pays D D.nothing := by
  refine Program.pays_bind (by simp) fun phase => ?_
  split
  · simp
  · refine Program.pays_bind (by simp) fun _ => Program.pays_bind (by simp) fun live => ?_
    exact Program.pays_bind (by simp) fun served => Program.pays_bind (by simp) fun _ => by simp

end Aborting

namespace Running

attribute [local simp] write begin finish

variable {frame : FrameRef} {e : EngineName} {q : Request} {route : Route}

theorem pays_writeLines (lines : List String) : (writeLines lines).Pays D D.nothing := by
  induction lines with
  | nil => simp [writeLines]
  | cons line rest ih => simp [writeLines, ih]

@[simp] theorem pays_present (v : Verdict) : (present q v).Pays D D.nothing := by
  unfold present
  cases v.errorText <;> simp [pays_writeLines]

@[simp] theorem pays_send : (send frame e q route).Pays D D.nothing := by
  unfold send
  split
  · refine Program.pays_bind (by simp) fun r => ?_
    cases r with
    | error f => simp
    | ok reply =>
      simp only []
      split <;> simp
  · simp

@[simp] theorem pays_conclude (v : Verdict) : (conclude frame e q route v).Pays D D.nothing := by
  refine Program.pays_bind (by simp) fun availability => ?_
  split
  · exact Program.pays_bind (by simp [probeAfter]) fun _ => by simp
  · exact Program.pays_bind (by simp) fun _ => Program.pays_bind (by simp) fun _ => by simp

@[simp] theorem pays_runCommand : (Running.run frame e q route).Pays D D.nothing := by
  refine Program.pays_bind (by simp) fun _ => ?_
  split
  · exact Program.pays_bind (by simp) fun _ => by simp
  · simp

end Running

/-! ## Ways of a request -/

namespace Leases

@[simp] theorem pays_acquire (frame : Nat) (caller : Gate.Caller) : (acquire frame caller).Pays D D.nothing := by
  simp [acquire]

@[simp] theorem pays_await (frame ticket : Nat) (caller : Gate.Caller) :
    (await frame ticket caller).Pays D D.nothing := by
  refine Program.pays_bind (by simp) fun answer => ?_
  cases answer <;> simp

@[simp] theorem pays_release (frame : Nat) : (release frame).Pays D D.nothing := by
  simp [release]

end Leases

namespace Routing

variable {frame : FrameRef} {q : Request}

@[simp] theorem pays_surroundings : (surroundings frame).Pays D D.nothing := by
  refine Program.pays_bind (by simp) fun session => ?_
  simp [Engines.isStopped]

@[simp] theorem pays_leased (route : Route) (token : Option Token) :
    (leased frame q route token).Pays D D.nothing := by
  refine Program.pays_bind (by simp) fun e => Program.pays_bind (by simp) fun lease => ?_
  cases lease <;> simp

@[simp] theorem pays_behindLoop : (behindLoop frame q).Pays D D.nothing := by
  refine Program.pays_bind (by simp) fun e => Program.pays_bind (by simp) fun promise => ?_
  cases promise with
  | none => simp
  | some p =>
    refine Program.pays_bind (by simp) fun payload => ?_
    rcases payload with _ | _ | _ | _ <;> simp

@[simp] theorem pays_answered (i ticket : Nat) (a : Option (Mailbox.Answer Response)) :
    (answered i ticket a).Pays D D.nothing := by
  cases a <;> simp [answered]

@[simp] theorem pays_ask (i : Nat) : (ask i q).Pays D D.nothing := by
  refine Program.pays_bind (by simp) fun ticket => Program.pays_bind (by simp) fun first => ?_
  refine Program.pays_bind (by simp) fun answer => ?_
  cases answer <;> simp

@[simp] theorem pays_byMail : (byMail frame q).Pays D D.nothing := by
  refine Program.pays_bind (by simp) fun r => ?_
  split <;> simp

@[simp] theorem pays_attempt (token : Option Token) (route : Route) :
    (attempt frame q token route).Pays D D.nothing := by
  cases route
  case idle =>
    refine Program.pays_bind (by simp) fun r => ?_
    cases r <;> simp
  all_goals simp [attempt]

@[simp] theorem pays_route (token : Option Token) : (Routing.route q token).Pays D D.nothing := by
  refine Program.pays_bind (by simp) fun frame => Program.pays_bind (by simp) fun around => ?_
  refine Program.pays_bind (by simp) fun r => ?_
  split <;> simp

@[simp] theorem pays_execute (token : Option Token) : (execute q token).Pays D D.nothing := by
  refine Program.pays_bind (by simp) fun phase => ?_
  split
  · simp
  · exact Program.pays_bind (by simp) fun _ => Program.pays_bind (by simp) fun _ => by simp

@[simp] theorem pays_serve (ticket : Nat) : (Routing.serve frame ticket q).Pays D D.nothing := by
  refine Program.pays_bind (by simp) fun e => Program.pays_bind (by simp) fun lease => ?_
  cases lease with
  | error f => simp
  | ok _ => exact Program.pays_bind (by simp) fun around => by simp

@[simp] theorem pays_serveNext : (serveNext frame).Pays D D.nothing := by
  refine Program.pays_bind (by simp) fun next => ?_
  cases next <;> simp

end Routing

namespace Reading

@[simp] theorem pays_work (task : IdleTask) : (work task).Pays D D.nothing := by
  unfold work
  split
  · simp
  · refine Program.pays_bind (by simp) fun taken => ?_
    cases taken <;> simp
  · exact Program.pays_bind (by simp [Rehearsal.begin]) fun _ => by simp

@[simp] theorem pays_pump : pump.Pays D D.nothing := by
  refine Program.pays_bind (by simp) fun task => ?_
  cases task with
  | none => simp
  | some t => exact Program.pays_bind (by simp) fun _ => Program.pays_bind (by simp) fun _ => by simp

@[simp] theorem pays_hostRead (reader : Nat) : (hostRead reader).Pays D D.nothing := by
  refine Program.pays_bind (by simp) fun event => ?_
  cases event <;> simp

@[simp] theorem pays_readLine (token : Option Token) : (readLine token).Pays D D.nothing := by
  refine Program.pays_bind (by simp) fun phase => ?_
  split
  · simp
  · refine Program.pays_bind (by simp) fun frame => Program.pays_bind (by simp) fun lease => ?_
    cases lease <;> simp

@[simp] theorem pays_valueBehindLoop (n : Nat) : (valueBehindLoop n).Pays D D.nothing := by
  refine Program.pays_bind (by simp) fun active => Program.pays_bind (by simp) fun invoking => ?_
  split
  · simp
  · refine Program.pays_bind (by simp) fun promise => ?_
    cases promise with
    | none => simp
    | some p =>
      refine Program.pays_bind (by simp) fun payload => ?_
      rcases payload with _ | _ | _ | _ <;> simp

@[simp] theorem pays_onPipeline (n : Nat) : (onPipeline n).Pays D D.nothing := by
  refine Program.pays_bind (by simp) fun phase => ?_
  split
  · simp
  · refine Program.pays_bind (by simp) fun behind => ?_
    cases behind with
    | some v => simp
    | none =>
      refine Program.pays_bind (by simp) fun taken => ?_
      cases taken with
      | none => simp
      | some v =>
        refine Program.pays_bind (by simp) fun frame => Program.pays_bind (by simp) fun lease => ?_
        cases lease <;> simp

end Reading

/-! ## Stops, prompts and rehearsals -/

namespace Debugging

variable {frame : FrameRef}

@[simp] theorem pays_awaitUsable (changes : Nat) : (awaitUsable changes).Pays D D.nothing := by
  simp [awaitUsable]

@[simp] theorem pays_probeStop (session : Session) : (probeStop frame session).Pays D D.nothing := by
  refine Program.pays_bind (by simp) fun lease => ?_
  cases lease <;> simp

@[simp] theorem pays_leaveStop (action : ResumeAction) : (leaveStop frame action).Pays D D.nothing := by
  refine Program.pays_bind (by simp) fun _ => Program.pays_bind (by simp) fun _ => ?_
  split
  · exact Program.pays_bind (by simp) fun session => by simp
  · exact Program.pays_bind (by simp) fun _ => by simp

@[simp] theorem pays_serviceStop (event : StopEvent) : (serviceStop event).Pays D D.nothing := by
  refine Program.pays_bind (by simp) fun _ => Program.pays_bind (by simp) fun attached => ?_
  refine Program.pays_bind (by simp) fun _ => Program.pays_bind (by simp) fun interrupted => ?_
  refine Program.pays_bind (by simp) fun _ => Program.pays_bind (by simp) fun session => ?_
  refine Program.pays_bind (by simp) fun frame => Program.pays_bind (by simp) fun settings => ?_
  refine Program.pays_bind (by simp [armRestart]) fun _ => Program.pays_bind (by simp) fun _ => ?_
  exact Program.pays_bind (by simp) fun exited => Program.pays_bind (by simp) fun _ => by simp

@[simp] theorem pays_stopped (hooks : Hooks) (e : EngineName) (event : StopEvent) :
    (stopped hooks e event).Pays D D.nothing := by
  cases hooks <;> simp [stopped]

@[simp] theorem pays_promptEntered (hooks : Hooks) (e : EngineName) : (promptEntered hooks e).Pays D D.nothing := by
  cases hooks <;> simp [promptEntered, servicePrompt, Engines.isStopped]

@[simp] theorem pays_enterPrompt : enterPrompt.Pays D D.nothing := by
  refine Program.pays_bind (by simp) fun phase => ?_
  split <;> simp

end Debugging

namespace Rehearsal

@[simp] theorem pays_idleSteps (name : String) (steps : List IdleStep) : (idleSteps name steps).Pays D D.nothing := by
  induction steps with
  | nil => simp [idleSteps]
  | cons s rest ih => cases s <;> simp [idleSteps, ih]

@[simp] theorem pays_idleExecute (name : String) (v : Json.Value) (inner : List IdleStep) :
    (idleExecute name v inner).Pays D D.nothing := by
  refine Program.pays_bind (by simp) fun promise => ?_
  cases promise with
  | none => simp
  | some p =>
    refine Program.pays_bind (by simp) fun payload => ?_
    rcases payload with _ | _ | _ | _ <;> simp

@[simp] theorem pays_next (frame : Nat) : (next frame).Pays D D.nothing := by
  refine Program.pays_bind (by simp) fun next => ?_
  cases next with
  | exit action => simp
  | request ticket q =>
    refine Program.pays_bind (by simp) fun own => Program.pays_bind (by simp) fun _ => ?_
    refine Program.pays_bind ?_ fun _ => by simp
    cases Part.ofText q.command.text <;> simp [play]

@[simp] theorem pays_awaitCurrentExit (trigger : Option ResumeAction) :
    (awaitCurrentExit trigger).Pays D D.nothing := by
  unfold awaitCurrentExit
  cases trigger <;> simp

end Rehearsal

namespace Shell

attribute [local simp] complain Running.write

@[simp] theorem pays_debuggerLine (line : String) : (debuggerLine line).Pays D D.nothing := by
  unfold debuggerLine
  split
  · simp
  · split
    · simp
    · refine Program.pays_bind (by simp [Routing.submit]) fun r => ?_
      cases r <;> simp

@[simp] theorem pays_debuggerLoop : debuggerLoop.Pays D D.nothing := by
  refine Program.pays_bind (by simp) fun stop => ?_
  split
  · simp
  · refine Program.pays_bind (by simp) fun read => ?_
    rcases read with f | _ | line
    · cases f <;> simp [debuggerRead]
    · simp [debuggerRead]
    · simp [debuggerRead]

@[simp] theorem pays_wait (request : String) (position : Nat) : (wait request position).Pays D D.nothing := by
  refine Program.pays_bind (by simp) fun news => ?_
  split
  · simp
  · split <;> simp

@[simp] theorem pays_loop (position : Nat) : (loop position).Pays D D.nothing := by
  refine Program.pays_bind (by simp) fun read => ?_
  rcases read with f | _ | line <;> simp

end Shell

/-! ## Clients -/

namespace Clients

theorem pays_raise {e : EngineName} {call : Hooks → Code Report} (h : ∀ hooks, (call hooks).Pays D D.nothing) :
    (raise e call).Pays D D.nothing := by
  refine Program.pays_bind (by simp) fun hooks => ?_
  cases hooks with
  | none => simp
  | some hooks => exact h hooks

theorem pays_handle (request : ClientRequest) : (handle request).Pays D D.nothing := by
  cases request
  case setUp e owns => exact Program.pays_bind (Debts.Fair.setUp e owns) fun _ => by simp
  case executeBuffered c o buffer =>
    refine Program.pays_bind (by simp [Routing.submit]) fun r => ?_
    cases r <;> simp
  case breakpoint =>
    refine pays_raise fun hooks => ?_
    cases hooks <;> simp
  case availability => exact pays_raise fun hooks => Program.pays_bind (by simp) fun _ => by simp
  case stop | nested => exact pays_raise fun hooks => by simp
  case request => exact Program.pays_bind (by simp) fun call => Program.pays_bind (by simp) fun _ => by simp
  case idleStep step => cases step <;> simp [handle, Rehearsal.idleStep]
  all_goals simp [handle, Routing.submit, Reading.submit, pushSession, Debugging.exitPrompt,
    Engines.setAvailability]

theorem pays_serve (name : String) (request : ClientRequest) : (serve name request).Pays D D.nothing := by
  unfold serve
  split
  · exact Program.pays_bind (by simp) fun _ => Program.pays_bind (pays_handle request) fun _ => by simp [*]
  · exact Program.pays_bind (pays_handle request) fun _ => by simp [*]

end Clients

/-- Whatever procedure one is called to do, one owes nothing when it is done. -/
theorem pays_body (proc : Proc) : (body proc).Pays D D.nothing := by
  cases proc
  case serveClient name request => exact Clients.pays_serve name request
  all_goals simp [body, Routing.awaitAnswer, Routing.messageLoop, Reading.readLoop, Reading.compute,
    Debugging.promptThread, Debugging.restartLoop, Rehearsal.loop]

end SessionBroker
