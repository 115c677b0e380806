import SessionBroker.Proofs.Parts
import SessionBroker.Proofs.Plain
import SessionBroker.Proofs.Plays

/-!
# Finality

A broker that has been disposed stays disposed, but what was under way before may go on: a command that
waits for a lease runs once the lease is granted. Whatever is asked later comes to nothing, and so does
whatever was under way and can be told that the broker is gone before it does anything.
-/

namespace SessionBroker

namespace Finality

/-! ## What a disposed broker still does -/

/-- Work of the read loop that runs no command. -/
def harmless : IdleWork → Bool
  | .command .. => false
  | _ => true

/-- Actions that run no command, push or pop no session, push no frame and register no hooks. -/
def inert : Action → Bool
  | .engine _ (.arrive ..) | .engine _ .enter | .engine _ (.register _) | .sessions (.push _)
  | .sessions .pop | .sessions (.found _) | .frames (.push ..) => false
  | .idle (.schedule work) => harmless work
  | _ => true

/-- What one is told when the broker has been disposed and the read loop has no command to run. -/
def told : (action : Action) → action.Reply → Prop
  | .broker .phase, r => r = .disposed
  | .idle .take, r => ∀ task : IdleTask, r = some task → harmless task.work
  | _, _ => True

/-- Steps on an engine from outside that run no command there and register no hooks. -/
def inertStep : EngineStep → Bool
  | .invoke .. | .atPrompt .. | .register _ => false
  | _ => true

/-- Requests that do not work on engines and sessions past the broker's commands. -/
def isCall : ClientRequest → Bool
  | .setUp .. | .pushSession .. | .popSession | .invoke .. | .stop .. | .nested _ => false
  | .engineStep _ step => inertStep step
  | _ => true

/-- Procedures that do nothing from the moment on at which the broker has been disposed. -/
def isSpent : Proc → Bool
  | .serveClient _ .enterNestedPrompt => false
  | .serveClient _ request => isCall request
  | .engineStep _ step => inertStep step
  | .idleSteps .. | .awaitLease .. | .awaitAnswer .. | .hostRead _ | .readLoop _ | .readLine _
  | .onPipeline _ | .compute .. | .resumeDebugger .. | .restartLoop _ | .awaitUsable _
  | .shellLoop _ | .shellWait .. | .shellDebugger => true
  | _ => false

/-- Procedures that may be called when the broker has been disposed. -/
def isFutile : Proc → Bool
  | .serveClient _ request => isCall request
  | .execute .. | .pump | .dispose => true
  | proc => isSpent proc

/-- What may be done and called, and what one is told. -/
def contract : Contract brokerInterface Empty where
  uses action := {u | inert action ∧ u = ⟨0, fun r got => got = 0 ∧ told action r⟩}
  errands proc := {e | isFutile proc ∧ e = .free proc}

theorem scope_acts {action : Action} : contract.scope.acts action ↔ inert action :=
  ⟨fun ⟨_, may, _⟩ => may.1, fun may => ⟨_, ⟨may, rfl⟩, rfl⟩⟩

theorem scope_calls {proc : Proc} : contract.scope.calls proc ↔ isFutile proc :=
  ⟨fun ⟨_, may, _⟩ => may.1, fun may => ⟨_, ⟨may, rfl⟩, rfl⟩⟩

theorem scope_starts {proc : Proc} : contract.scope.starts proc ↔ isFutile proc :=
  ⟨fun ⟨_, may, _⟩ => may.1, fun may => ⟨_, ⟨may, rfl⟩, rfl⟩⟩

attribute [simp] scope_acts scope_calls scope_starts harmless inert inertStep isCall isSpent isFutile

section

variable {e : EngineName}

@[simp] theorem futile_acquire (frame : Nat) (caller : Gate.Caller) :
    (Leases.acquire frame caller).Within contract.scope := by
  simp [Leases.acquire]

@[simp] theorem futile_await (frame ticket : Nat) (caller : Gate.Caller) :
    (Leases.await frame ticket caller).Within contract.scope := by
  refine Program.within_bind (by simp) fun answer => ?_
  cases answer <;> simp

@[simp] theorem futile_current : SessionChanges.current.Within contract.scope := by
  simp [SessionChanges.current]

@[simp] theorem futile_currentEngine : SessionChanges.currentEngine.Within contract.scope := by
  simp [SessionChanges.currentEngine]

@[simp] theorem futile_tellAvailability (hooks : Option Hooks) (a : Availability) :
    (Engines.tellAvailability hooks a).Within contract.scope := by
  unfold Engines.tellAvailability
  split <;> simp

@[simp] theorem futile_setAvailability (a : Availability) :
    (Engines.setAvailability e a).Within contract.scope := by
  simp [Engines.setAvailability]

@[simp] theorem futile_isStopped : (Engines.isStopped e).Within contract.scope := by
  simp [Engines.isStopped]

theorem futile_step {step : EngineStep} (may : inertStep step) :
    (Engines.step e step).Within contract.scope := by
  cases step
  case invoke | atPrompt | register => cases may
  all_goals simp [Engines.step]

/-! ### Aborts and exits -/

@[simp] theorem futile_leavePrompts (frames : List FrameRef) :
    (Aborting.leavePrompts e frames).Within contract.scope := by
  induction frames with
  | nil => simp [Aborting.leavePrompts]
  | cons f rest ih => simp [Aborting.leavePrompts, ih]

@[simp] theorem futile_unwindPrompts : Aborting.unwindPrompts.Within contract.scope := by
  simp [Aborting.unwindPrompts]

@[simp] theorem futile_exitDebugger (action : ResumeAction) :
    (Aborting.exitDebugger action).Within contract.scope := by
  refine Program.within_bind (by simp) fun live => ?_
  split <;> simp

@[simp] theorem futile_abort (debug : Bool) : (Aborting.abort debug).Within contract.scope := by
  refine Program.within_bind (by simp) fun begun => ?_
  cases begun with
  | none => simp
  | some b => exact Program.within_bind (by simp) fun e => by simp

@[simp] theorem futile_awaitFinish (frames : List FrameRef) :
    (Aborting.awaitFinish frames).Within contract.scope := by
  induction frames with
  | nil => simp [Aborting.awaitFinish]
  | cons f rest ih => simp [Aborting.awaitFinish, ih]

@[simp] theorem futile_resume (action : ResumeAction) (wait : Bool) :
    (Aborting.resume action wait).Within contract.scope := by
  refine Program.within_bind (by simp) fun ticket => ?_
  refine Program.within_bind (by simp) fun _ => Program.within_bind (by simp) fun _ => ?_
  refine Program.within_bind (by simp) fun served => Program.within_bind (by simp) fun _ => ?_
  refine Program.within_bind (by simp) fun frame => ?_
  cases frame <;> simp

@[simp] theorem futile_exitPrompt : Debugging.exitPrompt.Within contract.scope := by
  simp [Debugging.exitPrompt]

@[simp] theorem futile_awaitUsable (changes : Nat) :
    (Debugging.awaitUsable changes).Within contract.scope := by
  simp [Debugging.awaitUsable]

@[simp] theorem futile_restartLoop (frame : FrameRef) :
    (Debugging.restartLoop frame).Within contract.scope := by
  simp [Debugging.restartLoop]

/-! ### Requests -/

@[simp] theorem futile_answered (frame ticket : Nat) (a : Option (Mailbox.Answer Response)) :
    (Routing.answered frame ticket a).Within contract.scope := by
  cases a <;> simp [Routing.answered]

@[simp] theorem futile_awaitAnswer (frame ticket : Nat) :
    (Routing.awaitAnswer frame ticket).Within contract.scope := by
  simp [Routing.awaitAnswer]

@[simp] theorem futile_ask (frame : Nat) (q : Request) : (Routing.ask frame q).Within contract.scope := by
  refine Program.within_bind (by simp) fun ticket => Program.within_bind (by simp) fun first => ?_
  refine Program.within_bind (by simp) fun answer => ?_
  cases answer <;> simp

@[simp] theorem futile_submit (c : Command) (o : RequestOptions) (token : Option Token) :
    (Routing.submit c o token).Within contract.scope := by
  simp [Routing.submit]

/-! ### Reading and idle work -/

@[simp] theorem futile_hostRead (reader : Nat) : (Reading.hostRead reader).Within contract.scope := by
  refine Program.within_bind (by simp) fun event => ?_
  cases event <;> simp

@[simp] theorem futile_readLoop : Reading.readLoop.Within contract.scope := by
  simp [Reading.readLoop]

@[simp] theorem futile_readLine (token : Option Token) :
    (Reading.readLine token).Within contract.scope := by
  refine Program.within_bind (by simp) fun phase => ?_
  split
  · simp
  · refine Program.within_bind (by simp) fun frame => Program.within_bind (by simp) fun lease => ?_
    cases lease <;> simp [Leases.release]

@[simp] theorem futile_valueBehindLoop (n : Nat) :
    (Reading.valueBehindLoop n).Within contract.scope := by
  refine Program.within_bind (by simp) fun active => Program.within_bind (by simp) fun invoking => ?_
  split
  · simp
  · refine Program.within_bind (by simp) fun promise => ?_
    cases promise with
    | none => simp
    | some p =>
      refine Program.within_bind (by simp) fun payload => ?_
      rcases payload with _ | _ | _ | _ <;> simp

@[simp] theorem futile_onPipeline (n : Nat) : (Reading.onPipeline n).Within contract.scope := by
  refine Program.within_bind (by simp) fun phase => ?_
  split
  · simp
  · refine Program.within_bind (by simp) fun behind => ?_
    cases behind with
    | some v => simp
    | none =>
      refine Program.within_bind (by simp) fun taken => ?_
      cases taken with
      | none => simp
      | some v =>
        refine Program.within_bind (by simp) fun frame => Program.within_bind (by simp) fun lease => ?_
        cases lease <;> simp [Leases.release]

@[simp] theorem futile_idleSteps (name : String) (steps : List IdleStep) :
    (Rehearsal.idleSteps name steps).Within contract.scope := by
  induction steps with
  | nil => simp [Rehearsal.idleSteps]
  | cons s rest ih => cases s <;> simp [Rehearsal.idleSteps, ih]

@[simp] theorem futile_idleStep (s : IdleStep) : (Rehearsal.idleStep s).Within contract.scope := by
  cases s <;> simp [Rehearsal.idleStep]

@[simp] theorem futile_idleExecute (name : String) (v : Json.Value) (inner : List IdleStep) :
    (Rehearsal.idleExecute name v inner).Within contract.scope := by
  refine Program.within_bind (by simp) fun promise => ?_
  cases promise with
  | none => simp
  | some p =>
    refine Program.within_bind (by simp) fun payload => ?_
    rcases payload with _ | _ | _ | _ <;> simp

@[simp] theorem futile_awaitCurrentExit (trigger : Option ResumeAction) :
    (Rehearsal.awaitCurrentExit trigger).Within contract.scope := by
  unfold Rehearsal.awaitCurrentExit
  cases trigger <;> simp

/-! ### The shell -/

@[simp] theorem futile_complain (f : Failure) : (Shell.complain f).Within contract.scope := by
  simp [Shell.complain, Running.write]

@[simp] theorem futile_debuggerLine (line : String) :
    (Shell.debuggerLine line).Within contract.scope := by
  unfold Shell.debuggerLine
  split
  · simp
  · split
    · simp
    · refine Program.within_bind (by simp) fun r => ?_
      cases r <;> simp

@[simp] theorem futile_debuggerLoop : Shell.debuggerLoop.Within contract.scope := by
  refine Program.within_bind (by simp) fun stop => ?_
  split
  · simp
  · refine Program.within_bind (by simp) fun read => ?_
    rcases read with f | _ | line
    · cases f <;> simp [Shell.debuggerRead]
    · simp [Shell.debuggerRead]
    · exact futile_debuggerLine _

@[simp] theorem futile_wait (request : String) (position : Nat) :
    (Shell.wait request position).Within contract.scope := by
  refine Program.within_bind (by simp) fun news => ?_
  split
  · simp [Running.write]
  · split <;> simp

@[simp] theorem futile_loop (position : Nat) : (Shell.loop position).Within contract.scope := by
  refine Program.within_bind (by simp) fun read => ?_
  rcases read with f | _ | line <;> simp

/-! ### Clients -/

theorem futile_raise {call : Hooks → Code Report} (h : ∀ hooks, (call hooks).Within contract.scope) :
    (Clients.raise e call).Within contract.scope := by
  refine Program.within_bind (by simp) fun hooks => ?_
  cases hooks with
  | none => simp
  | some hooks => exact h hooks

theorem futile_handle {request : ClientRequest} (may : isCall request)
    (noPrompt : request ≠ .enterNestedPrompt) : (Clients.handle request).Within contract.scope := by
  cases request
  case setUp | pushSession | popSession | invoke | stop | nested => cases may
  case enterNestedPrompt => exact absurd rfl noPrompt
  case executeBuffered =>
    refine Program.within_bind (by simp) fun r => ?_
    cases r <;> simp
  case engineStep e step =>
    exact Program.within_bind ⟨scope_calls.mpr may, fun _ => trivial⟩ fun _ => trivial
  case breakpoint =>
    refine futile_raise fun hooks => ?_
    cases hooks <;> simp
  case availability => exact futile_raise fun hooks => Program.within_bind (by simp) fun _ => by simp
  case request => exact Program.within_bind (by simp) fun call => Program.within_bind (by simp) fun _ => by simp
  all_goals simp [Clients.handle, Reading.submit]

theorem futile_serve {name : String} {request : ClientRequest} (may : isCall request)
    (noPrompt : request ≠ .enterNestedPrompt) : (Clients.serve name request).Within contract.scope := by
  have handled := futile_handle may noPrompt
  unfold Clients.serve
  split
  · exact Program.within_bind (by simp) fun _ => Program.within_bind handled fun report => by simp
  · exact Program.within_bind handled fun report => by simp

end

/-! ## What stays as it is -/

/-- Nothing has been run, pushed, popped or registered since a moment at which the broker had been
disposed. -/
structure Rests (w u : World) : Prop where
  phase : u.phase = .disposed
  tasks : ∀ t ∈ u.idle.tasks, harmless t.work
  sessions : u.sessions = w.sessions
  frames : u.frames.frames.length = w.frames.frames.length
  calls : u.engineCalls <:+ w.engineCalls
  invocations : ∀ e, (u.endpoint? e).map (·.engine.tally.invocations) =
    (w.endpoint? e).map (·.engine.tally.invocations)
  registrations : ∀ e, (u.endpoint? e).map (·.engine.tally.registrations) =
    (w.endpoint? e).map (·.engine.tally.registrations)

variable {w u v : World} {flow : Nat} {pick : Bool} {action : Action} {r : action.Reply}

theorem harmless_perform (may : inert action) (tasks : ∀ t ∈ u.idle.tasks, harmless t.work)
    (h : World.perform flow pick action u = some (r, v)) : ∀ t ∈ v.idle.tasks, harmless t.work := by
  cases action with
  | idle op =>
    cases op
    case setActive active =>
      cases h
      rw [World.discard_eq]
      cases active
      · rintro t ⟨⟩
      · exact tasks
    case schedule work =>
      simp only [World.perform, World.performIdle, IdleQueue.schedule] at h
      by_cases active : u.idle.active <;> simp only [active, if_true] at h <;> cases h
      · intro t ht
        rcases List.mem_append.mp ht with old | new
        · exact tasks t old
        · rw [List.mem_singleton.mp new]
          exact may
      · exact tasks
    case take =>
      cases h
      split
      · exact tasks
      · next t rest queue => exact fun s hs => tasks s (queue ▸ List.mem_cons_of_mem t hs)
    all_goals cases h; exact tasks
  | _ => exact (World.unmoved_perform h).idle (by rintro _ ⟨⟩) ▸ tasks

theorem told_perform (rests : Rests w u) (h : World.perform flow pick action u = some (r, v)) :
    told action r := by
  cases action with
  | broker op =>
    cases op
    case phase =>
      cases h
      exact rests.phase
    all_goals trivial
  | idle op =>
    cases op
    case take =>
      cases h
      intro task found
      refine rests.tasks task ?_
      split at found
      · cases found
      · next t rest queue =>
        cases found
        exact queue ▸ List.mem_cons_self
    all_goals trivial
  | _ => trivial

theorem phaseAfter_disposed (action : Action) : World.phaseAfter .disposed action = .disposed := by
  unfold World.phaseAfter
  split <;> rfl

theorem Rests.perform (rests : Rests w u) (may : inert action)
    (h : World.perform flow pick action u = some (r, v)) : Rests w v where
  phase := by rw [World.phase_perform h, rests.phase, phaseAfter_disposed]
  tasks := harmless_perform may rests.tasks h
  sessions := by
    refine Eq.trans ?_ rests.sessions
    cases action with
    | sessions op =>
      cases op
      case push | pop | found => cases may
      all_goals cases h; rfl
    | _ => exact (World.unmoved_perform h).sessions (by rintro _ ⟨⟩)
  frames := by
    refine Eq.trans ?_ rests.frames
    cases action with
    | frames op =>
      exact FrameStack.length_perform (by rintro _ _ rfl; cases may) (World.frames_step h)
    | _ => rw [World.frames_perform (by rintro _ ⟨⟩) h]
  calls := by
    rw [World.engineCalls_perform (fun e op same => ?_) h]
    · exact rests.calls
    · subst same
      cases op <;> first | rfl | cases may
  invocations e := by
    refine Eq.trans ?_ (rests.invocations e)
    rcases World.endpoint?_perform h e with ⟨op, reply, p, q, rfl, here, counted, there⟩ | ⟨-, same⟩
    · rw [here, there, Option.map_some, Option.map_some,
        (Endpoint.counted_perform counted).invocations (by rintro rfl; cases may)]
    · rw [same]
  registrations e := by
    refine Eq.trans ?_ (rests.registrations e)
    rcases World.endpoint?_perform h e with ⟨op, reply, p, q, rfl, here, counted, there⟩ | ⟨-, same⟩
    · rw [here, there, Option.map_some, Option.map_some,
        (Endpoint.counted_perform counted).registrations (by rintro _ rfl; cases may)]
    · rw [same]

theorem Rests.apply (rests : Rests w u) (change : Outside) : Rests w (change.apply u) := by
  obtain ⟨phase, tasks, sessions, frames, calls, invocations, registrations⟩ := rests
  cases change with
  | cancel token =>
    exact ⟨phase, tasks, sessions, by simpa [Outside.apply, World.cancel] using frames, calls, invocations,
      registrations⟩
  | probeOutput e output =>
    refine ⟨phase, tasks, sessions, frames, calls, fun name => ?_, fun name => ?_⟩
    · rw [← invocations name]
      simp only [Outside.apply, World.endpoint?_modifyEndpoint, Option.map_map]
      congr 1
      funext p
      by_cases mine : name = e <;> simp [mine]
    · rw [← registrations name]
      simp only [Outside.apply, World.endpoint?_modifyEndpoint, Option.map_map]
      congr 1
      funext p
      by_cases mine : name = e <;> simp [mine]
  | observe => exact ⟨phase, tasks, sessions, frames, List.nil_suffix, invocations, registrations⟩
  | hostStop | hostPump | hostLine | hostEnd =>
    exact ⟨phase, tasks, sessions, frames, calls, invocations, registrations⟩

/-! ## Nobody does anything -/

variable {proc : Proc}

/-- Who knows that the broker has been disposed gives up. -/
theorem obeys_phase {α : Type} {f : Phase → Code α} (h : (f .disposed).Fair contract) :
    (Code.broker .phase >>= f).Fair contract := by
  refine Program.obeys_perform (z := 0) ⟨rfl, rfl⟩ le_rfl fun r got hg => ?_
  obtain ⟨rfl, rfl⟩ := hg
  simpa using h

theorem fair_enterPrompt : Debugging.enterPrompt.Fair contract :=
  obeys_phase (Program.obeys_done trivial)

theorem fair_execute (q : Request) (token : Option Token) : (Routing.execute q token).Fair contract :=
  obeys_phase (Program.obeys_done trivial)

theorem fair_dispose : Aborting.dispose.Fair contract := obeys_phase (Program.obeys_done trivial)

theorem within_work {task : IdleTask} (may : harmless task.work) :
    (Reading.work task).Within contract.scope := by
  obtain ⟨promise, work⟩ := task
  cases work with
  | command => cases may
  | action n =>
    refine Program.within_bind (by simp) fun taken => ?_
    cases taken <;> simp
  | rehearsal name inner v => simp [Reading.work, Rehearsal.begin]

theorem fair_pump : Reading.pump.Fair contract := by
  refine Program.obeys_perform (z := 0) ⟨rfl, rfl⟩ le_rfl fun task got hg => ?_
  obtain ⟨rfl, tells⟩ := hg
  rw [add_zero]
  cases task with
  | none => exact Program.obeys_done trivial
  | some t =>
    have worked : (Reading.work t).Within contract.scope := within_work (tells t rfl)
    exact Program.Within.fair <| Program.within_bind (by simp) fun _ =>
      Program.within_bind worked fun _ => by simp

theorem within_body (spent : isSpent proc) : (body proc).Within contract.scope := by
  cases proc
  case serveClient name request =>
    by_cases prompt : request = .enterNestedPrompt
    · subst prompt
      cases spent
    · refine futile_serve ?_ prompt
      cases request <;> first | exact absurd rfl prompt | exact spent
  case engineStep e step => exact futile_step spent
  case compute => simp [body, Reading.compute]
  all_goals first | exact (Bool.false_ne_true spent).elim | simp [body]

theorem fair_body (futile : isFutile proc) : (body proc).Fair contract := by
  by_cases spent : isSpent proc
  · exact (within_body spent).fair
  · cases proc
    case execute q token => exact fair_execute q token
    case pump => exact fair_pump
    case dispose => exact fair_dispose
    case serveClient name request =>
      obtain rfl : request = .enterNestedPrompt := by
        cases request <;> first | rfl | exact absurd futile spent
      have handled : (Clients.handle .enterNestedPrompt).Fair contract :=
        fair_enterPrompt.then fun _ => Program.obeys_done trivial
      exact Program.Within.then (by simp) fun _ => handled.then fun report =>
        Program.Within.fair (by simp [Clients.holdsBroker])
    all_goals exact absurd futile spent

/-- Nobody who was spent, and nobody who came later, does anything. -/
theorem balances (w : World) :
    contract.Balances brokerMachine fun _ u _ => Rests w u where
  loses _ rests := rests
  acts := by
    rintro h s t all flow pick action r u ⟨may, rfl⟩ rests hp
    exact ⟨0, ⟨rfl, told_perform rests hp⟩, rests.perform may hp⟩
  enters _ _ rests := rests
  returns _ _ _ rests := rests
  bodies := by
    rintro proc e ⟨futile, rfl⟩
    exact fair_body futile

/-! ## Whoever is spent -/

/-- What procedures do at any time: those that are spent do nothing. -/
def scope (proc : Proc) : Scope brokerInterface := if isSpent proc then contract.scope else .all

theorem body_within (proc : Proc) : (body proc).Within (scope proc) := by
  unfold scope
  split
  · next spent => exact within_body spent
  · exact Program.within_all _

theorem isFutile_of_isSpent (spent : isSpent proc) : isFutile proc := by
  cases proc
  case serveClient name request =>
    cases request <;> first | exact spent | exact (Bool.false_ne_true spent).elim
  all_goals first | rfl | exact spent

theorem fair_of_spent {α : Type} {p : Code α} (spent : isSpent proc) (within : p.Within (scope proc)) :
    p.Fair contract := by
  rw [scope, if_pos spent] at within
  exact within.fair

/-- Callers that are spent do nothing when they are returned to. -/
theorem waiting_obeys {proc : brokerInterface.Proc} {wait : Waiting brokerInterface proc} (keeps : wait.KeepsTo scope)
    (spent : ∀ q ∈ wait.procs, isSpent q) : wait.Obeys contract (Errand.free (I := brokerInterface) proc) 0 := by
  induction wait with
  | root proc => exact le_rfl
  | @caller callee proc next below ih =>
    obtain ⟨-, within, keeps⟩ := keeps
    have here : isSpent proc := by
      refine spent proc (List.mem_cons_of_mem _ ?_)
      cases below <;> exact List.mem_cons_self
    refine ⟨.free proc, ⟨isFutile_of_isSpent here, rfl⟩, 0, 0, le_rfl, fun r y _ => ?_,
      ih keeps fun q hq => spent q (List.mem_cons_of_mem _ hq)⟩
    exact fair_of_spent here (within r)

theorem flow_obeys {f : Flow brokerInterface} (keeps : f.KeepsTo scope)
    (spent : ∀ q ∈ f.procs, isSpent q) : f.Obeys contract 0 := by
  have here : isSpent f.proc := by
    refine spent f.proc ?_
    unfold Flow.procs
    cases f.waiting <;> exact List.mem_cons_self
  exact ⟨.free f.proc, ⟨isFutile_of_isSpent here, rfl⟩, 0, 0, le_rfl,
    fair_of_spent here keeps.1, waiting_obeys keeps.2 spent⟩

theorem owned_of_spent {flows : List (Nat × Flow brokerInterface)}
    (keeps : ∀ q ∈ flows, q.2.KeepsTo scope) (spent : ∀ q ∈ flows, ∀ proc ∈ q.2.procs, isSpent proc) :
    Owned contract flows 0 := by
  induction flows with
  | nil => trivial
  | cons q rest ih =>
    exact ⟨0, 0, le_rfl, flow_obeys (keeps q List.mem_cons_self) (spent q List.mem_cons_self),
      ih (fun p hp => keeps p (List.mem_cons_of_mem q hp)) fun p hp =>
        spent p (List.mem_cons_of_mem q hp)⟩

/-! ## In the end -/

/-- Nothing changes while those who make steps keep the contract and those who arrive may do so. -/
theorem keeps_moves {w : World} {p : Play} {ms : List Move}
    (keeps : p.Keeps contract fun _ u _ => Rests w u)
    (calls : ∀ name request, .arrive name request ∈ ms → isCall request) :
    (p.moves ms).Keeps contract fun _ u _ => Rests w u := by
  induction ms generalizing p with
  | nil => exact keeps
  | cons m ms ih =>
    refine ih ((balances w).move (fun name request same => ?_) (fun change _ _ _ rests => rests.apply change)
      keeps) fun name request mem => calls name request (List.mem_cons_of_mem m mem)
    exact ⟨.free _, ⟨calls name request (same ▸ List.mem_cons_self), rfl⟩, rfl⟩

/-- Whether something that was under way in a flow may still do what only a living broker does. -/
def busy (p : Play) (flow : Nat) : Bool :=
  p.config.flows.any fun q => q.1 = flow && !q.2.procs.all isSpent

/-- Whether something happens that involves neither a flow that was busy nor anybody who works past the
broker's commands. -/
def follows (p : Play) : Move → Bool
  | .arrive _ request => isCall request
  | .step flow _ => !busy p flow
  | .outside _ => true

/-- Without those that are busy, all flows keep the contract. -/
theorem keeps_without {p : Play} (numbered : p.config.Numbered)
    (keeps : ∀ q ∈ p.config.flows, q.2.KeepsTo scope) (disposed : p.phase = .disposed)
    (tasks : p.config.shared.idle.tasks.all (fun t => harmless t.work)) :
    (p.without (busy p)).Keeps contract fun _ u _ => Rests p.config.shared u := by
  refine ⟨numbered.without, 0, owned_of_spent (fun q hq => keeps q (List.mem_filter.mp hq).1) ?_, ?_⟩
  · intro q hq proc mem
    obtain ⟨mine, idle⟩ := List.mem_filter.mp hq
    have spent : q.2.procs.all isSpent = true := by
      by_contra other
      have isBusy : busy p q.1 = true := List.any_eq_true.mpr ⟨q, mine, by simpa using other⟩
      rw [isBusy] at idle
      cases idle
    exact List.all_eq_true.mp spent proc mem
  · exact ⟨disposed, List.all_eq_true.mp tasks, rfl, rfl, List.suffix_refl _, fun _ => rfl, fun _ => rfl⟩

/-- Once a broker has been disposed and no command waits behind the read loop, nothing is run, pushed,
popped or registered any more, unless by flows that were busy at that moment. -/
theorem disposed_for_good (settings : BrokerSettings) (endpoints : List (EngineName × Endpoint))
    (main : EngineName) (host : Host) (before after : List Move) :
    let p := (Play.new settings endpoints main host).moves before
    p.phase = .disposed → p.config.shared.idle.tasks.all (fun t => harmless t.work) →
    after.all (follows p) → Rests p.config.shared (p.moves after).config.shared := by
  intro p disposed tasks later
  have keeps : ∀ q ∈ p.config.flows, q.2.KeepsTo scope :=
    Play.keepsTo_moves body_within (by rintro q ⟨⟩) before
  have fresh : (Play.new settings endpoints main host).config.Numbered :=
    ⟨List.nodup_nil, by rintro q ⟨⟩⟩
  have numbered : p.config.Numbered := Play.numbered_moves fresh before
  have here : ∀ flow pick, .step flow pick ∈ after → busy p flow = false := fun flow pick mem => by
    simpa [follows] using List.all_eq_true.mp later _ mem
  have new : ∀ id, p.config.next ≤ id → busy p id = false := fun id le => by
    refine List.any_eq_false.mpr fun q hq => ?_
    have older := numbered.below q hq
    simp only [Bool.and_eq_true, decide_eq_true_eq, not_and]
    omega
  have calls : ∀ name request, .arrive name request ∈ after → isCall request :=
    fun name request mem => List.all_eq_true.mp later _ mem
  obtain ⟨-, -, -, rests⟩ := keeps_moves (keeps_without numbered keeps disposed tasks) calls
  rwa [← Play.without_moves here new] at rests

/-! ### A command that waits behind another one -/

/-- An engine on which a command can be held. -/
def holdingEndpoints : List (EngineName × Endpoint) :=
  [("main", ⟨.new ⟨5, 1⟩ ⟨1, "localhost", "host"⟩ [("hold", .hold)], false, none, none⟩)]

/-- A broker that does not ask engines who they are. -/
def incurious : BrokerSettings := { BrokerSettings.standard with probes := false }

/-- One command is held, another one waits for its lease, and the broker is disposed. -/
def untilDisposed : List Move :=
  [.arrive "set up" (.setUp "main" false)] ++ turns 0 40
    ++ [.arrive "held" (.execute (.script "hold") .standard none)] ++ turns 1 40
    ++ [.arrive "waiting" (.execute (.script "greet") .standard none)] ++ turns 2 40
    ++ [.arrive "end" .dispose] ++ turns 3 80

/-- Whatever is asked of a broker that is gone. -/
def tooLate : List Move :=
  [.arrive "late" (.execute (.script "greet") .standard none)] ++ turns 4 20
    ++ [.arrive "read" (.readLine none)] ++ turns 5 20
    ++ [.arrive "prompt" .enterNestedPrompt] ++ turns 6 20
    ++ [.arrive "abort" (.abort true)] ++ turns 7 20
    ++ [.arrive "again" .dispose] ++ turns 8 20

/-- While the two commands make no step, nothing happens. -/
theorem disposed_for_good_too_late :
    let p := (Play.new incurious holdingEndpoints "main" .new).moves untilDisposed
    p.phase = .disposed ∧ busy p 1 ∧ busy p 2 ∧ tooLate.all (follows p) ∧
      Rests p.config.shared (p.moves tooLate).config.shared := by
  generalize reached : (Play.new incurious holdingEndpoints "main" .new).moves untilDisposed = p
  have disposed : p.phase = .disposed := by rw [← reached]; decide +kernel
  have tasks : p.config.shared.idle.tasks.all (fun t => harmless t.work) := by
    rw [← reached]; decide +kernel
  have later : tooLate.all (follows p) := by rw [← reached]; decide +kernel
  have busy : busy p 1 ∧ busy p 2 := by rw [← reached]; decide +kernel
  have rests := disposed_for_good incurious holdingEndpoints "main" .new untilDisposed tooLate
  rw [reached] at rests
  exact ⟨disposed, busy.1, busy.2, later, rests disposed tasks later⟩

/-- But once the first command is released, the lease is granted to the second one, which runs although
the one who disposed the broker has long returned. -/
theorem runs_after_dispose :
    let p := (Play.new incurious holdingEndpoints "main" .new).moves untilDisposed
    let q := p.moves ([.arrive "release" (.engineStep "main" .release)] ++ turns 4 20 ++ turns 1 60)
    let r := q.moves (turns 2 60)
    p.phase = .disposed ∧ p.config.find? 3 = none ∧ r.phase = .disposed ∧
      ((p.config.shared.endpoint? "main").map (·.engine.tally.invocations)) = some 2 ∧
      ((r.config.shared.endpoint? "main").map (·.engine.tally.invocations)) = some 3 ∧
      r.config.shared.engineCalls.head?.any (·.command.text = "greet") := by
  decide +kernel

end Finality

end SessionBroker
