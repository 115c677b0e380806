import SessionBroker.Proofs.Callbacks
import SessionBroker.Proofs.Plain

/-!
# What is common

Only invocations on an engine write into its books. Only the calls to execute a command seek a way for it, and a read
loop is started again only by those whom stops of the debugger start. All other programs have nothing to do with any
of this; and they start nobody but clients and the threads of nested prompts.
-/

namespace SessionBroker

/-- Procedures that seek a way for a command or start a read loop again. -/
def Proc.isReserved : Proc → Bool
  | .route .. | .restartLoop _ => true
  | _ => false

/-- Flows that are started by clients and for them. -/
def Proc.isThread : Proc → Bool
  | .serveClient .. | .nestedPrompt .. => true
  | _ => false

/-- What common programs do. -/
def commonScope : Scope brokerInterface :=
  ⟨fun a => a.isBooking = false, fun p => p.isReserved = false, fun p => p.isThread⟩

variable {α β : Type} {p : Code α} {f : α → Code β}

@[simp] theorem commonScope_acts {a : Action} : commonScope.acts a ↔ a.isBooking = false := Iff.rfl
@[simp] theorem commonScope_calls {p : Proc} : commonScope.calls p ↔ p.isReserved = false := Iff.rfl
@[simp] theorem commonScope_starts {p : Proc} : commonScope.starts p ↔ p.isThread := Iff.rfl

theorem common_then (hp : p.Within commonScope) (hf : ∀ a, (f a).Within commonScope) : (p >>= f).Within commonScope :=
  Program.within_bind hp hf

attribute [local simp] Action.isBooking EngineOp.leaves Proc.isReserved Proc.isThread

namespace Engines

variable {e : EngineName}

@[simp] theorem common_tellAvailability (hooks : Option Hooks) (a : Availability) :
    (tellAvailability hooks a).Within commonScope := by
  unfold tellAvailability
  split <;> simp

@[simp] theorem common_setAvailability (a : Availability) : (setAvailability e a).Within commonScope := by
  simp [setAvailability]

@[simp] theorem common_isStopped : (isStopped e).Within commonScope := by
  simp [isStopped]

@[simp] theorem common_through (c : Command) (merge nested : Bool) : (through e c merge nested).Within commonScope := by
  refine common_then (by simp) fun answer => ?_
  split <;> simp

@[simp] theorem common_atPrompt (c : Command) : (atPrompt e c).Within commonScope := by
  unfold atPrompt
  repeat' with_reducible first
    | split
    | refine common_then ?_ fun _ => ?_
  all_goals simp

@[simp] theorem common_playSteps (steps : List EngineStep) : (playSteps e steps).Within commonScope := by
  induction steps with
  | nil => simp [playSteps]
  | cons s rest ih => cases s <;> simp [playSteps, ih]

@[simp] theorem common_playStop (event : StopEvent) : (playStop e event).Within commonScope := by
  unfold playStop
  repeat' with_reducible first
    | split
    | refine common_then ?_ fun _ => ?_
  all_goals simp

@[simp] theorem common_step (s : EngineStep) : (step e s).Within commonScope := by
  cases s <;> simp [step]

end Engines

namespace SessionChanges

@[simp] theorem common_current : current.Within commonScope := by
  simp [current]

@[simp] theorem common_currentEngine : currentEngine.Within commonScope := by
  simp [currentEngine]

@[simp] theorem common_push (s : Session) : (push s).Within commonScope := by
  simp [push]

@[simp] theorem common_pop (change : SessionChange) : (pop change).Within commonScope := by
  refine common_then (by simp) fun popped => ?_
  split <;> simp

@[simp] theorem common_popAll : popAll.Within commonScope := by
  refine common_then (by simp) fun popped => ?_
  split <;> simp

@[simp] theorem common_adjust (probed : Identity) (changes : List Adjustment) :
    (adjust probed changes).Within commonScope := by
  induction changes with
  | nil => simp [adjust]
  | cons change rest ih => cases change <;> simp [adjust, ih]

@[simp] theorem common_probe (e : EngineName) (atPrompt : Bool) : (probe e atPrompt).Within commonScope := by
  unfold probe
  repeat' with_reducible first
    | split
    | refine common_then ?_ fun _ => ?_
  all_goals simp

@[simp] theorem common_refresh (e : EngineName) (atPrompt : Bool) : (refresh e atPrompt).Within commonScope := by
  unfold refresh
  repeat' with_reducible first
    | split
    | refine common_then ?_ fun _ => ?_
  all_goals simp

end SessionChanges

namespace Aborting

@[simp] theorem common_tearDown (ids : List Nat) : (tearDown ids).Within commonScope := by
  induction ids with
  | nil => simp [tearDown]
  | cons id rest ih => simp [tearDown, ih]

@[simp] theorem common_popFrame (id : Nat) : (popFrame id).Within commonScope := by
  simp [popFrame]

@[simp] theorem common_leavePrompts (e : EngineName) (frames : List FrameRef) :
    (leavePrompts e frames).Within commonScope := by
  induction frames with
  | nil => simp [leavePrompts]
  | cons f rest ih => simp [leavePrompts, ih]

@[simp] theorem common_unwindPrompts : unwindPrompts.Within commonScope := by
  simp [unwindPrompts]

@[simp] theorem common_exitDebugger (action : ResumeAction) : (exitDebugger action).Within commonScope := by
  refine common_then (by simp) fun live => ?_
  split <;> simp

@[simp] theorem common_endFrames (frames : List FrameRef) : (endFrames frames).Within commonScope := by
  induction frames with
  | nil => simp [endFrames]
  | cons f rest ih => simp [endFrames, ih]

@[simp] theorem common_awaitFinish (frames : List FrameRef) : (awaitFinish frames).Within commonScope := by
  induction frames with
  | nil => simp [awaitFinish]
  | cons f rest ih => simp [awaitFinish, ih]

@[simp] theorem common_abort (debug : Bool) : (abort debug).Within commonScope := by
  refine common_then (by simp) fun begun => ?_
  split
  · simp
  · refine common_then (by simp) fun e => ?_
    split <;> simp

@[simp] theorem common_resume (action : ResumeAction) (wait : Bool) : (resume action wait).Within commonScope := by
  unfold resume
  repeat' with_reducible first
    | split
    | refine common_then ?_ fun _ => ?_
  all_goals simp

@[simp] theorem common_dispose : dispose.Within commonScope := by
  unfold dispose
  repeat' with_reducible first
    | split
    | refine common_then ?_ fun _ => ?_
  all_goals simp

end Aborting

namespace Leases

@[simp] theorem common_acquire (frame : Nat) (caller : Gate.Caller) : (acquire frame caller).Within commonScope := by
  simp [acquire]

@[simp] theorem common_await (frame ticket : Nat) (caller : Gate.Caller) :
    (Leases.await frame ticket caller).Within commonScope := by
  refine common_then (by simp) fun answer => ?_
  cases answer <;> simp

@[simp] theorem common_release (frame : Nat) : (release frame).Within commonScope := by
  simp [release]

end Leases

namespace Running

@[simp] theorem common_writeLines (lines : List String) : (writeLines lines).Within commonScope := by
  induction lines with
  | nil => simp [writeLines]
  | cons line rest ih => simp [writeLines, write, ih]

@[simp] theorem common_finish (progress : Progress) (hadErrors : Bool) : (finish progress hadErrors).Within commonScope := by
  unfold finish
  repeat' with_reducible first
    | split
    | refine common_then ?_ fun _ => ?_
  all_goals simp

@[simp] theorem common_send (frame : FrameRef) (e : EngineName) (q : Request) (route : Route) :
    (send frame e q route).Within commonScope := by
  unfold send
  repeat' with_reducible first
    | split
    | refine common_then ?_ fun _ => ?_
  all_goals simp

@[simp] theorem common_present (q : Request) (v : Verdict) : (present q v).Within commonScope := by
  unfold present write
  repeat' with_reducible first
    | split
    | refine common_then ?_ fun _ => ?_
  all_goals simp

@[simp] theorem common_conclude (frame : FrameRef) (e : EngineName) (q : Request) (route : Route) (v : Verdict) :
    (conclude frame e q route v).Within commonScope := by
  unfold conclude probeAfter
  repeat' with_reducible first
    | split
    | refine common_then ?_ fun _ => ?_
  all_goals simp

@[simp] theorem common_run (frame : FrameRef) (e : EngineName) (q : Request) (route : Route) :
    (run frame e q route).Within commonScope := by
  unfold run begin write
  repeat' with_reducible first
    | split
    | refine common_then ?_ fun _ => ?_
  all_goals simp

end Running

namespace Routing

@[simp] theorem common_surroundings (frame : FrameRef) : (surroundings frame).Within commonScope := by
  unfold surroundings
  repeat' with_reducible first
    | split
    | refine common_then ?_ fun _ => ?_
  all_goals simp

@[simp] theorem common_leased (frame : FrameRef) (q : Request) (route : Route) (token : Option Token) :
    (leased frame q route token).Within commonScope := by
  unfold leased
  repeat' with_reducible first
    | split
    | refine common_then ?_ fun _ => ?_
  all_goals simp

@[simp] theorem common_behindLoop (frame : FrameRef) (q : Request) : (behindLoop frame q).Within commonScope := by
  unfold behindLoop
  repeat' with_reducible first
    | split
    | refine common_then ?_ fun _ => ?_
  all_goals simp

@[simp] theorem common_answered (frame ticket : Nat) (answer : Option (Mailbox.Answer Response)) :
    (answered frame ticket answer).Within commonScope := by
  cases answer <;> simp [answered]

@[simp] theorem common_ask (frame : Nat) (q : Request) : (ask frame q).Within commonScope := by
  unfold ask
  repeat' with_reducible first
    | split
    | refine common_then ?_ fun _ => ?_
  all_goals simp

@[simp] theorem common_byMail (frame : FrameRef) (q : Request) : (byMail frame q).Within commonScope := by
  unfold byMail
  repeat' with_reducible first
    | split
    | refine common_then ?_ fun _ => ?_
  all_goals simp

@[simp] theorem common_attempt (frame : FrameRef) (q : Request) (token : Option Token) (route : Route) :
    (attempt frame q token route).Within commonScope := by
  cases route
  case idle =>
    refine common_then (by simp) fun r => ?_
    split <;> simp
  all_goals simp [attempt]

@[simp] theorem common_submit (c : Command) (o : RequestOptions) (token : Option Token) :
    (submit c o token).Within commonScope := by
  simp [submit]

@[simp] theorem common_serve (frame : FrameRef) (ticket : Nat) (q : Request) : (serve frame ticket q).Within commonScope := by
  unfold serve
  repeat' with_reducible first
    | split
    | refine common_then ?_ fun _ => ?_
  all_goals simp

@[simp] theorem common_serveNext (frame : FrameRef) : (serveNext frame).Within commonScope := by
  unfold serveNext
  repeat' with_reducible first
    | split
    | refine common_then ?_ fun _ => ?_
  all_goals simp

@[simp] theorem common_messageLoop (frame : FrameRef) : (messageLoop frame).Within commonScope := by
  unfold messageLoop
  repeat' with_reducible first
    | split
    | refine common_then ?_ fun _ => ?_
  all_goals simp

end Routing

namespace Debugging

@[simp] theorem common_probeStop (frame : FrameRef) (session : Session) : (probeStop frame session).Within commonScope := by
  refine common_then (by simp) fun lease => ?_
  split <;> simp

@[simp] theorem common_leaveStop (frame : FrameRef) (action : ResumeAction) :
    (leaveStop frame action).Within commonScope := by
  unfold leaveStop
  repeat' with_reducible first
    | split
    | refine common_then ?_ fun _ => ?_
  all_goals simp

@[simp] theorem common_promptEntered (hooks : Hooks) (e : EngineName) : (promptEntered hooks e).Within commonScope := by
  unfold promptEntered servicePrompt
  repeat' with_reducible first
    | split
    | refine common_then ?_ fun _ => ?_
  all_goals simp

@[simp] theorem common_promptThread (frame : FrameRef) (promise : Nat) : (promptThread frame promise).Within commonScope := by
  unfold promptThread
  repeat' with_reducible first
    | split
    | refine common_then ?_ fun _ => ?_
  all_goals simp

@[simp] theorem common_enterPrompt : enterPrompt.Within commonScope := by
  unfold enterPrompt
  repeat' with_reducible first
    | split
    | refine common_then ?_ fun _ => ?_
  all_goals simp

@[simp] theorem common_exitPrompt : exitPrompt.Within commonScope := by
  unfold exitPrompt
  repeat' with_reducible first
    | split
    | refine common_then ?_ fun _ => ?_
  all_goals simp

@[simp] theorem common_awaitUsable (changes : Nat) : (awaitUsable changes).Within commonScope := by
  unfold awaitUsable
  repeat' with_reducible first
    | split
    | refine common_then ?_ fun _ => ?_
  all_goals simp

@[simp] theorem common_restartLoop (frame : FrameRef) : (restartLoop frame).Within commonScope := by
  unfold restartLoop
  repeat' with_reducible first
    | split
    | refine common_then ?_ fun _ => ?_
  all_goals simp

end Debugging

namespace Rehearsal

@[simp] theorem common_idleSteps (name : String) (steps : List IdleStep) :
    (idleSteps name steps).Within commonScope := by
  induction steps with
  | nil => simp [idleSteps]
  | cons s rest ih => cases s <;> simp [idleSteps, ih]

@[simp] theorem common_idleStep (s : IdleStep) : (idleStep s).Within commonScope := by
  cases s <;> simp [idleStep]

@[simp] theorem common_idleExecute (name : String) (v : Json.Value) (inner : List IdleStep) :
    (idleExecute name v inner).Within commonScope := by
  unfold idleExecute
  repeat' with_reducible first
    | split
    | refine common_then ?_ fun _ => ?_
  all_goals simp

@[simp] theorem common_play (frame : Nat) (text : String) (part : Part) : (play frame text part).Within commonScope := by
  cases part <;> simp [play]

@[simp] theorem common_next (frame : Nat) : (next frame).Within commonScope := by
  unfold next
  repeat' with_reducible first
    | split
    | refine common_then ?_ fun _ => ?_
  all_goals simp

@[simp] theorem common_loop (frame : Nat) (pop : Bool) : (loop frame pop).Within commonScope := by
  unfold loop
  repeat' with_reducible first
    | split
    | refine common_then ?_ fun _ => ?_
  all_goals simp

@[simp] theorem common_awaitCurrentExit (trigger : Option ResumeAction) : (awaitCurrentExit trigger).Within commonScope := by
  unfold awaitCurrentExit
  repeat' with_reducible first
    | split
    | refine common_then ?_ fun _ => ?_
  all_goals simp

end Rehearsal

namespace Reading

@[simp] theorem common_pump : pump.Within commonScope := by
  unfold pump work Rehearsal.begin
  repeat' with_reducible first
    | split
    | refine common_then ?_ fun _ => ?_
  all_goals simp

@[simp] theorem common_hostRead (reader : Nat) : (hostRead reader).Within commonScope := by
  unfold hostRead
  repeat' with_reducible first
    | split
    | refine common_then ?_ fun _ => ?_
  all_goals simp

@[simp] theorem common_readLoop : readLoop.Within commonScope := by
  unfold readLoop
  repeat' with_reducible first
    | split
    | refine common_then ?_ fun _ => ?_
  all_goals simp

@[simp] theorem common_readLine (token : Option Token) : (readLine token).Within commonScope := by
  unfold readLine
  repeat' with_reducible first
    | split
    | refine common_then ?_ fun _ => ?_
  all_goals simp

@[simp] theorem common_onPipeline (action : Nat) : (onPipeline action).Within commonScope := by
  unfold onPipeline valueBehindLoop
  repeat' with_reducible first
    | split
    | refine common_then ?_ fun _ => ?_
  all_goals simp

end Reading

namespace Clients

@[simp] theorem common_setUp (e : EngineName) (owns : Bool) : (setUp e owns).Within commonScope := by
  unfold setUp
  repeat' with_reducible first
    | split
    | refine common_then ?_ fun _ => ?_
  all_goals simp

theorem common_raise {e : EngineName} {call : Hooks → Code Report} (h : ∀ hooks, (call hooks).Within commonScope) :
    (raise e call).Within commonScope := by
  refine common_then (by simp) fun hooks => ?_
  cases hooks with
  | none => simp
  | some hooks => exact h hooks

@[simp] theorem common_handle (request : ClientRequest) : (handle request).Within commonScope := by
  cases request
  case breakpoint =>
    refine common_raise fun hooks => ?_
    cases hooks <;> simp
  case availability | stop | nested => exact common_raise fun hooks => by simp
  case executeBuffered =>
    refine common_then (by simp) fun r => ?_
    split <;> simp
  all_goals simp [handle, Reading.submit, pushSession]

@[simp] theorem common_serve (name : String) (request : ClientRequest) : (serve name request).Within commonScope := by
  unfold serve
  repeat' with_reducible first
    | split
    | refine common_then ?_ fun _ => ?_
  all_goals simp

end Clients

namespace Shell

@[simp] theorem common_debuggerLine (line : String) : (debuggerLine line).Within commonScope := by
  unfold debuggerLine complain Running.write
  repeat' with_reducible first
    | split
    | refine common_then ?_ fun _ => ?_
  all_goals simp

@[simp] theorem common_debuggerRead (read : Except Failure (Option String)) : (debuggerRead read).Within commonScope := by
  unfold debuggerRead
  split <;> simp [complain, Running.write]

@[simp] theorem common_debuggerLoop : debuggerLoop.Within commonScope := by
  unfold debuggerLoop
  repeat' with_reducible first
    | split
    | refine common_then ?_ fun _ => ?_
  all_goals simp

@[simp] theorem common_wait (request : String) (position : Nat) : (Shell.wait request position).Within commonScope := by
  unfold wait complain Running.write
  repeat' with_reducible first
    | split
    | refine common_then ?_ fun _ => ?_
  all_goals simp

@[simp] theorem common_loop (position : Nat) : (loop position).Within commonScope := by
  unfold loop
  repeat' with_reducible first
    | split
    | refine common_then ?_ fun _ => ?_
  all_goals simp

end Shell

/-! ## Who does more than that -/

/-- What is within the province of a procedure. -/
def Proc.province (proc : Proc) : Scope brokerInterface where
  acts a := a.isBooking → ∃ e, proc.isInvocationOn e
  calls callee := callee.isReserved →
    ∃ q token, callee = .route q token ∧ (proc = .route q token ∨ proc = .execute q token)
  starts other := ¬other.isThread →
    ∃ frame e event, other = .restartLoop frame ∧ proc = .debuggerStopped .broker e event

section Provinces

variable {proc : Proc}

theorem Program.Within.commonly (h : p.Within commonScope) : p.Within proc.province :=
  h.mono (S := commonScope) (fun _ quiet book => Bool.noConfusion (quiet.symm.trans book))
    (fun _ free reserved => Bool.noConfusion (free.symm.trans reserved)) fun _ thread other => absurd thread other

theorem common_body (invoke : ∀ e, proc.isInvocationOn e = false) (route : ∀ q token, proc ≠ .route q token)
    (execute : ∀ q token, proc ≠ .execute q token) (stopped : ∀ e event, proc ≠ .debuggerStopped .broker e event) :
    (body proc).Within commonScope := by
  cases proc
  case invoke e c merge nested => simpa [Proc.isInvocationOn] using invoke e
  case route q token => exact absurd rfl (route q token)
  case execute q token => exact absurd rfl (execute q token)
  case debuggerStopped hooks e event =>
    cases hooks with
    | plans => exact Engines.common_playStop event
    | broker => exact absurd rfl (stopped e event)
  all_goals simp [body, Routing.awaitAnswer, Reading.compute]

theorem province_invoke (e : EngineName) (c : Command) (merge nested : Bool) :
    (Engines.invoke e c merge).Within (Proc.invoke e c merge nested).province := by
  have free : ∀ a, (Proc.invoke e c merge nested).province.acts a := fun _ _ => ⟨e, by simp [Proc.isInvocationOn]⟩
  have calls : ∀ callee, callee.isReserved = false → (Proc.invoke e c merge nested).province.calls callee :=
    fun callee common reserved => Bool.noConfusion (common.symm.trans reserved)
  unfold Engines.invoke Engines.run
  refine Program.within_bind (by simp [free]) fun entered => ?_
  split
  · trivial
  · refine Program.within_bind ?_ fun r => by simp [free]
    split
    · refine Program.within_bind (by simp [free]) fun held => ?_
      split <;> simp [free, Engines.awaitRelease]
    · refine Program.within_bind (by simp [free]) fun script => ?_
      rcases script with _ | script
      · simp
      · cases script with
        | «break» event =>
          refine Program.within_bind (by simp [free]) fun hooks => ?_
          cases hooks with
          | none => trivial
          | some hooks => exact ⟨free _, fun _ => ⟨calls _ rfl, fun _ => by simp [free]⟩⟩
        | nestedPrompt =>
          refine Program.within_bind (by simp [free]) fun hooks => ?_
          cases hooks with
          | none => trivial
          | some hooks => exact ⟨calls _ rfl, fun _ => trivial⟩
        | unavailable => exact Program.within_bind (.commonly (by simp)) fun _ => trivial
        | _ => simp [free, Engines.runScript, Engines.awaitRelease]

theorem province_route (q : Request) (token : Option Token) :
    (Routing.route q token).Within (Proc.route q token).province := by
  refine Program.within_bind (.commonly (by simp)) fun frame => ?_
  refine Program.within_bind (.commonly (by simp)) fun around => ?_
  refine Program.within_bind (.commonly (by simp)) fun r => ?_
  split
  · refine Program.within_bind (.commonly (by simp)) fun phase => ?_
    split
    · trivial
    · exact ⟨fun _ => ⟨q, token, rfl, .inl rfl⟩, fun _ => trivial⟩
  · trivial

theorem province_execute (q : Request) (token : Option Token) :
    (Routing.execute q token).Within (Proc.execute q token).province := by
  refine Program.within_bind (.commonly (by simp)) fun phase => ?_
  split
  · trivial
  · refine Program.within_bind (.commonly (by simp)) fun _ => Program.within_bind (.commonly (by simp)) fun _ => ?_
    refine Program.within_bind ⟨fun _ => ⟨q, token, rfl, .inr rfl⟩, fun _ => trivial⟩ fun r => ?_
    exact .commonly (by simp)

theorem province_stopped (e : EngineName) (event : StopEvent) :
    (Debugging.stopped .broker e event).Within (Proc.debuggerStopped .broker e event).province := by
  refine Program.within_bind (.commonly (by simp)) fun alive => ?_
  split
  · trivial
  · refine Program.within_bind ?_ fun action => .commonly (by simp)
    refine Program.within_bind (.commonly (by simp)) fun _ => Program.within_bind (.commonly (by simp)) fun attached => ?_
    refine Program.within_bind (.commonly (by simp)) fun _ => Program.within_bind (.commonly (by simp)) fun active => ?_
    refine Program.within_bind (.commonly (by simp)) fun _ => Program.within_bind (.commonly (by simp)) fun session => ?_
    refine Program.within_bind (.commonly (by simp)) fun frame => Program.within_bind (.commonly (by simp)) fun settings => ?_
    refine Program.within_bind ?_ fun _ => .commonly ?_
    · refine Program.within_onlyIf.mpr fun _ => Program.within_bind (.commonly (by simp)) fun _ => ?_
      exact ⟨fun _ => ⟨frame, e, event, rfl, rfl⟩, trivial⟩
    · refine common_then (by simp) fun _ => common_then (by simp) fun exited => common_then (by simp) fun _ => ?_
      exact common_then (by simp) fun action => common_then (by simp) fun _ => trivial

/-- Nobody leaves his province. -/
theorem within_province (proc : Proc) : (body proc).Within proc.province := by
  cases proc
  case invoke e c merge nested => exact province_invoke e c merge nested
  case route q token => exact province_route q token
  case execute q token => exact province_execute q token
  case debuggerStopped hooks e event =>
    cases hooks with
    | plans => exact .commonly (Engines.common_playStop event)
    | broker => exact province_stopped e event
  all_goals exact .commonly (common_body (by simp [Proc.isInvocationOn]) (by simp) (by simp) (by simp))

end Provinces

/-! ## Engines are what they are -/

/-- Only invocations write into the books of engines. -/
theorem handsOff_body (proc : Proc) (other : ∀ e, proc.isInvocationOn e = false) : (body proc).Within handsOff := by
  refine (within_province proc).mono (fun a may => ?_) (fun _ _ => trivial) fun _ _ => trivial
  refine Bool.eq_false_of_not_eq_true fun book => ?_
  obtain ⟨e, invocation⟩ := may book
  exact Bool.noConfusion ((other e).symm.trans invocation)

/-- What hooks do on hearing of a change of the availability is discreet. -/
theorem discreet_tellAvailability (h : Hooks) (a : Availability) :
    (Engines.tellAvailability (some h) a).Within discreet := by
  cases h <;> simp [Engines.tellAvailability, discreet, Action.isLookup, Action.isBooking]

theorem runsEngines_broker : RunsEngines brokerMachine fun _ h a => Engines.tellAvailability (some h) a where
  perform := rfl
  invoke e c merge _ := (Engines.invokeTelling_eq e c merge).symm
  told _ h a := discreet_tellAvailability h a
  others := handsOff_body

end SessionBroker
