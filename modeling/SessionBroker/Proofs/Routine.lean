import SessionBroker.Proofs.Calm

/-!
# Routine programs

Routine programs begin no abort, and the only commands that they run are those that wait behind the read
loop. Everything that a broker does is routine, but for aborts themselves and for commands that are run
once a lease has been granted.
-/

namespace SessionBroker

def Action.IsRoutine : Action → Prop
  | .broker (.beginAbort _) => False
  | _ => True

/-- Procedures that routine programs may call or start. -/
def Proc.IsRoutine : Proc → Prop
  | .runCommand _ _ _ way => way = .idle
  | _ => True

/-- What routine programs do. -/
def routineScope : Scope brokerInterface := ⟨Action.IsRoutine, Proc.IsRoutine, Proc.IsRoutine⟩

/-- A scope that allows whatever routine programs do. -/
class Scope.Routine (S : Scope brokerInterface) : Prop where
  acts : ∀ a, routineScope.acts a → S.acts a
  calls : ∀ p, routineScope.calls p → S.calls p
  starts : ∀ p, routineScope.starts p → S.starts p

instance : routineScope.Routine := ⟨fun _ h => h, fun _ h => h, fun _ h => h⟩

theorem Action.IsCalm.isRoutine {a : Action} (calm : a.IsCalm) : a.IsRoutine := by
  rcases a with _ | _ | _ | _ | _ | op
  case broker => cases op <;> first | exact calm.elim | trivial
  all_goals trivial

instance (S : Scope brokerInterface) [routine : S.Routine] : S.Calm where
  acts a h := routine.acts a h.isRoutine
  calls p h := routine.calls p (by cases p <;> trivial)
  starts p h := routine.starts p (by cases p <;> first | exact h.elim | trivial)

theorem Program.Within.routinely {α : Type} {p : Code α} {S : Scope brokerInterface}
    [routine : S.Routine] (h : p.Within routineScope) : p.Within S :=
  h.mono routine.acts routine.calls routine.starts

@[simp] theorem routineScope_acts {a : Action} : routineScope.acts a ↔ a.IsRoutine := Iff.rfl
@[simp] theorem routineScope_calls {p : Proc} : routineScope.calls p ↔ p.IsRoutine := Iff.rfl
@[simp] theorem routineScope_starts {p : Proc} : routineScope.starts p ↔ p.IsRoutine := Iff.rfl

attribute [simp] Action.IsRoutine Proc.IsRoutine

variable {S : Scope brokerInterface} [S.Routine]

/-! ## Commands -/

namespace Engines

variable {e : EngineName}

@[simp] theorem routine_runScript (s : Script) : (runScript e s).Within S := by
  refine Program.Within.routinely ?_
  cases s
  case «break» | nestedPrompt =>
    refine Program.within_bind (by simp) fun hooks => ?_
    cases hooks <;> simp
  all_goals simp [runScript]

@[simp] theorem routine_invoke (c : Command) (merge : Bool) : (invoke e c merge).Within S := by
  refine Program.Within.routinely ?_
  refine Program.within_bind (by simp) fun entered => ?_
  cases entered with
  | error f => simp
  | ok _ =>
    refine Program.within_bind ?_ fun r => by simp
    unfold run
    split
    · simp
    · refine Program.within_bind (by simp) fun script => ?_
      cases script <;> simp

@[simp] theorem routine_through (c : Command) (merge nested : Bool) :
    (through e c merge nested).Within S := by
  refine Program.Within.routinely ?_
  refine Program.within_bind (by simp) fun answer => ?_
  cases answer <;> simp

@[simp] theorem routine_atPrompt (c : Command) : (atPrompt e c).Within S := by
  refine Program.Within.routinely ?_
  refine Program.within_bind (by simp) fun debugger => ?_
  simp only []
  split
  · simp
  · split
    · simp
    · split <;> simp

@[simp] theorem routine_step (step : EngineStep) : (Engines.step e step).Within S := by
  refine Program.Within.routinely ?_
  unfold Engines.step
  split <;> simp

@[simp] theorem routine_playSteps (steps : List EngineStep) : (playSteps e steps).Within S := by
  refine Program.Within.routinely ?_
  induction steps with
  | nil => simp [playSteps]
  | cons s rest ih => cases s <;> simp [playSteps, ih]

@[simp] theorem routine_playStop (event : StopEvent) : (playStop e event).Within S := by
  refine Program.Within.routinely ?_
  refine Program.within_bind (by simp) fun stopped => Program.within_bind (by simp) fun _ => ?_
  refine Program.within_bind (by simp) fun plan => ?_
  rcases plan with _ | ⟨steps, action⟩ <;> simp

end Engines

namespace Running

variable {frame : FrameRef} {e : EngineName} {q : Request} {route : Route}

@[simp] theorem routine_begin : begin.Within S := by
  refine Program.Within.routinely ?_
  simp [begin]

@[simp] theorem routine_finish (progress : Progress) (hadErrors : Bool) :
    (finish progress hadErrors).Within S := by
  refine Program.Within.routinely ?_
  simp [finish]

@[simp] theorem routine_send : (send frame e q route).Within S := by
  refine Program.Within.routinely ?_
  unfold send
  split
  · refine Program.within_bind (by simp) fun r => ?_
    cases r with
    | error f => simp
    | ok reply =>
      simp only []
      split <;> simp
  · simp

end Running

namespace Leases

@[simp] theorem routine_acquire (frame : Nat) (caller : Gate.Caller) :
    (acquire frame caller).Within S := by
  refine Program.Within.routinely ?_
  simp [acquire]

@[simp] theorem routine_await (frame ticket : Nat) (caller : Gate.Caller) :
    (await frame ticket caller).Within S := by
  refine Program.Within.routinely ?_
  refine Program.within_bind (by simp) fun answer => ?_
  cases answer <;> simp

@[simp] theorem routine_release (frame : Nat) : (release frame).Within S := by
  refine Program.Within.routinely ?_
  simp [release]

end Leases

/-! ## Stops, lines and the shell -/

namespace Debugging

variable {frame : FrameRef} {e : EngineName}

@[simp] theorem routine_probeStop (session : Session) : (probeStop frame session).Within S := by
  refine Program.Within.routinely ?_
  refine Program.within_bind (by simp) fun lease => ?_
  cases lease <;> simp

@[simp] theorem routine_leaveStop (action : ResumeAction) : (leaveStop frame action).Within S := by
  refine Program.Within.routinely ?_
  simp [leaveStop]

@[simp] theorem routine_serviceStop (event : StopEvent) : (serviceStop event).Within S := by
  refine Program.Within.routinely ?_
  refine Program.within_bind (by simp) fun _ => Program.within_bind (by simp) fun attached => ?_
  refine Program.within_bind (by simp) fun _ => Program.within_bind (by simp) fun active => ?_
  refine Program.within_bind (by simp) fun _ => Program.within_bind (by simp) fun session => ?_
  refine Program.within_bind (by simp) fun frame => Program.within_bind (by simp) fun settings => ?_
  refine Program.within_bind (by simp) fun _ => Program.within_bind (by simp) fun _ => ?_
  simp

@[simp] theorem routine_stopped (hooks : Hooks) (event : StopEvent) :
    (stopped hooks e event).Within S := by
  refine Program.Within.routinely ?_
  cases hooks <;> simp [stopped]

end Debugging

namespace Routing

@[simp] theorem routine_execute (q : Request) (token : Option Token) : (execute q token).Within S := by
  refine Program.Within.routinely ?_
  refine Program.within_bind (by simp) fun phase => ?_
  split
  · simp
  · refine Program.within_bind (by simp) fun _ => Program.within_bind (by simp) fun _ => ?_
    simp

@[simp] theorem routine_submit (c : Command) (o : RequestOptions) (token : Option Token) :
    (submit c o token).Within S := by
  refine Program.Within.routinely ?_
  simp [submit]

end Routing

namespace Reading

@[simp] theorem routine_readLine (token : Option Token) : (readLine token).Within S := by
  refine Program.Within.routinely ?_
  refine Program.within_bind (by simp) fun phase => ?_
  split
  · simp
  · refine Program.within_bind (by simp) fun frame => Program.within_bind (by simp) fun lease => ?_
    cases lease <;> simp

@[simp] theorem routine_onPipeline (n : Nat) : (onPipeline n).Within S := by
  refine Program.Within.routinely ?_
  refine Program.within_bind (by simp) fun phase => ?_
  split
  · simp
  · refine Program.within_bind (by simp) fun behind => ?_
    cases behind with
    | some v => simp
    | none =>
      refine Program.within_bind (by simp) fun taken => ?_
      cases taken with
      | none => simp
      | some v =>
        refine Program.within_bind (by simp) fun frame => Program.within_bind (by simp) fun lease => ?_
        cases lease <;> simp

end Reading

namespace Shell

@[simp] theorem routine_debuggerLoop : debuggerLoop.Within S := by
  refine Program.Within.routinely ?_
  refine Program.within_bind (by simp) fun stop => ?_
  split
  · simp
  · refine Program.within_bind (by simp) fun read => ?_
    rcases read with f | _ | line
    · cases f <;> simp [debuggerRead]
    · simp [debuggerRead]
    · show (debuggerLine _).Within _
      unfold debuggerLine
      split
      · simp
      · split
        · simp
        · refine Program.within_bind (by simp) fun r => ?_
          cases r <;> simp

@[simp] theorem routine_wait (request : String) (position : Nat) : (wait request position).Within S := by
  refine Program.Within.routinely ?_
  refine Program.within_bind (by simp) fun news => ?_
  split
  · simp
  · split <;> simp

@[simp] theorem routine_loop (position : Nat) : (loop position).Within S := by
  refine Program.Within.routinely ?_
  refine Program.within_bind (by simp) fun read => ?_
  rcases read with f | _ | line <;> simp

end Shell

/-! ## Clients -/

/-- Requests that are handled routinely. -/
def ClientRequest.IsRoutine : ClientRequest → Prop
  | .abort _ => False
  | _ => True

theorem Clients.routine_handle {request : ClientRequest} (routine : request.IsRoutine) :
    (Clients.handle request).Within S := by
  refine Program.Within.routinely ?_
  by_cases calm : request.IsCalm
  · exact Clients.calm_handle calm
  · cases request
    case executeBuffered c o buffer =>
      refine Program.within_bind (by simp) fun r => ?_
      cases r <;> simp
    case stop e event => exact within_raise fun hooks => by simp
    case onPipeline v => simp [handle, Reading.submit]
    all_goals first | exact routine.elim | exact absurd trivial calm | simp [handle]

/-- Whoever serves a client does no more than handle its request. -/
theorem Clients.routine_serve {name : String} {request : ClientRequest}
    (h : (Clients.handle request).Within S) : (Clients.serve name request).Within S := by
  have told : ∀ report : Report, (do
      Program.onlyIf (holdsBroker request) (Code.broker .letGo)
      Code.broker (.report name report)).Within S :=
    fun report => Program.Within.routinely (by simp)
  unfold serve
  split
  · refine Program.within_bind (Program.Within.routinely (by simp)) fun _ => ?_
    refine Program.within_bind h fun report => ?_
    simpa [Program.onlyIf, *] using told report
  · refine Program.within_bind h fun report => ?_
    simpa [Program.onlyIf, *] using told report

/-- Procedures whose bodies are routine. -/
def Proc.IsRoutinely : Proc → Prop
  | .route .. | .serve .. | .runCommand .. | .dispose | .serveClient .. => False
  | _ => True

theorem routine_body {proc : Proc} (routine : proc.IsRoutinely) : (body proc).Within S := by
  by_cases calm : proc.IsCalmly
  · exact calm_body calm
  · refine Program.Within.routinely ?_
    cases proc
    all_goals first | exact routine.elim | exact absurd trivial calm | simp [body]

end SessionBroker
